/-
# Reading tokens

`Scanner.scan` advances a scanner to its next token.  Owed newline markers come first; then
the mode decides: the text of a block, what follows a sigil, what may follow closing braces,
the head of a list, or any token at all.  Each of these is a function of its own that gives
the token, or the fault, and the scanner after it.  A fault ends scanning: the look-ahead is
the end of input from then on, and a scanner that is done never changes (`scan_of_done`).

Scanning a script to its end gives a run of tokens, the last of which is the end of input.
Which tokens they are depends on the flags that the caller gives along the way.  The run is
bounded: `Scanner.scansLeft` is a number of further scans that cannot be exceeded, computed
from what is left of the script, the lists that are open and the markers that are owed.  A
line break may close many lists and pays a marker for each, so a bare count of the
characters would not do; the weight of a character is the number of lists that can be open
by then.

`Scanner.tokens` checks the measure as it goes, so that it is defined without a proof that
it falls; that it always does is shown in `RcScript.Proofs.Scanner.Progress`.
-/

import RcScript.Scanner.Basic
import RcScript.Scanner.Lexeme
import RcScript.Token

namespace RcScript
namespace Scanner

/-! ### One token -/

/-- Reads opening braces. -/
def takeOpenBraces (ofList : Bool) (s : Scanner) : Token × Scanner :=
  (⟨.openBraces, "\x7b\x7b", s.position⟩, (s.forward 2).openBraces ofList)

/-- Reads a word. -/
def takeWord (s : Scanner) : String × Scanner :=
  let word := Lexeme.word s.rest
  (String.ofList word, s.forward word.length)

/-- Ends the line and pays the first of its markers. -/
def takeLineEnd (extra : Int) (s : Scanner) : Token × Scanner :=
  (s.endLine extra).newlineMarker

/-- Reads any token.  Line breaks count as spaces, unless a line list is open:
then the line break, or the end of the script, closes it. -/
def readToken (begins : Bool) (s : Scanner) : Token × Scanner :=
  let s := s.skipWhile (if s.lineLists = 0 then Text.isSpace else Text.isBlank)
  match s.rest with
  | [] => if s.lineLists = 0 then (Token.endAt s.position, s) else s.takeLineEnd 0
  | '\n' :: _ => s.takeLineEnd 0
  | ';' :: _ => (⟨.semicolon, ";", s.position⟩, { s.forward 1 with beginsStatement := true })
  | '{' :: '{' :: _ => s.takeOpenBraces false
  | '}' :: '}' :: _ =>
    (⟨.closeBraces, "\x7d\x7d", s.position⟩,
      { s.forward 2 with mode := .terminator }.closeBraces)
  | c :: _ =>
    if begins && c = ':' then
      (⟨.colon, ":", s.position⟩, { s.forward 1 with mode := .colon })
    else if begins && (Sigil.ofChar? c).isSome then
      (⟨.sigil, c.toString, s.position⟩, { s.forward 1 with mode := .sigil })
    else
      let (word, after) := s.takeWord
      (⟨.word, word, s.position⟩, after)

/-- Reads what follows a sigil: the braces of a block, or the rest of the line,
without the carriage returns at its end.  A line break may be escaped. -/
def readCommand (s : Scanner) : Except Fault Token × Scanner :=
  let s := { s with mode := .normal }.skipBlanks
  match s.rest with
  | '{' :: '{' :: _ =>
    let (token, after) := s.takeOpenBraces false
    (.ok token, { after with mode := .block })
  | [] | '\n' :: _ => (.error (s.faultAt .missingCommandText s.position), s)
  | rest =>
    match Lexeme.commandText rest with
    | none =>
      let after := s.forward rest.length
      (.error (s.faultAt (.unterminatedCommand s.position) after.position), after)
    | some text =>
      (.ok ⟨.command, String.ofList (Lexeme.trimReturns text), s.position⟩,
        (s.forward text.length).endLine 1)

/-- Reads the text of a block, verbatim; its closing braces are left. -/
def readBlock (s : Scanner) : Except Fault Token × Scanner :=
  let s := { s with mode := .normal }
  match Lexeme.blockText s.rest with
  | none => (.error (s.faultAt (.unterminatedBlock s.position) s.position), s)
  | some text => (.ok ⟨.command, String.ofList text, s.position⟩, s.forward text.length)

/-- Reads what follows closing braces: a separator, or the end of the line. -/
def readTerminator (begins : Bool) (s : Scanner) : Except Fault Token × Scanner :=
  let s := { s with mode := .normal }.skipBlanks
  match s.rest with
  | ';' :: _ => Prod.map .ok id (s.readToken begins)
  | [] | '\n' :: _ => Prod.map .ok id (s.takeLineEnd 1)
  | c :: _ => (.error (s.faultAt (.strayAfterBraces c) s.position), s)

/-- Reads what follows the colon of a list: its braces, or its first statement,
which makes it a line list. -/
def readListHead (s : Scanner) : Token × Scanner :=
  let s := { s with mode := .normal }.skipBlanks
  match s.rest with
  | '{' :: '{' :: _ => { s with beginsStatement := true }.takeOpenBraces true
  | _ => { s with lineLists := s.lineLists + 1 }.readToken true

/-- Reads the next token.  The flag says that a statement begins with it. -/
def nextToken (begins : Bool) (s : Scanner) : Except Fault Token × Scanner :=
  if s.owed ≠ 0 then Prod.map .ok id s.newlineMarker
  else match s.mode with
    | .normal => Prod.map .ok id (s.readToken begins)
    | .colon => Prod.map .ok id s.readListHead
    | .sigil => s.readCommand
    | .block => s.readBlock
    | .terminator => s.readTerminator begins

/-- Advances to the next token.  A caller sets the flag where a statement begins
at a place that the scanner cannot infer: after the keys of a binding and after
the name of a command that is being defined. -/
def scan (begins : Bool) (s : Scanner) : Scanner :=
  if s.done then s
  else match nextToken (begins || s.beginsStatement) { s with beginsStatement := false } with
    | (.ok token, after) => { after with token := token, done := token.kind = .endOfInput }
    | (.error fault, after) =>
      { after with token := Token.endAt fault.position, fault := some fault, done := true }

/-- The scanner of a script, with its first token as the look-ahead. -/
def start (source : String) (filename : String) : Scanner :=
  (ofText source filename).scan false

/-- A scanner that is done stays as it is. -/
theorem scan_of_done {s : Scanner} (h : s.done = true) (begins : Bool) : s.scan begins = s := by
  simp [scan, h]

/-! ### All tokens -/

/-- The lists that the next line break closes, with the one that a colon just
read may open. -/
def openLists (s : Scanner) : Nat := s.lineLists + (if s.mode = .colon then 1 else 0)

/-- The most lists that one line break could close, here or after braces have
been left. -/
def peakLists (s : Scanner) : Nat := s.saved.foldl max s.openLists

/-- How many more scans can advance a scanner.  Every marker that is owed and
every list that is open costs one.  A character left can open one list, or
braces that save all that are open, so it is worth the most lists that can be
open by then. -/
def scansLeft (s : Scanner) : Nat :=
  if s.done then 0
  else
    s.owed.toNat + s.openLists + s.saved.foldr (· + ·) 0
      + s.rest.length * (s.peakLists + s.rest.length + 3)
      + (if s.mode = .block ∨ s.mode = .terminator then 1 else 0) + 1

/-- The tokens of a scanner, its look-ahead first, down to the end of input.
The flags are given to the scans one by one, and no flag once they run out; with
the tokens comes the scanner that has read the last of them. -/
def tokens (flags : List Bool) (s : Scanner) : List Token × Scanner :=
  if s.token.kind = .endOfInput then ([s.token], s)
  else if _ : (s.scan (flags.head?.getD false)).scansLeft < s.scansLeft then
    let (tokens, final) := (s.scan (flags.head?.getD false)).tokens flags.tail
    (s.token :: tokens, final)
  else ([s.token], s)
termination_by s.scansLeft

end Scanner
end RcScript
