/-
# The scanner's state

A scanner stands in a script and holds one token of look-ahead.  What the next token is
depends on more than the characters that are left: on the *mode*, which says what must
follow the last token; on whether a statement begins; on the *line lists* that the next line
break closes; and on the newline markers that are *owed* for a line break already passed.

Braces save the count of line lists and bring it back: the list of saved counts is as long
as the braces are deep, innermost first.  Between the braces of a list no line list is open,
so a line break there ends none; the braces of a block leave the count alone, for what
stands between them is text.

This module holds the state and the steps that change nothing but the state, each of them a
few fields of one record: `RcScript.Scanner.Tokens` reads tokens with them.  The number of
owed markers is an integer, since a caller who takes the steps by hand may pay a marker that
nobody owes; no scan does.
-/

import RcScript.Cursor
import RcScript.Fault

namespace RcScript

/-- What must come next. -/
inductive Mode
  /-- any token -/
  | normal
  /-- after a colon: the braces of a list, or a line list -/
  | colon
  /-- after a sigil: the braces of a block, or a command text -/
  | sigil
  /-- after the braces of a block: its text -/
  | block
  /-- after closing braces: a separator, or the end of the line -/
  | terminator
deriving DecidableEq, Repr, Inhabited

namespace Mode

/-- The name that a mode has in output. -/
def label : Mode → String
  | normal => "NORMAL"
  | colon => "COLON"
  | sigil => "PREFIX"
  | block => "BLOCK"
  | terminator => "TERMINATOR"

/-- All modes, in the order in which they are documented. -/
def all : List Mode := [normal, colon, sigil, block, terminator]

end Mode

/-- A scanner over a script. -/
structure Scanner where
  /-- where it stands -/
  cursor : Cursor
  /-- the name of the script, for its faults -/
  filename : String
  mode : Mode
  /-- whether the next token may begin a statement -/
  beginsStatement : Bool
  /-- how many lists the next line break closes -/
  lineLists : Nat
  /-- the line lists that were open outside each pair of braces, innermost first -/
  saved : List Nat
  /-- how many newline markers are due before anything else is read -/
  owed : Int
  /-- where these markers are -/
  marker : Position
  /-- whether the end, or a fault, has been met -/
  done : Bool
  /-- the fault that ended scanning -/
  fault : Option Fault
  /-- the look-ahead -/
  token : Token
deriving DecidableEq, Repr, Inhabited

namespace Scanner

/-- A scanner at the beginning of a script, before it has read anything. -/
def ofText (source : String) (filename : String) : Scanner where
  cursor := Cursor.ofText source.toList
  filename := filename
  mode := .normal
  beginsStatement := true
  lineLists := 0
  saved := []
  owed := 0
  marker := Position.start
  done := false
  fault := none
  token := Token.endAt Position.start

/-- What is left of the script. -/
def rest (s : Scanner) : List Char := s.cursor.rest

/-- The line and column it stands at. -/
def position (s : Scanner) : Position := s.cursor.position

/-- Passes a number of characters. -/
def forward (n : Nat) (s : Scanner) : Scanner := { s with cursor := s.cursor.forward n }

/-- Passes all characters of a class, up to the first that is not in it. -/
def skipWhile (p : Char → Bool) (s : Scanner) : Scanner :=
  { s with cursor := s.cursor.skipWhile p }

/-- Passes the blanks, but no line break. -/
def skipBlanks (s : Scanner) : Scanner := s.skipWhile Text.isBlank

/-- Enters a pair of braces.  Line breaks between the braces of a list close no
list that was open before them; the braces of a block leave the count alone. -/
def openBraces (ofList : Bool) (s : Scanner) : Scanner :=
  { s with
    saved := s.lineLists :: s.saved
    lineLists := if ofList then 0 else s.lineLists }

/-- Leaves a pair of braces: the line lists outside it are open again. -/
def closeBraces (s : Scanner) : Scanner :=
  match s.saved with
  | [] => s
  | outside :: saved => { s with saved := saved, lineLists := outside }

/-- Passes the line break, if one stands here, and owes the given number of
markers for it and one more for every list that it closes. -/
def endLine (extra : Int) (s : Scanner) : Scanner :=
  { s with
    marker := s.position
    cursor := s.cursor.forward (if s.rest.head? = some Text.lineBreak then 1 else 0)
    owed := s.owed + extra + s.lineLists
    lineLists := 0 }

/-- Pays one newline marker; a statement may begin after it. -/
def newlineMarker (s : Scanner) : Token × Scanner :=
  (Token.newlineAt s.marker, { s with owed := s.owed - 1, beginsStatement := true })

/-- The fault of meeting something at a place that cannot be read. -/
def faultAt (s : Scanner) (cause : Cause) (place : Position) : Fault :=
  ⟨.lexical, cause, s.filename, place⟩

end Scanner
end RcScript
