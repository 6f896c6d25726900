/-
# Looking at the next token

The look-ahead of a scanner hides the place from which it was read.  Here a scan
is seen from before it: `ask` records that a statement is to begin, and `look`
reads the next token, so that `scan` is one after the other (`look_ask`).
`look_eq` and `look_eq_of_mode` say what a look is made of.

A flag is asked for before a token is read, and the look-ahead is what makes a scan of
both.  Taken apart, the flag is a field of the scanner like any other, and what is proved
of a look holds for every flag at once.  Everything that follows is about `look`;
`look_ask` brings it back to `scan` where the reader calls it.
-/

import RcScript.Scanner.Tokens
import Mathlib.Tactic.Common

namespace RcScript
namespace Scanner

variable {s : Scanner}

/-- Records that a statement begins with the next token, if the flag says so. -/
def ask (begins : Bool) (s : Scanner) : Scanner :=
  { s with beginsStatement := begins || s.beginsStatement }

/-- Reads the next token and keeps it as the look-ahead. -/
def look (s : Scanner) : Scanner := s.scan false

/-- Keeps a token as the look-ahead. -/
def hold (token : Token) (s : Scanner) : Scanner :=
  { s with token := token, done := token.kind = .endOfInput }

/-- Ends scanning with a fault. -/
def halt (fault : Fault) (s : Scanner) : Scanner :=
  { s with token := Token.endAt fault.position, fault := some fault, done := true }

/-- Passes what separates tokens: spaces, or only blanks while a line list is
open. -/
def skip (s : Scanner) : Scanner :=
  s.skipWhile (if s.lineLists = 0 then Text.isSpace else Text.isBlank)

/-- Forgets the mode and the request: both are used up by the next look. -/
def resume (s : Scanner) : Scanner := { s with mode := .normal, beginsStatement := false }

/-- A scan is a look after the flag has been recorded. -/
theorem look_ask (h : s.done = false) (begins : Bool) : (s.ask begins).look = s.scan begins := by
  simp [look, scan, ask, h]

/-- To ask for nothing changes nothing. -/
theorem ask_false : s.ask false = s := rfl

/-- Skipping a class of characters drops them. -/
theorem rest_skipWhile (p : Char → Bool) (s : Scanner) :
    (s.skipWhile p).rest = s.rest.dropWhile p := by
  rw [skipWhile, rest, Cursor.skipWhile, Cursor.rest_forward]
  calc s.rest.drop (s.rest.takeWhile p).length
      = (s.rest.takeWhile p ++ s.rest.dropWhile p).drop (s.rest.takeWhile p).length := by
        rw [List.takeWhile_append_dropWhile]
    _ = s.rest.dropWhile p := List.drop_left

/-- Holds what was read, or halts at the fault. -/
def settle : Except Fault Token × Scanner → Scanner
  | (.ok token, after) => after.hold token
  | (.error fault, after) => after.halt fault

/-- What was read without a fault is held. -/
theorem settle_ok (read : Token × Scanner) :
    settle (Prod.map .ok id read) = read.2.hold read.1 := rfl

/-- A look settles what comes next, and uses up the request. -/
theorem look_eq (h : s.done = false) :
    s.look = settle (nextToken s.beginsStatement { s with beginsStatement := false }) := by
  rw [look, scan, if_neg (by simp [h]), Bool.false_or]
  rfl

/-- Where no marker is owed, the mode of a scanner says what it reads. -/
theorem look_eq_of_mode (h : s.done = false) (ho : s.owed = 0) :
    s.look = settle (match s.mode with
      | .normal => Prod.map .ok id (s.resume.readToken s.beginsStatement)
      | .colon => Prod.map .ok id s.resume.readListHead
      | .sigil => s.resume.readCommand
      | .block => s.resume.readBlock
      | .terminator => s.resume.readTerminator s.beginsStatement) := by
  rw [look_eq h, nextToken, if_neg (by simp [ho])]
  cases s.mode <;> simp [resume, readListHead, readCommand, readBlock, readTerminator]

end Scanner
end RcScript
