/-
# Reading with one token of look-ahead

A `Reader` is a scanner together with what reading has left behind: the flags it
has asked the scanner with, and the statements it has completed, nested ones
included.  A `Parse` is a step of reading; it fails with a fault of the script
and leaves the reader where it stood.  `manyWhile` repeats a step for as long as
the look-ahead allows it; it ends because every token that is passed lowers
`Scanner.scansLeft`.

A `Parse` is a reader state with errors that keeps the state on both sides, so what was
completed before a fault is still there to be told.  Only four of its steps touch the
reader: the look-ahead is looked at, refused or passed, and a statement is noted as
complete.  Everything else in `RcScript.Reader.Statement` is made of these by binding,
which is why most lemmas about reading are proved for the four and carried over the
binding.

The flags are kept, although no step of reading looks at them: they record how often, and
how, the scanner was asked.
-/

import RcScript.Scanner.Tokens
import RcScript.Stmt.Draft

namespace RcScript

/-- Why reading stops: the script has a fault, or a statement is none that can
be built. -/
inductive Failure
  | fault (fault : Fault)
  | build (error : BuildError)
deriving DecidableEq, Repr, Inhabited

/-- A scanner and what reading from it has left behind. -/
structure Reader where
  scanner : Scanner
  /-- the flags that the scanner was asked with, the latest first -/
  asked : List Bool
  /-- the statements completed, the latest first -/
  completed : List Stmt
deriving Inhabited

/-- A step of reading. -/
abbrev Parse (α : Type) := EStateM Failure Reader α

namespace Reader

/-- A reader at the beginning of a script. -/
def start (source : String) (filename : String) : Reader :=
  ⟨Scanner.start source filename, [], []⟩

/-- The look-ahead. -/
def token (r : Reader) : Token := r.scanner.token

/-- How many tokens can still be passed. -/
def scansLeft (r : Reader) : Nat := r.scanner.scansLeft

end Reader

namespace Parse

variable {α : Type}

/-- The look-ahead. -/
def token : Parse Token := fun r => .ok r.token r

/-- Refuses the look-ahead. -/
def refuse (cause : Cause) : Parse α := fun r =>
  .error (.fault (Fault.atToken r.token cause r.scanner.filename)) r

/-- Passes the look-ahead and gives it back, unless scanning on meets a fault.
The flag tells the scanner that a statement begins here. -/
def advance (begins : Bool) : Parse Token := fun r =>
  let after := { r with scanner := r.scanner.scan begins, asked := begins :: r.asked }
  match after.scanner.fault with
  | some fault => .error (.fault fault) after
  | none => .ok r.token after

/-- Passes the look-ahead if it is of the kind that is needed. -/
def expect (kind : TokenKind) (what : Expectation) : Parse Token := do
  let found ← token
  if found.kind = kind then advance false else refuse (.expected what found)

/-- Notes that a statement is complete. -/
def complete (stmt : Stmt) : Parse Unit := fun r =>
  .ok () { r with completed := stmt :: r.completed }

/-- Repeats a step for as long as the look-ahead satisfies a condition. -/
def manyWhile (more : Token → Bool) (step : Parse α) : Parse (List α) := fun r =>
  if more r.token then
    match step r with
    | .error failure after => .error failure after
    | .ok a after =>
      if _ : after.scansLeft < r.scansLeft then
        match manyWhile more step after with
        | .error failure final => .error failure final
        | .ok as final => .ok (a :: as) final
      else .ok [a] after
  else .ok [] r
termination_by r => r.scansLeft

end Parse
end RcScript
