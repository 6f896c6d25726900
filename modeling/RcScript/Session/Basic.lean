/-
# Reading a script statement by statement

A `Session` delivers the statements of a script one at a time, however it is
asked for them: with `next`, with `step`, which only says whether there was one,
through an iterator, or all that remain at once.  Its first fault is final
(`next_of_sticky`): every later request meets it again.

A step finds its statement in `current` and its fault in `sticky`; an iterator raises its
fault once and is exhausted afterwards.  These are the ways in which a caller may ask, and
all of them come down to `Session.next`: what a session delivers does not depend on how it
is asked, which is shown in `RcScript.Proofs.Session.Drivers`.  The statements completed on
the way are kept until they are forgotten, which a run does before each request.
-/

import RcScript.Reader.Statement

namespace RcScript

/-- The reading of one script. -/
structure Session where
  reader : Reader
  /-- the statement that the last `step` delivered -/
  current : Option Stmt
  /-- the fault that ended the session -/
  sticky : Option Fault
  /-- whether the iterator in use has stopped -/
  exhausted : Bool
deriving Inhabited

namespace Session

/-- A session at the beginning of a script. -/
def start (source : String) (filename : String) : Session :=
  ⟨Reader.start source filename, none, none, false⟩

/-- The look-ahead. -/
def token (s : Session) : Token := s.reader.token

/-- The statements completed since they were last forgotten, the earliest first. -/
def completed (s : Session) : List Stmt := s.reader.completed.reverse

/-- Forgets which statements have been completed. -/
def forgetCompleted (s : Session) : Session :=
  { s with reader := { s.reader with completed := [] } }

/-- Takes a step of reading and keeps no fault. -/
def read {α : Type} (parse : Parse α) (s : Session) : Except Failure α × Session :=
  match parse s.reader with
  | .ok a reader => (.ok a, { s with reader := reader })
  | .error failure reader => (.error failure, { s with reader := reader })

/-- The next statement, or none at the end of the script.  A fault is kept. -/
def next (s : Session) : Except Failure (Option Stmt) × Session :=
  match s.sticky with
  | some fault => (.error (.fault fault), s)
  | none =>
    match s.reader.scanner.fault with
    | some fault => (.error (.fault fault), { s with sticky := some fault })
    | none =>
      match s.read (Parse.statement Parse.nestingLimit) with
      | (.error (.fault fault), after) =>
        (.error (.fault fault), { after with sticky := some fault })
      | outcome => outcome

/-- Delivers the next statement into `current`, and says whether there was one.
A fault is not raised here: it is found in `sticky`. -/
def step (s : Session) : Except BuildError Bool × Session :=
  match s.next with
  | (.ok stmt, after) => (.ok stmt.isSome, { after with current := stmt })
  | (.error (.fault _), after) => (.ok false, { after with current := none })
  | (.error (.build error), after) => (.error error, after)

/-- Begins a new iteration over the statements that remain. -/
def iterate (s : Session) : Session := { s with exhausted := false }

/-- The next item of the iterator in use; an iterator that has stopped or failed
stays exhausted. -/
def nextItem (s : Session) : Except Failure (Option Stmt) × Session :=
  if s.exhausted then (.ok none, s)
  else match s.next with
    | (.ok (some stmt), after) => (.ok (some stmt), after)
    | (outcome, after) => (outcome, { after with exhausted := true })

/-- **A fault that is kept is met again**, and the session stays as it is. -/
theorem next_of_sticky {s : Session} {fault : Fault} (h : s.sticky = some fault) :
    s.next = (.error (.fault fault), s) := by
  simp [next, h]

end Session
end RcScript
