/-
# Reading a script to its end, and again

`Session.run` reads all statements that remain.  What it delivers is a list of statements,
each with the statements completed on the way to it, and the failure that ended the run,
if one did.  `readScript` is the run of a whole script, and `parse` is the same seen as its
statements or its first failure; most of the theory is about these two.

The run is defined by recursion on `Scanner.scansLeft`: each statement that is delivered
has cost a token.  As the definition checks this on the way, it needs no proof that it
does; a statement that cost nothing would end the run, and there is none.

Statements written in their canonical form are a script of their own.  A `RoundTrip` holds
that script and what reading it gives; when this is what was written is the subject of
`RcScript.Proofs.RoundTrip`.
-/

import RcScript.Session.Basic

namespace RcScript

/-- A statement of a script and all that was completed on the way to it: the
statements nested in it, and itself at last. -/
structure Delivery where
  completed : List Stmt
  statement : Stmt
deriving Inhabited

/-- What reading to the end gives. -/
structure Run where
  deliveries : List Delivery
  /-- what was completed after the last statement delivered -/
  unfinished : List Stmt
  failure : Option Failure
  /-- the session at the end -/
  final : Session
deriving Inhabited

namespace Run

/-- The statements of a run. -/
def statements (run : Run) : List Stmt := run.deliveries.map Delivery.statement

/-- Everything that was completed during a run, in order. -/
def completed (run : Run) : List Stmt :=
  run.deliveries.flatMap Delivery.completed ++ run.unfinished

/-- The statements of a run that did not fail. -/
def outcome (run : Run) : Except Failure (List Stmt) :=
  match run.failure with
  | some failure => .error failure
  | none => .ok run.statements

end Run

namespace Session

/-- Reads all statements that remain. -/
def run (s : Session) : Run :=
  match s.forgetCompleted.next with
  | (.error failure, after) => ⟨[], after.completed, some failure, after⟩
  | (.ok none, after) => ⟨[], after.completed, none, after⟩
  | (.ok (some stmt), after) =>
    if _ : after.reader.scansLeft < s.reader.scansLeft then
      let run := after.run
      { run with deliveries := ⟨after.completed, stmt⟩ :: run.deliveries }
    else ⟨[⟨after.completed, stmt⟩], [], none, after⟩
termination_by s.reader.scansLeft

end Session

/-- Reads a whole script. -/
def readScript (source : String) (filename : String) : Run := (Session.start source filename).run

/-- The statements of a script, or its first failure. -/
def parse (source : String) (filename : String) : Except Failure (List Stmt) :=
  (readScript source filename).outcome

/-- The canonical script of some statements, and what it reads as. -/
structure RoundTrip where
  text : String
  reread : Except Failure (List Stmt)

namespace RoundTrip

/-- Writes statements and reads them again. -/
def ofStatements (stmts : List Stmt) : RoundTrip :=
  let text := Stmt.scriptText stmts
  ⟨text, parse text unnamed⟩

/-- Reads a script, writes its statements and reads them again. -/
def ofSource (source : String) : Except Failure (List Stmt × RoundTrip) :=
  (parse source unnamed).map (fun stmts => (stmts, ofStatements stmts))

end RoundTrip

end RcScript
