/-
# Everything a caller can ask of a session

Besides asking for statements, a caller may take the single steps of reading, at
any time and whatever the look-ahead is.  A `Request` is one such call with its
arguments, and `Session.perform` answers it.  Faults of the single steps are
raised and not kept.

The single steps are `Parse` functions like those that a statement is read with, but a
caller may take them where a statement does not begin, after a fault, or with statements
of its own.  So nothing is promised of them beyond what they return.  Asking for statements
in whatever way, on the other hand, is understood completely:
`RcScript.Proofs.Session.Drivers` tells what any sequence of such requests is answered
with.
-/

import RcScript.Session.RoundTrip

namespace RcScript

/-- One call to a session, with its arguments. -/
inductive Request
  | step
  | next
  | all
  | iterate
  | nextItem
  | advance (begins : Bool)
  | expect (kind : TokenKind) (what : String)
  | fail (message : String)
  | statement
  | nested (owner : String)
  | setting
  | binding
  | definition
  | call
  | list
  | exec
deriving DecidableEq, Repr, Inhabited

/-- What a session gives back. -/
inductive Response
  | nothing
  | flag (value : Bool)
  | token (token : Token)
  | statement (stmt : Option Stmt)
  | statements (stmts : List Stmt)
  /-- the iterator has no further item -/
  | exhausted
  | failure (failure : Failure)
deriving Inhabited

namespace Session

/-- The response to a call that may fail. -/
def responseOf {α : Type} (respond : α → Response) : Except Failure α → Response
  | .ok a => respond a
  | .error failure => .failure failure

/-- Statements nested in one that is read as a single step. -/
def nestedItem : Owner → Parse Stmt := Parse.nested (Parse.statement (Parse.nestingLimit - 1))

/-- Reads one statement as a single step. -/
def readStmt (parse : Parse Stmt) (s : Session) : Response × Session :=
  Prod.map (responseOf (fun stmt => .statement (some stmt))) id (s.read parse)

/-- A response together with what was completed on the way to it. -/
def observe (answer : Response × Session) : Response × List Stmt × Session :=
  (answer.1, answer.2.completed, answer.2)

/-- Answers a call, and tells which statements were completed during it. -/
def perform (request : Request) (session : Session) : Response × List Stmt × Session :=
  let s := session.forgetCompleted
  match request with
  | .step =>
    match s.step with
    | (.ok found, after) => observe (.flag found, after)
    | (.error error, after) => observe (.failure (.build error), after)
  | .next => observe (Prod.map (responseOf .statement) id s.next)
  | .all =>
    let run := s.run
    (responseOf .statements run.outcome, run.completed, run.final)
  | .iterate => observe (.nothing, s.iterate)
  | .nextItem =>
    match s.nextItem with
    | (.ok none, after) => observe (.exhausted, after)
    | (outcome, after) => observe (responseOf .statement outcome, after)
  | .advance begins =>
    observe (Prod.map (responseOf .token) id (s.read (Parse.advance begins)))
  | .expect kind what =>
    observe (Prod.map (responseOf .token) id (s.read (Parse.expect kind (.described what))))
  | .fail message => observe (s.readStmt (Parse.refuse (.remark message)))
  | .statement =>
    observe (Prod.map (responseOf .statement) id (s.read (Parse.statement Parse.nestingLimit)))
  | .nested owner =>
    observe
      (s.readStmt (Parse.nested (Parse.statement Parse.nestingLimit) (.described owner)))
  | .setting => observe (s.readStmt Parse.setting)
  | .binding => observe (s.readStmt (Parse.binding nestedItem))
  | .definition => observe (s.readStmt (Parse.definition nestedItem))
  | .call => observe (s.readStmt Parse.call)
  | .list => observe (s.readStmt (Parse.list nestedItem))
  | .exec => observe (s.readStmt Parse.exec)

/-- Answers calls one after the other. -/
def performAll : List Request → Session → List Response × Session
  | [], s => ([], s)
  | request :: requests, s =>
    let (response, _, after) := s.perform request
    let (responses, final) := after.performAll requests
    (response :: responses, final)

end Session
end RcScript
