/-
# Everything a caller can do to a scanner

The steps of a scanner may be taken one by one and in any order.  An `Action` is
one of them with its arguments, and `Scanner.perform` takes it: the outcome is an
answer, a fault, or a look before the beginning of the script.  Only `Action.scan`
replaces the look-ahead and ends scanning.

Some of the steps read a token, others only move the cursor or change the state, and one
looks ahead without doing either; a caller may take them where no scan would.  So markers
may be paid that are not owed, and braces closed that are not open.  What stays true all the
same, of the place where a scanner stands, is said in `RcScript.Proofs.Scanner.Performed`.
-/

import RcScript.Scanner.Tokens

namespace RcScript

/-- One step of a scanner, with its arguments. -/
inductive Action
  | scan (begins : Bool)
  | peek (ahead : Int)
  | advance
  | at? (text : String)
  | skipBlanks
  | readWord
  | readCommand
  | readBlock
  | readToken (begins : Bool)
  | nextToken (begins : Bool)
  | openBraces (ofList : Bool)
  | closeBraces
  | endLine (extra : Int)
  | newlineMarker
  /-- report a fault here, or at the given line and column -/
  | fail (message : String) (line column : Option Int)
deriving DecidableEq, Repr, Inhabited

/-- What a step gives back. -/
inductive Answer
  | nothing
  | flag (value : Bool)
  | char (found : Option Char)
  | text (value : String)
  | token (token : Token)
  | fault (fault : Fault)
  /-- the step looked before the beginning of the script -/
  | outOfRange
deriving DecidableEq, Repr, Inhabited

namespace Scanner

/-- The answer of a step that reads a token. -/
def answerOf : Except Fault Token → Answer
  | .ok token => .token token
  | .error fault => .fault fault

/-- Takes a step. -/
def perform : Action → Scanner → Answer × Scanner
  | .scan begins, s => let after := s.scan begins; (.flag !after.done, after)
  | .peek ahead, s =>
    match s.cursor.peek ahead with
    | .found c => (.char (some c), s)
    | .beyondEnd => (.char none, s)
    | .beforeStart => (.outOfRange, s)
  | .advance, s => (.char s.rest.head?, s.forward 1)
  | .at? text, s => (.flag (s.cursor.startsWith text.toList), s)
  | .skipBlanks, s => (.nothing, s.skipBlanks)
  | .readWord, s => Prod.map .text id s.takeWord
  | .readCommand, s => Prod.map answerOf id s.readCommand
  | .readBlock, s => Prod.map answerOf id s.readBlock
  | .readToken begins, s => Prod.map .token id (s.readToken begins)
  | .nextToken begins, s => Prod.map answerOf id (s.nextToken begins)
  | .openBraces ofList, s => (.nothing, s.openBraces ofList)
  | .closeBraces, s => (.nothing, s.closeBraces)
  | .endLine extra, s => (.nothing, s.endLine extra)
  | .newlineMarker, s => Prod.map .token id s.newlineMarker
  | .fail message line column, s =>
    let place : Position := ⟨line.getD s.position.line, column.getD s.position.column⟩
    (.fault (s.faultAt (.remark message) place), s)

/-- Takes steps one after the other. -/
def performAll : List Action → Scanner → List Answer × Scanner
  | [], s => ([], s)
  | action :: actions, s =>
    let (answer, after) := s.perform action
    let (answers, final) := after.performAll actions
    (answer :: answers, final)

end Scanner
end RcScript
