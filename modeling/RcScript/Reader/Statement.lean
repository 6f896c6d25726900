/-
# Reading statements

Each kind of statement is read by one look at the next token:

    statement = setting | binding | definition | call | exec | list
    setting   = 'set' word word? ';'
    binding   = 'map' word statement
    definition = 'cmd' word statement
    call      = word word* ';'
    exec      = sigil command newline | sigil braces command braces ';'
    list      = ':' statement+ newline | ':' braces statement+ braces ';'

A newline marker may stand for a semicolon, and separators may stand before any
statement.  `Parse.statement` takes the number of statements that may still stand
in one another, and reads none where that number is zero.

The nested statement of a binding, of a definition or of a list is read with one level
less, and the levels start at `Parse.nestingLimit`.  The recursion is over that number, and
what repeats on one level is left to `Parse.manyWhile`; so all of this is structural, and
the proofs about it are inductions on the levels with one case for each kind of statement.
-/

import RcScript.Reader.Basic

namespace RcScript
namespace Parse

/-- How deep statements may stand in one another. -/
def nestingLimit : Nat := 328

/-- Passes all separators before a statement. -/
def separators : Parse (List Token) := manyWhile (fun t => t.kind = .semicolon) (advance true)

/-- A statement that must be there: part of another one. -/
def nested (statement : Parse (Option Stmt)) (owner : Owner) : Parse Stmt := do
  match ← statement with
  | some stmt => return stmt
  | none => refuse (.endInside owner)

/-- Sets an option.  The value may be missing. -/
def setting : Parse Stmt := do
  let _ ← advance false
  let option ← expect .word .optionName
  let next ← token
  let value ←
    if next.kind = .semicolon then pure ""
    else Token.text <$> expect .word (.valueOrEnd option.text)
  let _ ← expect .semicolon (.endOfSetting option.text)
  return .set option.text value

/-- Binds keys to the statement that follows them. -/
def binding (item : Owner → Parse Stmt) : Parse Stmt := do
  let _ ← advance false
  let keys ← token
  if keys.kind ≠ .word then
    refuse (.expected .keys keys)
  let _ ← advance true
  let body ← item (.keyBinding keys.text)
  return .map keys.text body

/-- Defines a command by the statement that follows its name. -/
def definition (item : Owner → Parse Stmt) : Parse Stmt := do
  let _ ← advance false
  let name ← token
  if name.kind ≠ .word then
    refuse (.expected .commandName name)
  let _ ← advance true
  let body ← item (.commandBody name.text)
  return .cmd name.text body

/-- One argument of a call. -/
def argument (command : String) : Parse String :=
  Token.text <$> expect .word (.argumentOrEnd command)

/-- Calls a command with the words up to the separator. -/
def call : Parse Stmt := do
  let name ← advance false
  let args ← manyWhile (fun t => t.kind ≠ .semicolon) (argument name.text)
  let _ ← advance false
  return .call name.text args

/-- A list of statements: between braces, or up to the end of its line. -/
def list (item : Owner → Parse Stmt) : Parse Stmt := do
  let _ ← advance false
  let head ← token
  if head.kind = .openBraces then
    let _ ← advance false
    let first ← item .bracedList
    let others ← manyWhile (fun t => t.kind ≠ .closeBraces) (item .bracedList)
    let _ ← advance false
    let _ ← expect .semicolon .endOfList
    return .list first others
  else
    let first ← item .lineList
    let others ← manyWhile (fun t => !t.isNewline) (item .lineList)
    let _ ← expect .semicolon .endOfList
    return .list first others

/-- Runs a text: a block between braces, or the rest of the line. -/
def exec : Parse Stmt := do
  let sigil ← advance false
  let head ← token
  let text ←
    if head.kind = .openBraces then do
      let _ ← advance false
      let text ← expect .command .commandText
      let _ ← expect .closeBraces .closingBraces
      pure text
    else expect .command (.commandTextAfter sigil.text)
  let _ ← expect .semicolon .endOfCommand
  match Tree.exec? sigil.text text.text with
  | .ok stmt => return stmt
  | .error error => throw (.build error)

/-- Reads the statement that begins with the look-ahead. -/
def statementAt (item : Owner → Parse Stmt) : Parse Stmt := do
  let head ← token
  match head.kind with
  | .word =>
    if head.text = "set" then setting
    else if head.text = "map" then binding item
    else if head.text = "cmd" then definition item
    else call
  | .colon => list item
  | .sigil => exec
  | _ => refuse (.unexpected head)

/-- The fault of statements that stand in one another too deep. -/
def tooDeep {α : Type} : Parse α := fun r =>
  .error (.fault ⟨.malformed, .nestedTooDeeply, r.scanner.filename, r.token.position⟩) r

/-- Reads one statement, or finds the end of the script. -/
def statement : Nat → Parse (Option Stmt)
  | 0 => tooDeep
  | depth + 1 => do
    let _ ← separators
    let head ← token
    if head.kind = .endOfInput then
      return none
    else
      let stmt ← statementAt (nested (statement depth))
      complete stmt
      return some stmt

end Parse
end RcScript
