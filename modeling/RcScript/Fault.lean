/-
# Faults

A script that cannot be read has a *fault*: a cause, a category and a place.
The cause is data, so that a reader of the library can ask why a script was
refused without taking a message apart; `Cause.message` is the only place where
the wording is decided, and `Fault.text` puts the place in front of it.

A category is the family that a fault belongs to.  Three of the families are told apart in
output; each lies within the general one, and input that is incomplete lies within what is
malformed (`Category.within`), since more text may mend it.  Where a token is met that
cannot stand where it stands, the family is settled by the token: `Fault.atToken` takes it
for incomplete input at the end of the script and for malformed input anywhere else.

What would have been accepted is data too (`Expectation`), and so is the construct in which
a statement is missing (`Owner`).  Places are positions of the script, except for statements
that are nested too deep, which are refused without one of their own.
-/

import RcScript.Token

namespace RcScript

/-- The family that a fault belongs to. -/
inductive Category
  /-- a fault of no narrower family -/
  | general
  /-- characters that form no token -/
  | lexical
  /-- a token where the grammar has no room for it -/
  | malformed
  /-- a script that ends inside a statement -/
  | incomplete
deriving DecidableEq, Repr, Inhabited

namespace Category

/-- The name that a family has in output; what has no narrower family counts
among the malformed. -/
def label : Category → String
  | lexical => "LEXICAL"
  | general | malformed => "SYNTAX"
  | incomplete => "INCOMPLETE"

/-- The families that are told apart in output. -/
def labelled : List Category := [lexical, malformed, incomplete]

/-- All families, each after the ones that contain it. -/
def all : List Category := [general, lexical, malformed, incomplete]

/-- Whether one family lies within another: every fault is general, and an
incomplete script is a malformed one that more text may mend. -/
def within : Category → Category → Bool
  | _, general => true
  | incomplete, malformed => true
  | a, b => a = b

end Category

/-- What would have been accepted where something else was found. -/
inductive Expectation
  | optionName
  | valueOrEnd (option : String)
  | endOfSetting (option : String)
  | keys
  | commandName
  | argumentOrEnd (command : String)
  | endOfList
  | commandText
  | commandTextAfter (sigil : String)
  | closingBraces
  | endOfCommand
  /-- anything else, in the caller's words -/
  | described (what : String)
deriving DecidableEq, Repr, Inhabited

namespace Expectation

/-- How messages call what was expected. -/
def text : Expectation → String
  | optionName => "option name after 'set'"
  | valueOrEnd option => "value or ';' after 'set " ++ option ++ "'"
  | endOfSetting option => "';' after 'set " ++ option ++ "'"
  | keys => "keys after 'map'"
  | commandName => "command name after 'cmd'"
  | argumentOrEnd command => "argument or ';' after '" ++ command ++ "'"
  | endOfList => "';' after list"
  | commandText => "command text"
  | commandTextAfter sigil => "command text after '" ++ sigil ++ "'"
  | closingBraces => "'\x7d\x7d'"
  | endOfCommand => "end of command"
  | described what => what

end Expectation

/-- The construct that a nested statement belongs to. -/
inductive Owner
  | keyBinding (keys : String)
  | commandBody (name : String)
  | bracedList
  | lineList
  /-- anything else, in the caller's words -/
  | described (what : String)
deriving DecidableEq, Repr, Inhabited

namespace Owner

/-- How messages call the construct. -/
def text : Owner → String
  | keyBinding keys => "'map " ++ keys ++ "'"
  | commandBody name => "'cmd " ++ name ++ "'"
  | bracedList => "':\x7b\x7b' list"
  | lineList => "':' list"
  | described what => what

end Owner

/-- Why a script is refused. -/
inductive Cause
  /-- closing braces are followed by neither a separator nor the line's end -/
  | strayAfterBraces (found : Char)
  /-- a sigil is followed by nothing on its line -/
  | missingCommandText
  /-- a command text ends in a backslash that escapes nothing -/
  | unterminatedCommand (start : Position)
  /-- a verbatim block is never closed -/
  | unterminatedBlock (start : Position)
  /-- a token stands where another was needed -/
  | expected (what : Expectation) (found : Token)
  /-- no statement begins with this token -/
  | unexpected (found : Token)
  /-- the script ends where a nested statement was needed -/
  | endInside (owner : Owner)
  /-- statements stand in one another beyond the limit -/
  | nestedTooDeeply
  /-- a fault that a caller of the library describes -/
  | remark (text : String)
deriving DecidableEq, Repr, Inhabited

namespace Cause

/-- The wording of a cause. -/
def message : Cause → String
  | strayAfterBraces found =>
    "Unexpected " ++ Text.quoted found.toString ++
      " after '\x7d\x7d', expected ';' or end of line"
  | missingCommandText => "Missing command text after prefix"
  | unterminatedCommand start => "Unterminated command text starting at " ++ start.text
  | unterminatedBlock start => "Unterminated '\x7b\x7b' block starting at " ++ start.text
  | expected what found => "Expected " ++ what.text ++ ", got " ++ found.describe
  | unexpected found => "Unexpected " ++ found.describe ++ ", expected a command"
  | endInside owner => "Unexpected end of input in " ++ owner.text
  | nestedTooDeeply => "Expressions nested too deeply"
  | remark text => text

end Cause

/-- Why, and where, a script is refused. -/
structure Fault where
  category : Category
  cause : Cause
  filename : String
  position : Position
deriving DecidableEq, Repr, Inhabited

namespace Fault

/-- The wording of a fault, without its place. -/
def message (f : Fault) : String := f.cause.message

/-- A fault as it is reported: file, line, column and message. -/
def text (f : Fault) : String :=
  f.filename ++ ":" ++ f.position.text ++ ": " ++ f.message

/-- The fault of meeting a token that cannot stand where it stands.  At the end
of the script more text might mend it, so it counts as incomplete there. -/
def atToken (found : Token) (cause : Cause) (filename : String) : Fault :=
  ⟨if found.kind = .endOfInput then .incomplete else .malformed, cause, filename, found.position⟩

end Fault

/-- The name that a script without a file goes by. -/
def unnamed : String := "<input>"

end RcScript
