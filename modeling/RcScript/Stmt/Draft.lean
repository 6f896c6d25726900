/-
# Drafts

A caller may put statement trees together by hand.  What is then checked is
little: a sigil must be one of the five characters, and a list must have an item
(`Draft.exec?`, `Draft.list?`).  Where a statement belongs, a draft may hold a
text or nothing at all; only writing it out finds such a hole.

A hole prints in three ways: as it is, when it is all there is to print; marked as what it
is, inside a tree that is shown by its constructors; and as a complaint, when a tree is
written out that has it as its first hole.  The refusals of the two checked constructors are
a type of their own, `BuildError`, since they are no faults of a script: nothing that is
read from a script can run into them.
-/

import RcScript.Stmt.Canonical
import RcScript.Text.Characters

namespace RcScript

/-- What a draft may hold where a statement belongs. -/
inductive Hole
  | nothing
  | text (value : String)
deriving DecidableEq, Repr, Inhabited

namespace Hole

/-- A hole as it prints on its own. -/
def raw : Hole → String
  | nothing => "None"
  | text value => value

/-- A hole as it shows inside a tree. -/
def inspect : Hole → String
  | nothing => "None"
  | text value => Text.quoted value

/-- The complaint of a draft that is written out and has this as its first hole. -/
def complaint (h : Hole) : String := "Not an lfrc expression: " ++ h.inspect

end Hole

/-- Why a tree cannot be built. -/
inductive BuildError
  /-- this text is none of the five sigils -/
  | badSigil (text : String)
  /-- a list without items -/
  | emptyList
deriving DecidableEq, Repr, Inhabited

namespace BuildError

/-- The wording of a refusal. -/
def message : BuildError → String
  | badSigil text => "Invalid exec prefix: " ++ Text.quoted text
  | emptyList => "List expression needs at least one expression"

end BuildError

/-- A statement tree that may have holes. -/
abbrev Draft := Tree Hole

namespace Tree

variable {α : Type}

/-- A command text under a sigil that is given as text. -/
def exec? (sigil text : String) : Except BuildError (Tree α) :=
  match Sigil.ofText? sigil with
  | some g => .ok (.exec g text)
  | none => .error (.badSigil sigil)

/-- A list of the given items. -/
def list? : List (Tree α) → Except BuildError (Tree α)
  | [] => .error .emptyList
  | first :: others => .ok (.list first others)

mutual

/-- A tree by its constructors, on one line. -/
def inspectWith (hole : α → String) : Tree α → String
  | .set option value => "Set(" ++ Text.quoted option ++ ", " ++ Text.quoted value ++ ")"
  | .map keys body => "Map(" ++ Text.quoted keys ++ ", " ++ inspectWith hole body ++ ")"
  | .cmd name body => "Cmd(" ++ Text.quoted name ++ ", " ++ inspectWith hole body ++ ")"
  | .call name args => "Call(" ++ Text.quoted name ++ ", " ++ Text.quotedList args ++ ")"
  | .exec sigil text => "Exec(" ++ Text.quoted sigil.text ++ ", " ++ Text.quoted text ++ ")"
  | .list first others =>
    "List([" ++ ", ".intercalate (inspectWith hole first :: inspectAllWith hole others) ++ "])"
  | .hole value => hole value

/-- Several trees by their constructors. -/
def inspectAllWith (hole : α → String) : List (Tree α) → List String
  | [] => []
  | tree :: trees => inspectWith hole tree :: inspectAllWith hole trees

end

end Tree

/-- A statement by its constructors, on one line. -/
def Stmt.inspect (stmt : Stmt) : String := stmt.inspectWith Empty.elim

/-- A draft by its constructors, on one line. -/
def Draft.inspect (draft : Draft) : String := draft.inspectWith Hole.inspect

end RcScript
