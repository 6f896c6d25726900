/-
# The canonical text of a statement

`Stmt.text` writes a statement so that reading it gives the statement back.  A
command text is written as a block, unless closing braces in it, or a brace at
its end, would end the block too early; such a text came from the rest of a line
and is written as one.  `Tree.render` writes a draft, or names its first hole.

Two of the choices are forced.  A setting without a value is written without the space that
would stand before it, and the items of a list are parted by spaces, since a line break
between them might be taken along by a command on a line.  Whether the text of a command can
be a block is decided by `fitsBlock` from the text alone.  The canonical script of several
statements has one below the other (`Stmt.scriptText`); that it is read back is the subject
of `RcScript.Proofs.RoundTrip`.
-/

import RcScript.Stmt.Tree

namespace RcScript

/-- Whether closing braces occur in a text. -/
def holdsClosingBraces : List Char → Bool
  | [] => false
  | '}' :: '}' :: _ => true
  | _ :: rest => holdsClosingBraces rest

/-- Whether a block can hold a text: the first closing braces after it must be
the block's own. -/
def fitsBlock (text : String) : Bool :=
  !holdsClosingBraces text.toList && text.toList.getLast? != some '}'

namespace Stmt

mutual

/-- The canonical text of a statement. -/
def text : Stmt → String
  | .set option value =>
    if value = "" then "set " ++ option ++ ";" else "set " ++ option ++ " " ++ value ++ ";"
  | .map keys body => "map " ++ keys ++ " " ++ text body
  | .cmd name body => "cmd " ++ name ++ " " ++ text body
  | .call name args => " ".intercalate (name :: args) ++ ";"
  | .exec sigil text =>
    if fitsBlock text then sigil.text ++ "\x7b\x7b" ++ text ++ "\x7d\x7d;"
    else sigil.text ++ text ++ "\n"
  | .list first others =>
    ":\x7b\x7b " ++ " ".intercalate (text first :: texts others) ++ " \x7d\x7d;"

/-- The canonical texts of several statements. -/
def texts : List Stmt → List String
  | [] => []
  | stmt :: stmts => text stmt :: texts stmts

end

/-- The canonical texts of several statements are those of each. -/
theorem texts_eq_map (stmts : List Stmt) : texts stmts = stmts.map text := by
  induction stmts with
  | nil => rfl
  | cons stmt stmts ih => simp [texts, ih]

/-- The canonical text of a script: one statement below the other. -/
def scriptText (stmts : List Stmt) : String := "\n".intercalate (stmts.map text)

/-- A brace at the end of a text would close its block too early; the rest of a
line can hold it. -/
example : text (.exec .shell "a b") = "$\x7b\x7ba b\x7d\x7d;" ∧
    text (.exec .shell "a \x7d") = "$a \x7d\n" := by
  decide +kernel

end Stmt

/-- The canonical text of a tree, or the first hole that a walk meets. -/
def Tree.render {α : Type} (tree : Tree α) : Except α String := tree.close.map Stmt.text

end RcScript
