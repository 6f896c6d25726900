/-
# Statement trees

A statement sets an option, binds keys, defines a command, calls one, runs a text
outside the script, or is a list of statements.  Trees are kept by shape: what
stands where a statement should be, and is none, is a *hole*.  A `Stmt` is a tree
without holes; a draft, which a caller of the library may put together freely, can
have them.  `walk` lists a tree, parents first, and `same_iff` says that trees are
compared by structure.

Trees are nested lists of trees, so every function over them comes with one over lists,
written in the same recursion: `walk` and `walkAll`, `close` and `closeAll`, `same` and
`sameAll`.  The functions over lists are not maps of the others in their definition; where
that matters, later modules prove that they are.  Equality is decided by `same`, which is
why it is proved exact here.
-/

import RcScript.Token

namespace RcScript

/-- A statement tree with holes of some type.  A list has at least one item. -/
inductive Tree (α : Type) where
  /-- sets an option; without a value it switches the option on -/
  | set (option value : String)
  /-- binds a sequence of keys to a statement -/
  | map (keys : String) (body : Tree α)
  /-- defines a command by a statement -/
  | cmd (name : String) (body : Tree α)
  /-- calls a command with arguments -/
  | call (name : String) (args : List String)
  /-- runs a text outside the script -/
  | exec (sigil : Sigil) (text : String)
  /-- runs statements one after the other -/
  | list (first : Tree α) (others : List (Tree α))
  /-- stands where a statement should be -/
  | hole (value : α)

/-- A statement: a tree without holes. -/
abbrev Stmt := Tree Empty

instance : Inhabited (Tree α) := ⟨.call "" []⟩

/-- What a statement does. -/
inductive StmtKind
  | set
  | map
  | cmd
  | call
  | exec
  | list
deriving DecidableEq, Repr, Inhabited

namespace StmtKind

/-- All kinds, in the order in which they are documented and counted. -/
def all : List StmtKind := [set, map, cmd, call, exec, list]

/-- The word for a kind. -/
def word : StmtKind → String
  | set => "set"
  | map => "map"
  | cmd => "cmd"
  | call => "call"
  | exec => "exec"
  | list => "list"

/-- The name that a kind has in output. -/
def label : StmtKind → String
  | set => "SET"
  | map => "MAP"
  | cmd => "CMD"
  | call => "CALL"
  | exec => "EXEC"
  | list => "LIST"

end StmtKind

namespace Tree

variable {α : Type}

/-- What the statement at the top of a tree does; a hole does nothing. -/
def kind? : Tree α → Option StmtKind
  | .set _ _ => some .set
  | .map _ _ => some .map
  | .cmd _ _ => some .cmd
  | .call _ _ => some .call
  | .exec _ _ => some .exec
  | .list _ _ => some .list
  | .hole _ => none

mutual

/-- A tree and all trees in it, parents first, in the order of the text. -/
def walk : Tree α → List (Tree α)
  | .map keys body => .map keys body :: body.walk
  | .cmd name body => .cmd name body :: body.walk
  | .list first others => .list first others :: (first.walk ++ walkAll others)
  | .set option value => [.set option value]
  | .call name args => [.call name args]
  | .exec sigil text => [.exec sigil text]
  | .hole value => [.hole value]

/-- The walks of several trees, one after the other. -/
def walkAll : List (Tree α) → List (Tree α)
  | [] => []
  | tree :: trees => tree.walk ++ walkAll trees

end

mutual

/-- The statement that a tree is, or the hole that a walk meets first. -/
def close : Tree α → Except α Stmt
  | .set option value => .ok (.set option value)
  | .map keys body => body.close.map (.map keys)
  | .cmd name body => body.close.map (.cmd name)
  | .call name args => .ok (.call name args)
  | .exec sigil text => .ok (.exec sigil text)
  | .list first others =>
    match first.close with
    | .error value => .error value
    | .ok first => (closeAll others).map (.list first)
  | .hole value => .error value

/-- The statements that trees are, or the first hole in them. -/
def closeAll : List (Tree α) → Except α (List Stmt)
  | [] => .ok []
  | tree :: trees =>
    match tree.close with
    | .error value => .error value
    | .ok stmt => (closeAll trees).map (stmt :: ·)

end

mutual

/-- Whether two trees have the same shape and the same texts. -/
def same [DecidableEq α] : Tree α → Tree α → Bool
  | .set option value, .set option' value' => option = option' && value = value'
  | .map keys body, .map keys' body' => keys = keys' && same body body'
  | .cmd name body, .cmd name' body' => name = name' && same body body'
  | .call name args, .call name' args' => name = name' && args = args'
  | .exec sigil text, .exec sigil' text' => sigil = sigil' && text = text'
  | .list first others, .list first' others' => same first first' && sameAll others others'
  | .hole value, .hole value' => value = value'
  | _, _ => false

/-- Whether two runs of trees are as long and the same one by one. -/
def sameAll [DecidableEq α] : List (Tree α) → List (Tree α) → Bool
  | [], [] => true
  | tree :: trees, tree' :: trees' => same tree tree' && sameAll trees trees'
  | _, _ => false

end

mutual

/-- **Trees that are the same are equal, and no others.** -/
theorem same_iff [DecidableEq α] : ∀ a b : Tree α, same a b = true ↔ a = b
  | .set _ _, b => by cases b <;> simp [same]
  | .map _ body, b => by
    cases b with
    | map keys' body' => simp [same, same_iff body body']
    | _ => simp [same]
  | .cmd _ body, b => by
    cases b with
    | cmd name' body' => simp [same, same_iff body body']
    | _ => simp [same]
  | .call _ _, b => by cases b <;> simp [same]
  | .exec _ _, b => by cases b <;> simp [same]
  | .list first others, b => by
    cases b with
    | list first' others' => simp [same, same_iff first first', sameAll_iff others others']
    | _ => simp [same]
  | .hole _, b => by cases b <;> simp [same]

/-- Runs of trees that are the same are equal, and no others. -/
theorem sameAll_iff [DecidableEq α] :
    ∀ as bs : List (Tree α), sameAll as bs = true ↔ as = bs
  | [], bs => by cases bs <;> simp [sameAll]
  | tree :: trees, bs => by
    cases bs with
    | nil => simp [sameAll]
    | cons tree' trees' => simp [sameAll, same_iff tree tree', sameAll_iff trees trees']

end

instance [DecidableEq α] : DecidableEq (Tree α) :=
  fun a b => decidable_of_iff (same a b = true) (same_iff a b)

end Tree
end RcScript
