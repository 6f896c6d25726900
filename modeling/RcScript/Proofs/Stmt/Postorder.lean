/-
# Trees from the leaves up

A walk lists a tree before the trees in it.  The postorder lists it after them: the parts of a
tree from left to right, and then the tree itself (`postorder_eq`).  Both list the same trees,
each as often (`postorder_perm_walk`), so whatever is counted is counted alike on either of
them, the summary of a script too (`summary_eq_tally`).

The postorder is the order in which reading completes statements, since a statement is
complete when its last part is.  It recurses over trees and lists of trees like the walk
does, so the permutation is proved by mutual recursion over both, and nothing about the
order is needed beyond it.
-/

import RcScript.Checker.Event
import RcScript.Proofs.Stmt.WellFormed

namespace RcScript
namespace Tree

variable {α : Type}

/-- The trees that stand right below the top of a tree, from left to right. -/
def parts : Tree α → List (Tree α)
  | .map _ body | .cmd _ body => [body]
  | .list first others => first :: others
  | .set _ _ | .call _ _ | .exec _ _ | .hole _ => []

mutual

/-- A tree and all trees in it, parents last, in the order of the text. -/
def postorder : Tree α → List (Tree α)
  | .map keys body => body.postorder ++ [.map keys body]
  | .cmd name body => body.postorder ++ [.cmd name body]
  | .list first others => first.postorder ++ postorderAll others ++ [.list first others]
  | .set option value => [.set option value]
  | .call name args => [.call name args]
  | .exec sigil text => [.exec sigil text]
  | .hole value => [.hole value]

/-- The postorders of several trees, one after the other. -/
def postorderAll : List (Tree α) → List (Tree α)
  | [] => []
  | tree :: trees => tree.postorder ++ postorderAll trees

end

/-- The postorder of several trees is their postorders one after the other. -/
theorem postorderAll_eq (trees : List (Tree α)) : postorderAll trees = trees.flatMap postorder := by
  induction trees with
  | nil => rfl
  | cons tree trees ih => rw [postorderAll, ih, List.flatMap_cons]

/-- **The parts of a tree come first, and the tree itself comes last.** -/
theorem postorder_eq (tree : Tree α) : tree.postorder = tree.parts.flatMap postorder ++ [tree] := by
  cases tree with
  | map | cmd => rw [postorder, parts, List.flatMap_singleton]
  | list first others => rw [postorder, postorderAll_eq, parts, List.flatMap_cons]
  | set | call | exec | hole => rfl

mutual

/-- **A postorder and a walk list the same trees**, each as often. -/
theorem postorder_perm_walk : ∀ tree : Tree α, tree.postorder.Perm tree.walk
  | .map _ body | .cmd _ body =>
    (List.perm_append_singleton _ _).trans ((postorder_perm_walk body).cons _)
  | .list first others =>
    (List.perm_append_singleton _ _).trans
      (((postorder_perm_walk first).append (postorderAll_perm_walkAll others)).cons _)
  | .set _ _ | .call _ _ | .exec _ _ | .hole _ => .refl _

/-- Of several trees, too, both orders list the same trees, each as often. -/
theorem postorderAll_perm_walkAll :
    ∀ trees : List (Tree α), (postorderAll trees).Perm (walkAll trees)
  | [] => .refl _
  | tree :: trees => (postorder_perm_walk tree).append (postorderAll_perm_walkAll trees)

end

/-- How many of some trees are of a kind. -/
def count (kind : StmtKind) (trees : List (Tree α)) : Nat :=
  trees.countP fun tree => tree.kind? = some kind

/-- The order makes no difference to how many trees are of a kind. -/
theorem count_of_perm {trees trees' : List (Tree α)} (h : trees.Perm trees') (kind : StmtKind) :
    count kind trees = count kind trees' := h.countP_eq _

end Tree

/-- A number for each kind of statement, as they are reported: in order, and no kind of which
there is none. -/
def StmtKind.tally (number : StmtKind → Nat) : String :=
  ", ".intercalate (all.filterMap fun kind =>
    if number kind = 0 then none else some (toString (number kind) ++ " " ++ kind.word))

/-- **A summary tells how many trees of each kind there are in a walk.** -/
theorem summary_eq_tally (stmts : List Stmt) :
    summary stmts = StmtKind.tally fun kind => Tree.count kind (stmts.flatMap Tree.walk) := by
  have hcount : ∀ kind, ((Tree.walkAll stmts).filterMap Tree.kind?).count kind =
      Tree.count kind (stmts.flatMap Tree.walk) := fun kind => by
    rw [List.count, List.countP_filterMap, Tree.walkAll_eq, Tree.count]
    refine List.countP_congr fun tree _ => ?_
    cases tree.kind? <;> simp
  simp only [summary, StmtKind.tally, hcount]

end RcScript
