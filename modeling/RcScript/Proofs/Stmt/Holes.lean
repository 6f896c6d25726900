/-
# Trees with holes

A tree with holes is written out from left to right, part by part (`render_map`,
`render_cmd`, `render_list`), and writing stops at the first hole that it comes to.  A walk
lists parents first, and a hole has no parts, so this is the first hole of the walk
(`render_eq_error_iff`): a draft is written out just if a walk over it meets no hole, and
otherwise the hole that it meets first is named (`Draft.render_complains_iff`).

Writing goes by way of `Tree.close`, which looks for holes first.  That this is the same as
writing the parts one by one and stopping at the first that cannot be written is what the
three equations say; in them the texts around a hole are never built.  The induction that
finds the hole in the walk is mutual over trees and lists of trees, and its only case with
two parts is a list, where a hole in the first item hides those in the others.
-/

import RcScript.Stmt.Draft
import Mathlib.Tactic.Common

namespace RcScript

section
variable {β γ ε δ : Type} {result : Except ε β} {error : ε}

/-- What is done with a result leaves an error as it is. -/
theorem map_eq_error_iff {f : β → γ} : result.map f = .error error ↔ result = .error error := by
  cases result <;> simp [Except.map]

/-- An error that is reworded is the wording of an error. -/
theorem mapError_eq_error_iff {f : ε → δ} {told : δ} :
    result.mapError f = .error told ↔ ∃ error, result = .error error ∧ told = f error := by
  cases result <;> simp [Except.mapError, eq_comm]

/-- Rewording errors makes no result of them and loses none. -/
theorem exists_mapError_eq_ok_iff {f : ε → δ} :
    (∃ text, result.mapError f = .ok text) ↔ ∀ error, result ≠ .error error := by
  cases result <;> simp [Except.mapError]

end

namespace Tree

variable {α : Type} {tree : Tree α} {value : α}

/-- The hole that a tree is, if it is one. -/
def hole? : Tree α → Option α
  | .hole value => some value
  | .set _ _ | .map _ _ | .cmd _ _ | .call _ _ | .exec _ _ | .list _ _ => none

/-- A tree is a hole just when one is found in it. -/
theorem hole?_eq_some_iff : tree.hole? = some value ↔ tree = .hole value := by
  cases tree <;> simp [hole?]

/-- A tree in which none is found is no hole. -/
theorem hole?_eq_none_iff : tree.hole? = none ↔ ∀ value, tree ≠ .hole value := by
  cases tree <;> simp [hole?]

/-! ### What is written of a tree -/

/-- A binding is written in front of its body. -/
theorem render_map (keys : String) (body : Tree α) :
    (map keys body).render = body.render.map fun text => "map " ++ keys ++ " " ++ text := by
  rw [render, render, close]
  cases body.close <;> rfl

/-- A definition is written in front of its body. -/
theorem render_cmd (name : String) (body : Tree α) :
    (cmd name body).render = body.render.map fun text => "cmd " ++ name ++ " " ++ text := by
  rw [render, render, close]
  cases body.close <;> rfl

/-- Trees are written one by one, up to the first that has a hole. -/
theorem mapM_render (trees : List (Tree α)) :
    trees.mapM render = (closeAll trees).map Stmt.texts := by
  induction trees with
  | nil => rfl
  | cons tree trees ih =>
    rw [List.mapM_cons, ih, closeAll, render]
    cases tree.close with
    | error value => rfl
    | ok stmt => cases closeAll trees <;> rfl

/-- The items of a list are written one after the other, up to the first that fails. -/
theorem render_list (first : Tree α) (others : List (Tree α)) :
    (list first others).render = ((first :: others).mapM render).map fun texts =>
      ":\x7b\x7b " ++ " ".intercalate texts ++ " \x7d\x7d;" := by
  rw [mapM_render, render, close, closeAll]
  cases first.close with
  | error value => rfl
  | ok stmt => cases closeAll others <;> rfl

/-! ### Where writing stops -/

mutual

/-- **Writing a tree stops at the first hole of a walk.** -/
theorem render_eq_error_iff :
    ∀ (tree : Tree α) (value : α),
      tree.render = .error value ↔ tree.walk.findSome? hole? = some value
  | .map keys body, value => by
    rw [render_map, map_eq_error_iff, render_eq_error_iff body, walk, List.findSome?_cons]
    rfl
  | .cmd name body, value => by
    rw [render_cmd, map_eq_error_iff, render_eq_error_iff body, walk, List.findSome?_cons]
    rfl
  | .list first others, value => by
    rw [render_list, map_eq_error_iff, mapM_render_eq_error_iff (first :: others), walk,
      List.findSome?_cons]
    rfl
  | .set _ _, _ | .call _ _, _ | .exec _ _, _ => by simp [render, close, Except.map, walk, hole?]
  | .hole _, _ => by simp [render, close, Except.map, walk, hole?]

/-- Writing trees one by one stops at the first hole of their walks. -/
theorem mapM_render_eq_error_iff :
    ∀ (trees : List (Tree α)) (value : α),
      trees.mapM render = .error value ↔ (walkAll trees).findSome? hole? = some value
  | [], _ => by simp [walkAll, pure, Except.pure]
  | tree :: trees, value => by
    rw [List.mapM_cons, walkAll, List.findSome?_append]
    -- what is in front decides: the trees behind it are written only if it has no hole
    cases hr : tree.render with
    | error stopped =>
      rw [(render_eq_error_iff tree stopped).1 hr, Option.some_or]
      simp [bind, Except.bind]
    | ok text =>
      have hnone : tree.walk.findSome? hole? = none := by
        refine Option.eq_none_iff_forall_ne_some.2 fun stopped hs => ?_
        rw [(render_eq_error_iff tree stopped).2 hs] at hr
        cases hr
      rw [hnone, Option.none_or, ← mapM_render_eq_error_iff trees value]
      exact map_eq_error_iff

end

/-- The first hole of a walk is a hole behind trees that are none. -/
theorem findSome?_hole?_eq_some_iff {trees : List (Tree α)} :
    trees.findSome? hole? = some value ↔
      ∃ before after, trees = before ++ .hole value :: after ∧
        ∀ other, .hole other ∉ before := by
  rw [List.findSome?_eq_some_iff]
  constructor
  · rintro ⟨before, node, after, htrees, hnode, hbefore⟩
    rw [hole?_eq_some_iff] at hnode
    refine ⟨before, after, hnode ▸ htrees, fun other hm => ?_⟩
    exact hole?_eq_none_iff.1 (hbefore _ hm) other rfl
  · rintro ⟨before, after, htrees, hbefore⟩
    refine ⟨before, _, after, htrees, rfl, fun node hm => hole?_eq_none_iff.2 fun other hn => ?_⟩
    exact hbefore other (hn ▸ hm)

/-- A hole is found in a walk just if one is in it. -/
theorem exists_findSome?_hole? {trees : List (Tree α)} :
    (∃ value, trees.findSome? hole? = some value) ↔ ∃ value, .hole value ∈ trees := by
  rw [← Option.isSome_iff_exists, List.findSome?_isSome_iff]
  constructor
  · rintro ⟨node, hm, hs⟩
    obtain ⟨value, hvalue⟩ := Option.isSome_iff_exists.1 hs
    exact ⟨value, hole?_eq_some_iff.1 hvalue ▸ hm⟩
  · rintro ⟨value, hm⟩
    exact ⟨_, hm, rfl⟩

end Tree

namespace Draft

/-- **A draft that is written out names its first hole.**  Writing it fails just if a walk over
it meets a hole.  The complaint then names the hole that the walk meets first, and a draft
without holes is written. -/
theorem render_complains_iff (draft : Draft) :
    ((∃ message, draft.render.mapError Hole.complaint = .error message) ↔
        ∃ hole, .hole hole ∈ draft.walk) ∧
      (∀ message, draft.render.mapError Hole.complaint = .error message ↔
        ∃ hole before after, draft.walk = before ++ .hole hole :: after ∧
          (∀ other, .hole other ∉ before) ∧
          message = "Not an lfrc expression: " ++ hole.inspect) ∧
      ((∃ text, draft.render.mapError Hole.complaint = .ok text) ↔
        ∀ hole, .hole hole ∉ draft.walk) := by
  have hfails : (∃ hole, draft.render = .error hole) ↔ ∃ hole, .hole hole ∈ draft.walk := by
    rw [← Tree.exists_findSome?_hole?]
    exact exists_congr fun hole => Tree.render_eq_error_iff draft hole
  refine ⟨?_, fun message => ?_, ?_⟩
  · rw [← hfails]
    constructor
    · rintro ⟨message, hm⟩
      obtain ⟨hole, hhole, -⟩ := mapError_eq_error_iff.1 hm
      exact ⟨hole, hhole⟩
    · rintro ⟨hole, hhole⟩
      exact ⟨hole.complaint, mapError_eq_error_iff.2 ⟨hole, hhole, rfl⟩⟩
  · rw [mapError_eq_error_iff]
    refine exists_congr fun hole => ?_
    rw [Tree.render_eq_error_iff, Tree.findSome?_hole?_eq_some_iff]
    constructor
    · rintro ⟨⟨before, after, hwalk, hbefore⟩, rfl⟩
      exact ⟨before, after, hwalk, hbefore, rfl⟩
    · rintro ⟨before, after, hwalk, hbefore, rfl⟩
      exact ⟨⟨before, after, hwalk, hbefore⟩, rfl⟩
  · rw [exists_mapError_eq_ok_iff, ← not_exists, ← not_exists, hfails]

/-- A binding to a list whose second item is a text and whose third is nothing: the text is
named. -/
theorem render_complains_iff_list :
    (.map "a" (.list (.call "cd" []) [.hole (.text "top"), .hole .nothing]) : Draft).render.mapError
        Hole.complaint = .error "Not an lfrc expression: 'top'" := by
  refine ((render_complains_iff _).2.1 _).2
    ⟨.text "top", [.map "a" (.list (.call "cd" []) [.hole (.text "top"), .hole .nothing]),
      .list (.call "cd" []) [.hole (.text "top"), .hole .nothing], .call "cd" []],
      [.hole .nothing], rfl, fun other hm => ?_, ?_⟩
  · simp at hm
  · decide +kernel

end Draft
end RcScript
