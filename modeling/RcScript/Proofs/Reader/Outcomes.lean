/-
# When statements are read

For each kind of statement, when reading it succeeds: which tokens are passed,
with which flags, and what is made of them.  Readings are taken apart by these
equivalences, and put together by them.

There is one equivalence for each reading function, and nothing after this module opens a
reading function where it succeeds.  Each is proved by rewriting with the equivalences for
the steps that the function is made of, from `RcScript.Proofs.Reader.Steps`; the order of
the tokens passed is that of the function, and the readers in between are named by the
order in which they stand.  Where a function branches on the kind of a token the
equivalence is a disjunction, in which the sides exclude each other by that kind.

The statements within are again left open: the equivalences for bindings, definitions and
lists are about any step that reads an item, and the one for a statement supplies it.  A
statement of no depth left is refused, so `statement_eq_ok_iff` is stated for a depth that
is a successor.
-/

import RcScript.Proofs.Reader.Parts

namespace RcScript
namespace Parse

variable {r r' : Reader} {stmt : Stmt} {item : Owner → Parse Stmt}

/-- **A setting is read** from its keyword, an option, a value if there is one, and a separator.
-/
theorem setting_eq_ok_iff : setting r = .ok stmt r' ↔
    ∃ r₁ r₂, r.Passes false r₁ ∧ r₁.token.kind = .word ∧ r₁.Passes false r₂ ∧
      ((r₂.token.kind = .semicolon ∧ r₂.Passes false r' ∧ stmt = .set r₁.token.text "") ∨
        ∃ r₃, r₂.token.kind = .word ∧ r₂.Passes false r₃ ∧ r₃.token.kind = .semicolon ∧
          r₃.Passes false r' ∧ stmt = .set r₁.token.text r₂.token.text) := by
  simp only [setting, bind_eq_ok_iff, token_eq_ok_iff, advance_eq_ok_iff, expect_eq_ok_iff]
  constructor
  · rintro ⟨_, r₁, ⟨h₁, -⟩, _, r₂, ⟨hk₂, h₂, rfl⟩, _, _, ⟨rfl, rfl⟩, h⟩
    refine ⟨r₁, r₂, h₁, hk₂, h₂, ?_⟩
    split at h
    · next hk =>
      simp only [bind_eq_ok_iff, pure_eq_ok_iff, expect_eq_ok_iff] at h
      obtain ⟨_, _, ⟨rfl, rfl⟩, _, _, ⟨-, h₃, -⟩, rfl, rfl⟩ := h
      exact .inl ⟨hk, h₃, rfl⟩
    · next hk =>
      simp only [bind_eq_ok_iff, pure_eq_ok_iff, map_eq_ok_iff, expect_eq_ok_iff] at h
      obtain ⟨_, r₃, ⟨_, ⟨hw, h₃, rfl⟩, rfl⟩, _, _, ⟨hs, h₄, -⟩, rfl, rfl⟩ := h
      exact .inr ⟨r₃, hw, h₃, hs, h₄, rfl⟩
  · rintro ⟨r₁, r₂, h₁, hk₂, h₂, ⟨hk, h₃, rfl⟩ | ⟨r₃, hw, h₃, hs, h₄, rfl⟩⟩ <;>
      refine ⟨_, r₁, ⟨h₁, rfl⟩, _, r₂, ⟨hk₂, h₂, rfl⟩, _, _, ⟨rfl, rfl⟩, ?_⟩
    · rw [if_pos hk]
      simp only [bind_eq_ok_iff, pure_eq_ok_iff, expect_eq_ok_iff]
      exact ⟨_, _, ⟨rfl, rfl⟩, _, _, ⟨hk, h₃, rfl⟩, rfl, rfl⟩
    · rw [if_neg (by simp [hw])]
      simp only [bind_eq_ok_iff, pure_eq_ok_iff, map_eq_ok_iff, expect_eq_ok_iff]
      exact ⟨_, r₃, ⟨_, ⟨hw, h₃, rfl⟩, rfl⟩, _, _, ⟨hs, h₄, rfl⟩, rfl, rfl⟩

/-- **An argument is read** from a word. -/
theorem argument_eq_ok_iff {command arg : String} : argument command r = .ok arg r' ↔
    r.token.kind = .word ∧ r.Passes false r' ∧ arg = r.token.text := by
  simp only [argument, map_eq_ok_iff, expect_eq_ok_iff]
  constructor
  · rintro ⟨_, ⟨hk, h, rfl⟩, rfl⟩
    exact ⟨hk, h, rfl⟩
  · rintro ⟨hk, h, rfl⟩
    exact ⟨_, ⟨hk, h, rfl⟩, rfl⟩

/-- **A call is read** from a name, its arguments and a separator. -/
theorem call_eq_ok_iff : call r = .ok stmt r' ↔
    ∃ r₁ args r₂, r.Passes false r₁ ∧
      manyWhile (fun t => t.kind ≠ .semicolon) (argument r.token.text) r₁ = .ok args r₂ ∧
      r₂.Passes false r' ∧ stmt = .call r.token.text args := by
  simp only [call, bind_eq_ok_iff, advance_eq_ok_iff, pure_eq_ok_iff]
  constructor
  · rintro ⟨_, r₁, ⟨h₁, rfl⟩, args, r₂, ha, _, _, ⟨h₂, -⟩, rfl, rfl⟩
    exact ⟨r₁, args, r₂, h₁, ha, h₂, rfl⟩
  · rintro ⟨r₁, args, r₂, h₁, ha, h₂, rfl⟩
    exact ⟨_, r₁, ⟨h₁, rfl⟩, args, r₂, ha, _, _, ⟨h₂, rfl⟩, rfl, rfl⟩

/-- **A command is read** from a sigil and a block between braces, or the rest of a line. -/
theorem exec_eq_ok_iff : exec r = .ok stmt r' ↔
    ∃ r₁, r.Passes false r₁ ∧
      ((∃ r₂ r₃ r₄, r₁.token.kind = .openBraces ∧ r₁.Passes false r₂ ∧
          r₂.token.kind = .command ∧ r₂.Passes false r₃ ∧
          r₃.token.kind = .closeBraces ∧ r₃.Passes false r₄ ∧
          r₄.token.kind = .semicolon ∧ r₄.Passes false r' ∧
          Tree.exec? r.token.text r₂.token.text = .ok stmt) ∨
        ∃ r₂, r₁.token.kind = .command ∧ r₁.Passes false r₂ ∧
          r₂.token.kind = .semicolon ∧ r₂.Passes false r' ∧
          Tree.exec? r.token.text r₁.token.text = .ok stmt) := by
  rw [exec, bind_eq_ok_iff]
  simp only [advance_eq_ok_iff]
  constructor
  · rintro ⟨_, r₁, ⟨h₁, rfl⟩, h⟩
    refine ⟨r₁, h₁, ?_⟩
    obtain ⟨_, _, ht, h⟩ := bind_eq_ok_iff.1 h
    obtain ⟨rfl, rfl⟩ := token_eq_ok_iff.1 ht
    split at h
    · next hk =>
      obtain ⟨_, r₂, h₂, h⟩ := bind_eq_ok_iff.1 h
      obtain ⟨_, r₃, e₃, h⟩ := bind_eq_ok_iff.1 h
      obtain ⟨_, r₄, e₄, h⟩ := bind_eq_ok_iff.1 h
      obtain ⟨hk₂, h₃, rfl⟩ := expect_eq_ok_iff.1 e₃
      obtain ⟨hk₃, h₄, -⟩ := expect_eq_ok_iff.1 e₄
      obtain ⟨hk₄, h₅, he⟩ := endOfCommand_eq_ok_iff.1 h
      exact .inl ⟨r₂, r₃, r₄, hk, (advance_eq_ok_iff.1 h₂).1, hk₂, h₃, hk₃, h₄, hk₄, h₅, he⟩
    · obtain ⟨_, r₂, e₂, h⟩ := bind_eq_ok_iff.1 h
      obtain ⟨hk₁, h₂, rfl⟩ := expect_eq_ok_iff.1 e₂
      exact .inr ⟨r₂, hk₁, h₂, endOfCommand_eq_ok_iff.1 h⟩
  · rintro ⟨r₁, h₁, ⟨r₂, r₃, r₄, hk, h₂, hk₂, h₃, hk₃, h₄, h⟩ | ⟨r₂, hk, h₂, h⟩⟩ <;>
      refine ⟨_, r₁, ⟨h₁, rfl⟩, bind_eq_ok_iff.2 ⟨_, _, token_eq_ok_iff.2 ⟨rfl, rfl⟩, ?_⟩⟩
    · rw [if_pos hk]
      refine bind_eq_ok_iff.2 ⟨_, r₂, advance_eq_ok_iff.2 ⟨h₂, rfl⟩, ?_⟩
      refine bind_eq_ok_iff.2 ⟨_, r₃, expect_eq_ok_iff.2 ⟨hk₂, h₃, rfl⟩, ?_⟩
      refine bind_eq_ok_iff.2 ⟨_, r₄, expect_eq_ok_iff.2 ⟨hk₃, h₄, rfl⟩, ?_⟩
      exact endOfCommand_eq_ok_iff.2 h
    · rw [if_neg (by simp [hk])]
      refine bind_eq_ok_iff.2 ⟨_, r₂, expect_eq_ok_iff.2 ⟨hk, h₂, rfl⟩, ?_⟩
      exact endOfCommand_eq_ok_iff.2 h

/-- **A list is read** from a colon and items between braces, or up to the end of a line. -/
theorem list_eq_ok_iff : list item r = .ok stmt r' ↔
    ∃ r₁ r₂ first others r₃, r.Passes false r₁ ∧ stmt = .list first others ∧
      ((∃ r₄ r₅, r₁.token.kind = .openBraces ∧ r₁.Passes false r₂ ∧
          item .bracedList r₂ = .ok first r₃ ∧
          manyWhile (fun t => t.kind ≠ .closeBraces) (item .bracedList) r₃ = .ok others r₄ ∧
          r₄.Passes false r₅ ∧ r₅.token.kind = .semicolon ∧ r₅.Passes false r') ∨
        (r₁.token.kind ≠ .openBraces ∧ item .lineList r₁ = .ok first r₃ ∧
          manyWhile (fun t => !t.isNewline) (item .lineList) r₃ = .ok others r₂ ∧
          r₂.token.kind = .semicolon ∧ r₂.Passes false r')) := by
  rw [list, bind_eq_ok_iff]
  simp only [advance_eq_ok_iff]
  constructor
  · rintro ⟨_, r₁, ⟨h₁, rfl⟩, h⟩
    obtain ⟨_, _, ht, h⟩ := bind_eq_ok_iff.1 h
    obtain ⟨rfl, rfl⟩ := token_eq_ok_iff.1 ht
    split at h
    · next hk =>
      obtain ⟨_, r₂, h₂, h⟩ := bind_eq_ok_iff.1 h
      obtain ⟨first, r₃, h₃, h⟩ := bind_eq_ok_iff.1 h
      obtain ⟨others, r₄, h₄, h⟩ := bind_eq_ok_iff.1 h
      obtain ⟨_, r₅, h₅, h⟩ := bind_eq_ok_iff.1 h
      obtain ⟨_, _, h₆, h⟩ := bind_eq_ok_iff.1 h
      obtain ⟨rfl, rfl⟩ := pure_eq_ok_iff.1 h
      obtain ⟨hk₅, h₆, -⟩ := expect_eq_ok_iff.1 h₆
      exact ⟨r₁, r₂, first, others, r₃, h₁, rfl, .inl ⟨r₄, r₅, hk,
        (advance_eq_ok_iff.1 h₂).1, h₃, h₄, (advance_eq_ok_iff.1 h₅).1, hk₅, h₆⟩⟩
    · next hk =>
      obtain ⟨first, r₂, h₂, h⟩ := bind_eq_ok_iff.1 h
      obtain ⟨others, r₃, h₃, h⟩ := bind_eq_ok_iff.1 h
      obtain ⟨_, _, h₄, h⟩ := bind_eq_ok_iff.1 h
      obtain ⟨rfl, rfl⟩ := pure_eq_ok_iff.1 h
      obtain ⟨hk₃, h₄, -⟩ := expect_eq_ok_iff.1 h₄
      exact ⟨r₁, r₃, first, others, r₂, h₁, rfl, .inr ⟨hk, h₂, h₃, hk₃, h₄⟩⟩
  · rintro ⟨r₁, r₂, first, others, r₃, h₁, rfl, h⟩
    refine ⟨_, r₁, ⟨h₁, rfl⟩, bind_eq_ok_iff.2 ⟨_, _, token_eq_ok_iff.2 ⟨rfl, rfl⟩, ?_⟩⟩
    rcases h with ⟨r₄, r₅, hk, h₂, h₃, h₄, h₅, hk₅, h₆⟩ | ⟨hk, h₂, h₃, hk₃, h₄⟩
    · rw [if_pos hk]
      refine bind_eq_ok_iff.2 ⟨_, r₂, advance_eq_ok_iff.2 ⟨h₂, rfl⟩, ?_⟩
      refine bind_eq_ok_iff.2 ⟨first, r₃, h₃, bind_eq_ok_iff.2 ⟨others, r₄, h₄, ?_⟩⟩
      refine bind_eq_ok_iff.2 ⟨_, r₅, advance_eq_ok_iff.2 ⟨h₅, rfl⟩, ?_⟩
      refine bind_eq_ok_iff.2 ⟨_, r', expect_eq_ok_iff.2 ⟨hk₅, h₆, rfl⟩, ?_⟩
      exact pure_eq_ok_iff.2 ⟨rfl, rfl⟩
    · rw [if_neg hk]
      refine bind_eq_ok_iff.2 ⟨first, r₃, h₂, bind_eq_ok_iff.2 ⟨others, r₂, h₃, ?_⟩⟩
      refine bind_eq_ok_iff.2 ⟨_, r', expect_eq_ok_iff.2 ⟨hk₃, h₄, rfl⟩, ?_⟩
      exact pure_eq_ok_iff.2 ⟨rfl, rfl⟩

/-- **A statement is read as its first token says.** -/
theorem statementAt_eq_ok_iff : statementAt item r = .ok stmt r' ↔
    (r.token.kind = .word ∧ r.token.text = "set" ∧ setting r = .ok stmt r') ∨
    (r.token.kind = .word ∧ r.token.text = "map" ∧ binding item r = .ok stmt r') ∨
    (r.token.kind = .word ∧ r.token.text = "cmd" ∧ definition item r = .ok stmt r') ∨
    (r.token.kind = .word ∧ r.token.text ∉ keywords ∧ call r = .ok stmt r') ∨
    (r.token.kind = .colon ∧ list item r = .ok stmt r') ∨
    (r.token.kind = .sigil ∧ exec r = .ok stmt r') := by
  rw [statementAt, bind_eq_ok_iff]
  simp only [token_eq_ok_iff, keywords, List.mem_cons, List.not_mem_nil, or_false, not_or]
  constructor
  · rintro ⟨_, _, ⟨rfl, rfl⟩, h⟩
    cases hk : r.token.kind with
    | word =>
      simp only [hk] at h
      split at h
      · next ht => exact .inl ⟨rfl, ht, h⟩
      · next hs =>
        split at h
        · next ht => exact .inr (.inl ⟨rfl, ht, h⟩)
        · next hm =>
          split at h
          · next ht => exact .inr (.inr (.inl ⟨rfl, ht, h⟩))
          · next hc => exact .inr (.inr (.inr (.inl ⟨rfl, ⟨hs, hm, hc⟩, h⟩)))
    | colon =>
      simp only [hk] at h
      exact .inr (.inr (.inr (.inr (.inl ⟨rfl, h⟩))))
    | sigil =>
      simp only [hk] at h
      exact .inr (.inr (.inr (.inr (.inr ⟨rfl, h⟩))))
    | _ =>
      simp only [hk] at h
      exact absurd h refuse_ne_ok
  · rintro (⟨hk, ht, h⟩ | ⟨hk, ht, h⟩ | ⟨hk, ht, h⟩ | ⟨hk, ⟨hs, hm, hc⟩, h⟩ | ⟨hk, h⟩ | ⟨hk, h⟩) <;>
      refine ⟨_, _, ⟨rfl, rfl⟩, ?_⟩ <;> simp only [hk]
    · rwa [if_pos ht]
    · rwa [if_neg (by simp [ht]), if_pos ht]
    · rwa [if_neg (by simp [ht]), if_neg (by simp [ht]), if_pos ht]
    · rwa [if_neg hs, if_neg hm, if_neg hc]
    · exact h
    · exact h

/-- **A statement that must be there is read** where there is one. -/
theorem nested_eq_ok_iff {statement : Parse (Option Stmt)} {owner : Owner} :
    nested statement owner r = .ok stmt r' ↔ statement r = .ok (some stmt) r' := by
  rw [nested, bind_eq_ok_iff]
  constructor
  · rintro ⟨found, r₁, h, hf⟩
    cases found with
    | none => exact absurd hf refuse_ne_ok
    | some found =>
      obtain ⟨rfl, rfl⟩ := pure_eq_ok_iff.1 hf
      exact h
  · exact fun h => ⟨some stmt, r', h, rfl⟩

/-- **A statement is read** behind its separators, or the end of the script is found there; if
it is read, it is noted as complete. -/
theorem statement_eq_ok_iff {depth : Nat} {found : Option Stmt} :
    statement (depth + 1) r = .ok found r' ↔ ∃ seps r₁, separators r = .ok seps r₁ ∧
      ((r₁.token.kind = .endOfInput ∧ found = none ∧ r' = r₁) ∨
        ∃ stmt r₂, r₁.token.kind ≠ .endOfInput ∧
          statementAt (nested (statement depth)) r₁ = .ok stmt r₂ ∧ found = some stmt ∧
          r' = { r₂ with completed := stmt :: r₂.completed }) := by
  rw [statement, bind_eq_ok_iff]
  constructor
  · rintro ⟨seps, r₁, hs, h⟩
    obtain ⟨_, _, ht, h⟩ := bind_eq_ok_iff.1 h
    obtain ⟨rfl, rfl⟩ := token_eq_ok_iff.1 ht
    refine ⟨seps, r₁, hs, ?_⟩
    split at h
    · next hk =>
      obtain ⟨rfl, rfl⟩ := pure_eq_ok_iff.1 h
      exact .inl ⟨hk, rfl, rfl⟩
    · next hk =>
      obtain ⟨stmt, r₂, h₂, h⟩ := bind_eq_ok_iff.1 h
      obtain ⟨_, _, hc, h⟩ := bind_eq_ok_iff.1 h
      obtain ⟨rfl, rfl⟩ := pure_eq_ok_iff.1 h
      cases hc
      exact .inr ⟨stmt, r₂, hk, h₂, rfl, rfl⟩
  · rintro ⟨seps, r₁, hs, h⟩
    refine ⟨seps, r₁, hs, bind_eq_ok_iff.2 ⟨_, _, token_eq_ok_iff.2 ⟨rfl, rfl⟩, ?_⟩⟩
    rcases h with ⟨hk, rfl, rfl⟩ | ⟨stmt, r₂, hk, h₂, rfl, rfl⟩
    · rw [if_pos hk]
      rfl
    · rw [if_neg hk]
      exact bind_eq_ok_iff.2 ⟨stmt, r₂, h₂, bind_eq_ok_iff.2 ⟨(), _, rfl, rfl⟩⟩

end Parse
end RcScript
