/-
# Positions and offsets

A line and a column say where one stands by the line breaks that have been passed
and the characters since the last of them (`Position.after`).  This is what a cursor
counts (`Position.stepAll_start`).  Going on in a script moves a position forward,
never back and never to where it was (`Position.after_take_lt`), so a line and a
column denote at most one offset of a script: `Position.offset?` finds it
(`Position.offset?_eq_some_iff`).

This is why a place can be given by a line and a column although everything that is proved
about places is proved about offsets.  Positions are ordered here as the characters that
they denote are, and the two orders agree (`Position.le_of_offset?`), so a statement about
offsets can be read as one about lines and columns.
-/

import RcScript.Cursor
import Mathlib.Data.List.Induction
import Mathlib.Tactic.Common

namespace RcScript
namespace Position

/-- Where one stands after some text: a line further for every line break in it,
and a column further for every character after the last of these. -/
def after (before : List Char) : Position :=
  ⟨1 + before.count '\n', 1 + (before.reverse.takeWhile (· ≠ '\n')).length⟩

/-- The offset in a text that a line and a column denote, if they denote one. -/
def offset? (p : Position) (text : List Char) : Option Nat :=
  (List.range (text.length + 1)).find? fun k => after (text.take k) = p

/-- An earlier line, or an earlier column of the same line. -/
instance : LT Position := ⟨fun p q => p.line < q.line ∨ p.line = q.line ∧ p.column < q.column⟩

/-- An earlier line, or no later column of the same line. -/
instance : LE Position := ⟨fun p q => p.line < q.line ∨ p.line = q.line ∧ p.column ≤ q.column⟩

variable {p q r : Position} {text : List Char} {k l : Nat}

/-- An earlier position has an earlier line, or an earlier column of the same one. -/
theorem lt_iff : p < q ↔ p.line < q.line ∨ p.line = q.line ∧ p.column < q.column := Iff.rfl

/-- A position that is not later has an earlier line, or no later column of the same one. -/
theorem le_iff : p ≤ q ↔ p.line < q.line ∨ p.line = q.line ∧ p.column ≤ q.column := Iff.rfl

/-- An earlier position is another one. -/
theorem ne_of_lt (h : p < q) : p ≠ q := by
  rintro rfl
  rw [lt_iff] at h
  omega

/-- What is earlier than something that is not later is earlier. -/
theorem lt_of_lt_of_le (h₁ : p < q) (h₂ : q ≤ r) : p < r := by
  rw [lt_iff] at *
  rw [le_iff] at h₂
  omega

/-- What is earlier is not later. -/
theorem le_of_lt (h : p < q) : p ≤ q := by
  rw [le_iff]
  rw [lt_iff] at h
  omega

/-- No position is later than itself. -/
theorem le_refl (p : Position) : p ≤ p := .inr ⟨rfl, Int.le_refl _⟩

/-- A character moves a position forward. -/
theorem lt_step (p : Position) (c : Char) : p < p.step c := by
  rw [lt_iff, step]
  split
  · exact .inl (Int.lt_succ _)
  · exact .inr ⟨rfl, Int.lt_succ _⟩

/-- A text does not move a position back. -/
theorem le_stepAll (p : Position) (text : List Char) : p ≤ p.stepAll text := by
  induction text generalizing p with
  | nil => exact le_refl p
  | cons c text ih => exact le_of_lt (lt_of_lt_of_le (lt_step p c) (ih (p.step c)))

/-- **What a cursor counts is where its text ends.** -/
theorem stepAll_start (before : List Char) : start.stepAll before = after before := by
  induction before using List.reverseRecOn with
  | nil => rfl
  | append_singleton before c ih =>
    have hstep : start.stepAll (before ++ [c]) = (after before).step c := by
      rw [stepAll_append, ih]
      rfl
    rw [hstep, step, Text.lineBreak, after, after]
    split
    · next hc =>
      subst hc
      simp only [List.count_append, List.count_cons_self, List.count_nil, List.reverse_append,
        List.reverse_cons, List.reverse_nil, List.nil_append, List.singleton_append]
      rw [List.takeWhile_cons_of_neg (by simp)]
      simp [Int.add_assoc]
    · next hc =>
      simp only [List.count_append, List.reverse_append, List.reverse_cons, List.reverse_nil,
        List.nil_append, List.singleton_append]
      rw [List.takeWhile_cons_of_pos (by simpa using hc), List.count_cons_of_ne hc]
      simp [Int.add_assoc]

/-- **Going on in a script moves a position forward.** -/
theorem after_take_lt (hkl : k < l) (hl : l ≤ text.length) :
    after (text.take k) < after (text.take l) := by
  have hsplit : text.take l = text.take k ++ (text.take l).drop k := by
    have htake : (text.take l).take k = text.take k := by
      rw [List.take_take, Nat.min_eq_left (Nat.le_of_lt hkl)]
    rw [← htake, List.take_append_drop]
  obtain ⟨c, cs, hc⟩ : ∃ c cs, (text.take l).drop k = c :: cs := by
    refine List.exists_cons_of_ne_nil fun h => ?_
    have := List.drop_eq_nil_iff.1 h
    rw [List.length_take] at this
    omega
  rw [hsplit, hc, ← stepAll_start, ← stepAll_start, stepAll_append]
  exact lt_of_lt_of_le (lt_step _ c) (le_stepAll _ cs)

/-- To go on in a script does not move a position back. -/
theorem after_take_le (hkl : k ≤ l) (hl : l ≤ text.length) :
    after (text.take k) ≤ after (text.take l) := by
  rcases Nat.eq_or_lt_of_le hkl with rfl | hlt
  · exact le_refl _
  · exact le_of_lt (after_take_lt hlt hl)

/-- **A position denotes the offset of the text before it.** -/
theorem offset?_eq_some_iff :
    p.offset? text = some k ↔ k ≤ text.length ∧ after (text.take k) = p := by
  rw [offset?, List.find?_range_eq_some]
  simp only [decide_eq_true_eq, List.mem_range, Nat.lt_succ_iff]
  constructor
  · rintro ⟨hp, hk, -⟩
    exact ⟨hk, hp⟩
  · rintro ⟨hk, hp⟩
    refine ⟨hp, hk, fun l hl => ?_⟩
    have hlt := after_take_lt hl hk
    rw [hp] at hlt
    simpa using ne_of_lt hlt

/-- Positions are in the order of the offsets that they denote. -/
theorem le_of_offset? (hp : p.offset? text = some k) (hq : q.offset? text = some l) (h : k ≤ l) :
    p ≤ q := by
  obtain ⟨-, rfl⟩ := offset?_eq_some_iff.1 hp
  obtain ⟨hl, rfl⟩ := offset?_eq_some_iff.1 hq
  exact after_take_le h hl

end Position
end RcScript
