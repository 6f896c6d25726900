/-
# How far a scanner has come

A look changes the place of a scanner by moving its cursor forward, and nothing
else (`Step.onward`), so a place is told by what is left: a scanner that has the
text after a line break left to read stands at the beginning of a line, which is
numbered by the line breaks before it (`Onward.position_eq`).

The relation is coarse on purpose.  It forgets the token, the mode and everything that is
counted, and keeps only that the cursor has moved some number of characters on; that is
enough to say where a scanner stands, and it holds of every function of the scanner,
including those that fail.  Finer relations keep what this one forgets, and use it for the
place.
-/

import RcScript.Proofs.Grammar.Reads
import RcScript.Proofs.Scanner.Below

namespace RcScript

namespace Position

/-- Every line break is a line further. -/
theorem line_stepAll (p : Position) (text : List Char) :
    (p.stepAll text).line = p.line + text.count '\n' := by
  induction text generalizing p with
  | nil => exact (Int.add_zero _).symm
  | cons c text ih =>
    change ((p.step c).stepAll text).line = _
    rw [ih, step]
    split
    · next hc =>
      rw [hc, Text.lineBreak, List.count_cons_self, Int.natCast_add]
      dsimp only
      omega
    · next hc => rw [List.count_cons_of_ne (by simpa [Text.lineBreak] using hc)]

/-- After a line break one stands where the script begins, some lines further down. -/
theorem stepAll_lineBreak (text : List Char) :
    start.stepAll (text ++ ['\n']) = start.down (1 + text.count '\n') := by
  have hl := line_stepAll start text
  have hs : start.stepAll (text ++ ['\n']) = ⟨(start.stepAll text).line + 1, 1⟩ :=
    stepAll_append start text ['\n']
  rw [hs, hl, down]
  refine congrArg (Position.mk · 1) ?_
  omega

end Position

namespace Scanner

/-- A scanner further on in the same script. -/
structure Onward (s t : Scanner) : Prop where
  filename : t.filename = s.filename
  cursor : ∃ k, t.cursor = s.cursor.forward k

variable {s t u : Scanner}

/-- A scanner has come no further than it is. -/
theorem Onward.refl (s : Scanner) : Onward s s := ⟨rfl, 0, rfl⟩

/-- Further on from what is further on is further on. -/
theorem Onward.trans (h₁ : Onward s t) (h₂ : Onward t u) : Onward s u := by
  obtain ⟨hf₁, k₁, hc₁⟩ := h₁
  obtain ⟨hf₂, k₂, hc₂⟩ := h₂
  exact ⟨hf₂.trans hf₁, k₁ + k₂, by rw [hc₂, hc₁, Cursor.forward_forward]⟩

/-- Going on changes no character of the script. -/
theorem Onward.text_eq (h : Onward s t) : t.cursor.text = s.cursor.text := by
  obtain ⟨-, k, hk⟩ := h
  rw [hk, Cursor.text_forward]

/-- Going on does not lower the offset. -/
theorem Onward.offset_le (h : Onward s t) : s.cursor.offset ≤ t.cursor.offset := by
  obtain ⟨-, k, hk⟩ := h
  rw [hk, Cursor.offset_forward]
  exact Nat.le_add_right ..

/-- Going on leaves no more to read. -/
theorem Onward.length_le (h : Onward s t) : t.rest.length ≤ s.rest.length := by
  obtain ⟨-, k, hk⟩ := h
  rw [rest, hk, Cursor.rest_forward, List.length_drop]
  exact Nat.sub_le ..

/-- Skipping what separates tokens goes on. -/
theorem onward_skip (s : Scanner) : Onward s s.skip := ⟨rfl, _, rfl⟩

/-- Skipping blanks goes on. -/
theorem onward_skipBlanks (s : Scanner) : Onward s s.resume.skipBlanks := ⟨rfl, _, rfl⟩

/-- Passing characters goes on. -/
theorem onward_forward (k : Nat) (s : Scanner) : Onward s (s.forward k) := ⟨rfl, k, rfl⟩

/-- Ending a line goes on. -/
theorem onward_takeLineEnd (extra : Int) (s : Scanner) : Onward s (s.takeLineEnd extra).2 :=
  ⟨rfl, _, rfl⟩

/-- Closing braces moves nothing. -/
theorem onward_closeBraces (s : Scanner) : Onward s s.closeBraces := by
  rw [closeBraces_eq]
  exact ⟨rfl, 0, rfl⟩

/-- Reading a token goes on. -/
theorem TokenRead.onward {begins : Bool} {token : Token} {after : Scanner}
    (read : TokenRead begins s token after) : Onward s after := by
  refine (onward_skip s).trans ?_
  cases read with
  | finish => exact Onward.refl _
  | closeBraces =>
    have hm : Onward s.skip { s.skip.forward 2 with mode := .terminator } := ⟨rfl, _, rfl⟩
    exact hm.trans (onward_closeBraces _)
  | lineEnd | separator | openBraces | colon | sigil | word => exact ⟨rfl, _, rfl⟩

/-- Holding a token moves nothing. -/
theorem Onward.hold (h : Onward s t) (token : Token) : Onward s (t.hold token) :=
  ⟨h.filename, h.cursor⟩

/-- **A step goes on in the script.** -/
theorem Step.onward (step : Step s t) : Onward s t := by
  have hs := onward_skipBlanks s
  cases step with
  | owed | openBlock => exact ⟨rfl, 0, rfl⟩
  | noCommand | blockText | stray => exact ⟨rfl, _, rfl⟩
  | bracedList | block | openCommand | lineEnd => exact hs.trans ⟨rfl, _, rfl⟩
  | @command text => exact (hs.trans (onward_forward text.length _)).trans ⟨rfl, _, rfl⟩
  | token owed mode read =>
    have hr : Onward s s.resume := ⟨rfl, 0, rfl⟩
    exact (hr.trans read.onward).hold _
  | lineList owed mode rest read =>
    have hl : Onward s { s.resume.skipBlanks with lineLists := s.lineLists + 1 } := ⟨rfl, _, rfl⟩
    exact (hl.trans read.onward).hold _
  | terminator owed mode rest read => exact (hs.trans read.onward).hold _

/-- A look goes on. -/
theorem onward_look (s : Scanner) : Onward s s.look := by
  cases hd : s.done with
  | true => rw [look, scan_of_done hd]; exact Onward.refl s
  | false => exact (step_look hd).onward

/-- A scan goes on. -/
theorem onward_scan (begins : Bool) (s : Scanner) : Onward s (s.scan begins) := by
  cases hd : s.done with
  | true =>
    rw [scan_of_done hd]
    exact Onward.refl s
  | false =>
    rw [← look_ask hd]
    obtain ⟨hf, k, hk⟩ := onward_look (s.ask begins)
    exact ⟨hf, k, hk⟩

/-- Reading some terminals goes on. -/
theorem Reads.onward {xs : List Terminal} (hr : Reads s xs t) : Onward s t := by
  induction xs generalizing s with
  | nil => exact hr ▸ Onward.refl s
  | cons x xs ih =>
    have hx : Onward s (s.look.ask x.begins) := ⟨(onward_look s).filename, (onward_look s).cursor⟩
    exact hx.trans (ih hr.2.2)

/-- **A scanner stands where the text before it ends.** -/
theorem Onward.position_eq {source filename : String} {before after : List Char}
    (h : Onward (ofText source filename) s) (hs : source.toList = before ++ after)
    (hr : s.rest = after) : s.position = Position.start.stepAll before := by
  obtain ⟨-, k, hk⟩ := h
  have hcursor : s.cursor = (Cursor.ofText source.toList).forward k := hk
  have hrest : source.toList.drop k = after := by
    rw [← hr, Scanner.rest, hcursor, Cursor.rest_forward]
    rfl
  have htake : source.toList.take k = before := by
    have happend := List.take_append_drop k source.toList
    rw [hrest] at happend
    exact List.append_cancel_right (happend.trans hs)
  rw [Scanner.position, hcursor, Cursor.position_forward]
  exact congrArg Position.start.stepAll htake

end Scanner
end RcScript
