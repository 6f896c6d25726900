/-
# Counting carriage returns

A command on a line loses the carriage returns at its end.  If its text then ends
in a backslash that takes nothing along, the backslash had taken one of them: such
a text costs a carriage return more than it shows (`returns`).  Scanning never
makes one up: the tokens that are read from a script have cost no more of them
than the script has (`Scanner.Reads.sum_returns_le`).

Each terminal is charged with the carriage returns in its text, and a command text with
one more if the character that its last backslash takes along is missing from it: only a
carriage return that was trimmed can be missing there.  A source pays for its terminals
with the carriage returns that are left to read, so the charge of what was read is bounded
by the ones in the source, whatever stood between the terminals.

The charge of a statement and that of its terminals are compared in
`RcScript.Proofs.RoundTrip.Returns`.  Here it is only seen that a step takes as many
carriage returns from what is left as its token costs, or more: those among blanks, and
those behind a command that are no part of its text, are paid for nothing.
-/

import RcScript.Proofs.Scanner.Written
import Mathlib.Algebra.GroupWithZero.Nat

namespace RcScript

/-- Whether a text that only a line can hold ends in a backslash that would take
the line break along. -/
def takesBreak (text : String) : Bool := !fitsBlock text && Lexeme.dangles text.toList

/-- How many carriage returns a token has cost at least. -/
def returns (kind : TokenKind) (text : String) : Nat :=
  text.toList.count '\r' + if kind = .command ∧ takesBreak text = true then 1 else 0

namespace Lexeme

variable {cs text : List Char}

/-- A command text that loses what its last backslash had taken along has lost a
carriage return. -/
theorem returns_trimReturns_le (h : commandText cs = some text) :
    returns .command (String.ofList (trimReturns text)) ≤ text.count '\r' := by
  obtain ⟨-, hd, -⟩ := of_commandText h
  obtain ⟨n, hn⟩ := exists_append_trimReturns text
  have hcount : text.count '\r' = (trimReturns text).count '\r' + n := by
    conv_lhs => rw [hn, List.count_append, List.count_replicate_self]
  rw [returns, String.toList_ofList, hcount]
  refine Nat.add_le_add_left ?_ _
  split
  · next ht =>
    refine Nat.pos_of_ne_zero fun h₀ => ?_
    rw [h₀, List.replicate_zero, List.append_nil] at hn
    rw [takesBreak, String.toList_ofList, ← hn, hd, Bool.and_false] at ht
    exact absurd ht.2 Bool.false_ne_true
  · exact Nat.zero_le n

end Lexeme

/-- The end of input costs nothing. -/
theorem returns_endOfInput : returns .endOfInput "" = 0 := by decide

namespace Terminal

/-- The carriage returns that a terminal has cost. -/
def returns (x : Terminal) : Nat := RcScript.returns x.kind x.text

/-- The carriage returns that some terminals have cost. -/
def sumReturns (xs : List Terminal) : Nat := (xs.map returns).sum

/-- Nothing has cost nothing. -/
theorem sumReturns_nil : sumReturns [] = 0 := rfl

/-- A terminal adds what it has cost. -/
theorem sumReturns_cons (x : Terminal) (xs : List Terminal) :
    sumReturns (x :: xs) = x.returns + sumReturns xs := by
  rw [sumReturns, List.map_cons, List.sum_cons, sumReturns]

/-- A newline marker costs nothing. -/
theorem returns_newline : newline.returns = 0 := by decide

/-- A semicolon costs nothing. -/
theorem returns_separator : separator.returns = 0 := by decide

/-- A colon costs nothing. -/
theorem returns_colon : colon.returns = 0 := by decide

/-- Opening braces cost nothing. -/
theorem returns_openBraces : openBraces.returns = 0 := by decide

/-- Closing braces cost nothing. -/
theorem returns_closeBraces : closeBraces.returns = 0 := by decide

/-- A sigil costs nothing. -/
theorem returns_sigil (g : Sigil) : (sigil g).returns = 0 := by
  cases g <;> decide

/-- Terminals after others add what they have cost. -/
theorem sumReturns_append (xs ys : List Terminal) :
    sumReturns (xs ++ ys) = sumReturns xs + sumReturns ys := by
  rw [sumReturns, List.map_append, List.sum_append, sumReturns, sumReturns]

/-- A word costs the carriage returns that it has. -/
theorem returns_word (text : String) : (word text).returns = text.toList.count '\r' := by
  rw [returns, RcScript.returns, if_neg (by simp [word]), Nat.add_zero]
  rfl

/-- A keyword, or the name of a call, costs the carriage returns that it has. -/
theorem returns_head (text : String) : (head text).returns = text.toList.count '\r' :=
  returns_word text

/-- A command costs what its text does. -/
theorem returns_command (text : String) :
    (command text).returns = RcScript.returns .command text := rfl

/-- What ends a statement costs nothing. -/
theorem IsEnd.returns_eq {x : Terminal} (h : x.IsEnd) : x.returns = 0 := by
  obtain rfl | rfl := h
  · exact returns_separator
  · exact returns_newline

/-- Words cost the carriage returns that they have. -/
theorem sumReturns_words (args : List String) :
    sumReturns (args.map word) = (args.map fun arg => arg.toList.count '\r').sum := by
  rw [sumReturns, List.map_map]
  exact congrArg List.sum (List.map_congr_left fun arg _ => returns_word arg)

/-- Semicolons cost nothing. -/
theorem sumReturns_separators {seps : List Terminal} (h : ∀ x ∈ seps, x.IsSeparator) :
    sumReturns seps = 0 := by
  induction seps with
  | nil => rfl
  | cons x seps ih =>
    obtain ⟨hx, hs⟩ := List.forall_mem_cons.1 h
    rw [sumReturns_cons, ih hs, IsEnd.returns_eq (.inl hx)]

end Terminal

namespace Scanner

variable {s t : Scanner}

/-- Passing characters leaves no more of any. -/
theorem count_forward_le (n : Nat) (s : Scanner) (c : Char) :
    (s.forward n).rest.count c ≤ s.rest.count c := by
  rw [rest_forward]
  exact (List.drop_sublist _ _).count_le c

/-- Skipping leaves no more of any character. -/
theorem count_skipWhile_le (p : Char → Bool) (s : Scanner) (c : Char) :
    (s.skipWhile p).rest.count c ≤ s.rest.count c := by
  rw [rest_skipWhile]
  exact (List.dropWhile_sublist p).count_le c

/-- Ending a line leaves no more of any character. -/
theorem count_endLine_le (extra : Int) (s : Scanner) (c : Char) :
    (s.endLine extra).rest.count c ≤ s.rest.count c := by
  rw [rest_endLine]
  exact (List.drop_sublist _ _).count_le c

/-- A run of characters and what is left after it are what was there. -/
theorem count_forward_of_append {text : List Char} (h : text ++ s.rest.drop text.length = s.rest)
    (c : Char) : text.count c + (s.forward text.length).rest.count c = s.rest.count c := by
  rw [rest_forward, ← List.count_append, h]

/-- **Reading a token makes no carriage return up.** -/
theorem TokenRead.returns_le {begins : Bool} {token : Token} {after : Scanner}
    (h : TokenRead begins s token after) :
    returns token.kind token.text + after.rest.count '\r' ≤ s.rest.count '\r' := by
  have hskip : s.skip.rest.count '\r' ≤ s.rest.count '\r' := count_skipWhile_le _ s '\r'
  refine Nat.le_trans ?_ hskip
  have free : ∀ {u : Scanner}, returns token.kind token.text = 0 →
      u.rest.count '\r' ≤ s.skip.rest.count '\r' →
      returns token.kind token.text + u.rest.count '\r' ≤ s.skip.rest.count '\r' := by
    intro u hz hu
    rwa [hz, Nat.zero_add]
  cases h with
  | finish => exact free returns_endOfInput (Nat.le_refl _)
  | lineEnd => exact free Terminal.returns_newline (count_endLine_le 0 s.skip '\r')
  | separator => exact free Terminal.returns_separator (count_forward_le 1 s.skip '\r')
  | openBraces => exact free Terminal.returns_openBraces (count_forward_le 2 s.skip '\r')
  | closeBraces =>
    refine free Terminal.returns_closeBraces ?_
    rw [rest_closeBraces]
    exact count_forward_le 2 s.skip '\r'
  | colon => exact free Terminal.returns_colon (count_forward_le 1 s.skip '\r')
  | sigil => exact free (Terminal.returns_sigil _) (count_forward_le 1 s.skip '\r')
  | word =>
    rw [returns, if_neg (by simp), Nat.add_zero, String.toList_ofList]
    exact Nat.le_of_eq (count_forward_of_append (Lexeme.word_append_drop _) '\r')

/-- **A look makes no carriage return up.** -/
theorem Step.returns_le (h : Step s t) :
    returns t.token.kind t.token.text + t.rest.count '\r' ≤ s.rest.count '\r' := by
  have free : ∀ {u : Scanner}, returns t.token.kind t.token.text = 0 →
      u.rest.count '\r' ≤ s.rest.count '\r' →
      returns t.token.kind t.token.text + u.rest.count '\r' ≤ s.rest.count '\r' := by
    intro u hz hu
    rwa [hz, Nat.zero_add]
  have hb : s.resume.skipBlanks.rest.count '\r' ≤ s.rest.count '\r' :=
    count_skipWhile_le _ s.resume '\r'
  cases h with
  | owed => exact free Terminal.returns_newline (Nat.le_refl _)
  | token owed mode read => exact read.returns_le
  | bracedList | block =>
    have hforward := count_forward_le 2 s.resume.skipBlanks '\r'
    exact free Terminal.returns_openBraces (Nat.le_trans hforward hb)
  | lineList owed mode rest read => exact Nat.le_trans read.returns_le hb
  | noCommand => exact free returns_endOfInput hb
  | openCommand => exact free returns_endOfInput (Nat.le_trans (count_forward_le _ _ '\r') hb)
  | @command text owed mode rest opens space found =>
    refine Nat.le_trans ?_ hb
    rw [← count_forward_of_append (Lexeme.commandText_append_drop found) '\r']
    exact Nat.add_le_add (Lexeme.returns_trimReturns_le found) (count_endLine_le 1 _ '\r')
  | openBlock => exact free returns_endOfInput (Nat.le_refl _)
  | @blockText text owed mode found =>
    have hfits : takesBreak (String.ofList text) = false := by
      rw [takesBreak, Lexeme.fitsBlock_blockText found]
      rfl
    refine Nat.le_of_eq (Eq.trans ?_
      (count_forward_of_append (Lexeme.blockText_append_drop found) '\r'))
    change returns .command (String.ofList text) + _ = _
    rw [returns, if_neg (by simp [hfits]), Nat.add_zero, String.toList_ofList]
    rfl
  | terminator owed mode rest read => exact Nat.le_trans read.returns_le hb
  | lineEnd =>
    have hend := count_endLine_le 1 s.resume.skipBlanks '\r'
    exact free Terminal.returns_newline (Nat.le_trans hend hb)
  | stray => exact free returns_endOfInput hb

/-- **Reading some terminals makes no carriage return up.** -/
theorem Reads.sum_returns_le {xs : List Terminal} (h : Reads s xs t) (hs : s.Valid)
    (hd : s.done = false) (hx : ∀ x ∈ xs, x.kind ≠ .endOfInput) :
    Terminal.sumReturns xs ≤ s.rest.count '\r' := by
  induction xs generalizing s with
  | nil => exact Nat.zero_le _
  | cons x xs ih =>
    obtain ⟨⟨hk, ht⟩, -, h⟩ := h
    obtain ⟨hx₁, hx₂⟩ := List.forall_mem_cons.1 hx
    have hstep := (step_look hd).returns_le
    have hrest := ih h (hs.look.ask x.begins) (hs.look.not_done (hk ▸ hx₁)) hx₂
    rw [hk, ht] at hstep
    rw [Terminal.sumReturns_cons]
    exact Nat.le_trans (Nat.add_le_add_left hrest _) hstep

end Scanner

end RcScript
