/-
# Reading up to the end of a script

The tokens of a script that come before its end are read in every longer script too, if
what follows breaks a word at the end (`ReadsBefore.extend`).  Then comes what the end is
read as.  A newline marker that is owed there tells of a command text that is the last
token (`ReadsBefore.marked`): in all other places nothing is owed, and only blanks are left
to read.

A terminal that is what the end of a script is read as need not be the end of input: where
a line list is open, the end stands for a line break, and a marker is read there.  So what
comes before the end is defined by the place of the terminals and not by their kinds.  A
command text that reaches the end has a marker owed behind it, which more text would move;
this is how `ReadsBefore.extend` leaves it out.

The last lemmas describe the place before the end for each mode in which a scanner may
have come to it.  In the normal mode, and after a colon or closing braces, only spaces or
blanks are left, and what is put behind a space there comes next (`rest_skip_extend`,
`rest_skipBlanks_extend`).  After a sigil and in a block the end is a fault, so no script
that fails as incomplete, or is accepted, ends there (`Poised.not_ended_command`).
-/

import RcScript.Proofs.Scanner.Extended
import RcScript.Proofs.Scanner.Offset
import RcScript.Proofs.Scanner.Orderly

namespace RcScript
namespace Scanner

variable {s t u : Scanner} {more : List Char} {xs ys : List Terminal}

/-- From one scanner the terminals are read, none of which is what the end of the script is
read as, and the other one stands after them. -/
def ReadsBefore : Scanner → List Terminal → Scanner → Prop
  | s, [], t => t = s
  | s, x :: xs, t =>
    ¬s.look.Ended ∧ s.look.token.Is x ∧ s.look.fault = none ∧ ReadsBefore (s.look.ask x.begins) xs t

/-- What is read before the end is read. -/
theorem ReadsBefore.reads (h : ReadsBefore s xs t) : Reads s xs t := by
  induction xs generalizing s with
  | nil => exact h
  | cons x xs ih => exact ⟨h.2.1, h.2.2.1, ih h.2.2.2⟩

/-- Of what is read to the end of the script a front part is read before it. -/
theorem Reads.exists_readsBefore (h : Reads s xs t) (hf : t.look.fault = none)
    (ht : t.look.Ended) :
    ∃ ys u, ys <+: xs ∧ ReadsBefore s ys u ∧ u.look.Ended ∧ u.look.fault = none := by
  induction xs generalizing s with
  | nil =>
    obtain rfl : t = s := h
    exact ⟨[], t, List.nil_prefix, rfl, ht, hf⟩
  | cons x xs ih =>
    by_cases he : s.look.Ended
    · exact ⟨[], s, List.nil_prefix, rfl, he, h.2.1⟩
    · obtain ⟨ys, u, hp, hu, hu'⟩ := ih h.2.2
      exact ⟨x :: ys, u, (List.prefix_cons_inj x).2 hp, ⟨he, h.1, h.2.1, hu⟩, hu'⟩

/-- A token of the script's own is not the end of input. -/
theorem kind_of_not_ended (hd : s.done = false) (hf : s.look.fault = none)
    (he : ¬s.look.Ended) : s.look.token.kind ≠ .endOfInput := by
  rcases extends_look hd hf [] with ⟨-, hk⟩ | ended | ⟨-, hk, -⟩ | ⟨-, hk, -⟩
  · exact hk
  · exact absurd ended he
  · rw [hk]
    nofun
  · rw [hk]
    nofun

/-- Where a token before the end is read without a fault, the scanner goes on. -/
theorem live_of_not_ended (hd : s.done = false) (hf : s.look.fault = none)
    (he : ¬s.look.Ended) : s.look.done = false := by
  rw [← Bool.not_eq_true, done_look_iff hd]
  exact kind_of_not_ended hd hf he

/-- After a token that reaches the end nothing is read before it. -/
theorem ReadsBefore.eq_nil_of_spent {begins : Bool} (h : ReadsBefore (s.look.ask begins) xs t)
    (hd : s.look.done = false) (spent : s.look.Spent) : xs = [] := by
  cases xs with
  | nil => rfl
  | cons x xs =>
    have hspent : (s.look.ask begins).Spent := ⟨spent.rest, spent.marker⟩
    exact absurd (hspent.step (step_look hd) h.2.2.1) h.1

/-- Where something is left is not the end. -/
theorem position_ne_endPosition (h : s.rest ≠ []) : s.position ≠ s.endPosition := by
  obtain ⟨c, cs, hr⟩ := List.exists_cons_of_ne_nil h
  rw [endPosition, hr]
  exact Position.ne_of_lt
    (Position.lt_of_lt_of_le (Position.lt_step _ c) (Position.le_stepAll _ cs))

/-- A scanner that owes markers has them before the end of its script, or its last token is
a command text at the end. -/
def Marked (s : Scanner) : Prop :=
  s.owed ≠ 0 → s.marker ≠ s.endPosition ∨
    s.Spent ∧ s.token.kind = .command ∧ s.beginsStatement = false

/-- A line that ends before the end of the script has its markers there. -/
theorem marker_takeLineEnd (h : s.rest ≠ []) (extra : Int) :
    (s.takeLineEnd extra).2.marker ≠ (s.takeLineEnd extra).2.endPosition := by
  have honward := onward_takeLineEnd extra s
  rw [honward.endPosition]
  exact position_ne_endPosition h

/-- A line break of the script's own is not its end. -/
theorem not_ended_takeLineEnd (h : s.rest ≠ []) (extra : Int) :
    ¬((s.takeLineEnd extra).2.hold (Token.newlineAt s.position)).Ended := by
  intro he
  refine marker_takeLineEnd h extra (Eq.trans ?_ he.spent.endPosition.symm)
  rcases he.token with ht | ht
  · cases ht
  · exact congrArg Token.position ht

/-- What is read as the end has nothing before it to read. -/
theorem TokenRead.rest_of_ended {begins : Bool} {token : Token} {after : Scanner}
    (read : TokenRead begins s token after) (he : (after.hold token).Ended) :
    s.skip.rest = [] := by
  cases read with
  | finish rest => exact rest
  | lineEnd rest =>
    by_contra hr
    exact not_ended_takeLineEnd hr 0 he
  | separator | openBraces | closeBraces | colon | sigil | word =>
    rcases he.token with ht | ht <;> simp [Token.endAt, Token.newlineAt] at ht

/-- A token before the end has its markers before the end. -/
theorem TokenRead.marked {begins : Bool} {token : Token} {after : Scanner}
    (read : TokenRead begins s token after) (ho : s.owed = 0)
    (he : ¬(after.hold token).Ended) : (after.hold token).Marked := by
  have hskip : s.skip.rest ≠ [] := by
    rcases read.extends ho [] with ⟨hr, -⟩ | ended | ⟨-, -, -, c, cs, hr, -⟩
    · exact hr
    · exact absurd ended he
    · exact hr ▸ List.cons_ne_nil c cs
  intro hne
  cases read with
  | lineEnd => exact .inl (marker_takeLineEnd hskip 0)
  | closeBraces =>
    rw [closeBraces_eq] at hne
    exact absurd ho hne
  | _ => exact absurd ho hne

/-- **Steps before the end of the script keep the markers before it**, but for those of a
command text that is the last token. -/
theorem Step.marked (step : Step s t) (hs : s.Marked) (hf : t.fault = none) (he : ¬t.Ended) :
    t.Marked := by
  intro hne
  cases step with
  | owed owed =>
    rcases hs owed with hm | ⟨spent, -⟩
    · exact .inl hm
    · exact absurd (spent.step (.owed owed) hf) he
  | token owed mode read => exact read.marked (s := s.resume) owed he hne
  | lineList owed mode rest read => exact read.marked owed he hne
  | terminator owed mode rest read => exact read.marked (s := s.resume.skipBlanks) owed he hne
  | @command text owed mode rest opens space found =>
    by_cases hafter : (s.resume.skipBlanks.forward text.length).rest = []
    · have hspent := spent_endLine hafter 1
      exact .inr ⟨⟨hspent.rest, hspent.marker⟩, rfl, rfl⟩
    · exact .inl (marker_takeLineEnd hafter 1)
  | lineEnd owed mode rest =>
    exact .inl (marker_takeLineEnd (fun hr => he (ended_takeLineEnd hr 1)) 1)
  | bracedList owed | block owed | blockText owed => exact absurd owed hne
  | noCommand | openCommand | openBlock | stray => cases hf

/-- To ask as a terminal is asked for does not change where the markers are. -/
theorem Marked.ask (h : s.Marked) {x : Terminal} (hx : s.token.Is x)
    (hb : x.begins = true → x.kind = .word) : (s.ask x.begins).Marked := by
  intro hne
  rcases h hne with hm | ⟨spent, hk, hbegins⟩
  · exact .inl hm
  · have hfalse : x.begins = false := by
      rw [← Bool.not_eq_true]
      intro hbegins
      have hword := hx.1.trans (hb hbegins)
      rw [hk] at hword
      cases hword
    rw [hfalse, ask_false]
    exact .inr ⟨spent, hk, hbegins⟩

/-- **Where the end of a script is next, a marker is owed only for a command text** that
reaches the end. -/
theorem ReadsBefore.marked (h : ReadsBefore s xs u)
    (hb : ∀ x ∈ xs, x.begins = true → x.kind = .word) (hd : s.done = false) (hs : s.Marked) :
    u.Marked ∧ u.done = false := by
  induction xs generalizing s with
  | nil =>
    obtain rfl : u = s := h
    exact ⟨hs, hd⟩
  | cons x xs ih =>
    obtain ⟨he, hx, hf, h⟩ := h
    obtain ⟨hbx, hb⟩ := List.forall_mem_cons.1 hb
    exact ih h hb (live_of_not_ended hd hf he) (((step_look hd).marked hs hf he).ask hx hbx)

/-- Where the end is read and a marker is owed, nothing is left to read and the last token is a
command text. -/
theorem Marked.of_ended (h : s.Marked) (hd : s.done = false) (he : s.look.Ended) (ho : s.owed ≠ 0) :
    s.rest = [] ∧ s.token.kind = .command ∧ s.beginsStatement = false := by
  rcases h ho with hm | ⟨spent, hk, hb⟩
  · have hlook := (step_look hd).eq_of_owed ho
    have hrest : s.rest = [] := by
      have hspent := he.spent.rest
      rwa [hlook] at hspent
    have hposition : s.endPosition = s.position := by
      rw [endPosition, hrest]
      rfl
    refine absurd ?_ hm
    have htoken := he.token
    rw [hlook] at htoken
    rcases htoken with ht | ht
    · cases ht
    · exact (congrArg Token.position ht).trans hposition.symm
  · exact ⟨spent.rest, hk, hb⟩

/-- **What is read before the end of a script is read whatever follows**, if that breaks a
word and no command text reaches the end. -/
theorem ReadsBefore.extend (h : ReadsBefore s xs u) (hd : s.done = false)
    (hm : Lexeme.Breaks more) (ho : u.owed = 0) :
    Reads (s.extend more) xs (u.extend more) := by
  induction xs generalizing s with
  | nil =>
    obtain rfl : u = s := h
    rfl
  | cons x xs ih =>
    obtain ⟨he, hx, hf, h⟩ := h
    have hlive := live_of_not_ended hd hf he
    rcases extends_look hd hf more with ⟨step, -⟩ | ended | ⟨-, -, hbreaks, -⟩ | ⟨spent, hc, hmode⟩
    · have hlook := Extends.look_eq hd step
      refine ⟨?_, ?_, ?_⟩
      · rw [hlook]
        exact hx
      · rw [hlook]
        exact hf
      · rw [hlook]
        exact ih h hlive
    · exact absurd ended he
    · exact absurd hm hbreaks
    · -- the text of the command would be the last token, and a marker owed after it
      obtain rfl := h.eq_nil_of_spent hlive spent
      obtain rfl : u = s.look.ask x.begins := h
      refine absurd ho ?_
      by_cases hs : s.owed = 0
      · have hk := kind_of_not_ended hd hf he
        rcases (step_look hd).command_of_sigil hs hmode with ⟨hk', -⟩ | ⟨-, -, ho', -⟩ | ⟨hk', -⟩
        · exact absurd (hc.symm.trans hk') nofun
        · exact ho'
        · exact absurd hk' hk
      · rw [(step_look hd).eq_of_owed hs] at hc
        cases hc

section
variable {lists : Nat} {saved : List Nat}

/-- Only spaces are left before the end. -/
theorem Poised.rest_of_ended (h : Poised .normal 0 lists saved s) (he : s.look.Ended) :
    s.skip.rest = [] := by
  rcases h.look_cases with ⟨ho, -⟩ | ⟨-, token, after, read, hl⟩
  · exact absurd rfl ho
  · exact read.rest_of_ended (s := s.resume) (hl ▸ he)

/-- Where a colon stands before the end, only blanks are between them. -/
theorem Poised.rest_of_ended_colon (h : Poised .colon 0 lists saved s) (he : s.look.Ended) :
    s.resume.skipBlanks.rest = [] := by
  have hm := h.mode
  generalize hs : s.look = t at he
  have step := hs ▸ step_look h.live
  cases step with
  | owed owed => exact absurd h.owed owed
  | bracedList => rcases he.token with ht | ht <;> cases ht
  | lineList owed mode rest read => exact (rest_skip_openLine s).symm.trans (read.rest_of_ended he)
  | _ _ mode => cases hm.symm.trans mode

/-- Where closing braces stand before the end, only blanks are between them. -/
theorem Poised.rest_of_ended_terminator (h : Poised .terminator 0 lists saved s)
    (he : s.look.Ended) (hf : s.look.fault = none) : s.resume.skipBlanks.rest = [] := by
  have hm := h.mode
  generalize hs : s.look = t at he hf
  have step := hs ▸ step_look h.live
  cases step with
  | owed owed => exact absurd h.owed owed
  | terminator owed mode rest read =>
    have hskip := rest_skip rest (by decide)
    exact absurd (hskip.symm.trans (read.rest_of_ended he)) (List.cons_ne_nil _ _)
  | lineEnd owed mode rest =>
    by_contra hr
    exact not_ended_takeLineEnd hr 1 he
  | stray => cases hf
  | _ _ mode => cases hm.symm.trans mode

/-- After a sigil, or in a block, the end of the script is a fault. -/
theorem Poised.not_ended_command {mode : Mode} (h : Poised mode 0 lists saved s)
    (hmode : mode = .sigil ∨ mode = .block) (hf : s.look.fault = none) : ¬s.look.Ended := by
  intro he
  have hkind : s.look.token.kind = .endOfInput ∨ s.look.token.kind = .semicolon :=
    he.token.imp (congrArg Token.kind) (congrArg Token.kind)
  have step := step_look h.live
  rcases hmode with rfl | rfl
  · rcases step.command_of_sigil h.owed h.mode with ⟨hk, -⟩ | ⟨hk, -⟩ | ⟨-, hfault⟩
    · simp [hk] at hkind
    · simp [hk] at hkind
    · exact hfault hf
  · rcases step.command_of_block h.owed h.mode with ⟨hk, -⟩ | ⟨-, hfault⟩
    · simp [hk] at hkind
    · exact hfault hf

end

/-- What is written after the end of a script is read there, after a space. -/
theorem rest_skipWhile_extend {p : Char → Bool} {c : Char} {cs : List Char}
    (h : (s.skipWhile p).rest = []) (hp : p ' ' = true) (hc : p c = false) :
    ((s.extend (' ' :: c :: cs)).skipWhile p).rest = c :: cs := by
  rw [rest_skipWhile] at h
  rw [rest_skipWhile, rest_extend, List.dropWhile_append, h]
  simp [hp, hc]

/-- After spaces and the end of a script, what is written there comes next. -/
theorem rest_skip_extend (c : Char) (cs : List Char) (h : s.skip.rest = [])
    (hc : Text.isSpace c = false) : (s.extend (' ' :: c :: cs)).skip.rest = c :: cs := by
  refine rest_skipWhile_extend h ?_ ?_
  · split <;> decide
  · split
    · exact hc
    · exact Text.isBlank_of_isSpace hc

/-- After blanks and the end of a script, what is written there comes next. -/
theorem rest_skipBlanks_extend (c : Char) (cs : List Char)
    (h : s.resume.skipBlanks.rest = []) (hc : Text.isSpace c = false) :
    (s.extend (' ' :: c :: cs)).resume.skipBlanks.rest = c :: cs :=
  rest_skipWhile_extend (s := s.resume) h (by decide) (Text.isBlank_of_isSpace hc)

/-- More text after a script changes none of what a scanner is poised with. -/
theorem Poised.extend {mode : Mode} {owed : Int} {lists : Nat} {saved : List Nat}
    (h : Poised mode owed lists saved s) (more : List Char) :
    Poised mode owed lists saved (s.extend more) :=
  ⟨h.mode, h.owed, h.lists, h.saved, h.live, h.sound⟩

end Scanner
end RcScript
