/-
# Where a token leaves a scanner

What a scanner does next depends on its mode, the markers it owes, the line lists
that are open and those that its braces have saved (`Poised`).  For each mode and
each kind of token that can come in it, this module says how the token changes
these four: the whole of what the grammar needs to know of a scanner.

The grammar of the tokens is one of kinds and cannot say what a line break closes.  This is
kept by the scanner: a line break turns the line lists that are open into markers, one of
which is paid at once, and braces put the line lists around them aside until they are
closed.  A statement about a derivation therefore speaks of a scanner that is poised with
some line lists before it and is poised with the same ones after it.

With `n` line lists open and `saved` those that braces have put aside, and no marker owed:

| read in the mode | what is read | mode behind it | owed | open | saved |
| --- | --- | --- | --- | --- | --- |
| normal | a word, or a semicolon | normal | 0 | `n` | the same |
| normal | a colon, or a sigil | colon, or sigil | 0 | `n` | the same |
| normal | a line break, where `n` is not 0 | normal | `n - 1` | 0 | the same |
| normal | closing braces | terminator | 0 | the last saved | the others |
| colon | opening braces | normal | 0 | 0 | `n` and the same |
| colon | anything else | as behind it | as behind it | one more | the same |
| sigil | opening braces | block | 0 | `n` | `n` and the same |
| sigil | a command on a line | normal | `n + 1` | 0 | the same |
| block | a text | normal | 0 | `n` | the same |
| terminator | a semicolon | normal | 0 | `n` | the same |
| terminator | a line break | normal | `n` | 0 | the same |

Where a marker is owed it is read before anything else, and one less is owed behind it.
-/

import RcScript.Proofs.Scanner.Progress
import Mathlib.Data.List.DropRight

namespace RcScript

/-- What is no space is no blank. -/
theorem Text.isBlank_of_isSpace {c : Char} (hc : isSpace c = false) : isBlank c = false := by
  rw [← Bool.not_eq_true] at hc ⊢
  exact fun hb => hc ((isSpace_iff c).2 (.inl hb))

namespace Scanner

/-- A scanner that can go on: its mode, the markers it owes, the line lists that
are open, and those that are saved. -/
structure Poised (mode : Mode) (owed : Int) (lists : Nat) (saved : List Nat) (s : Scanner) :
    Prop where
  mode : s.mode = mode
  owed : s.owed = owed
  lists : s.lineLists = lists
  saved : s.saved = saved
  live : s.done = false
  sound : s.fault = none

variable {s t : Scanner} {mode : Mode} {owed : Int} {lists : Nat} {saved : List Nat}

/-- The token that is held is the look-ahead. -/
@[simp] theorem token_hold (token : Token) (s : Scanner) : (s.hold token).token = token := rfl

/-- At the beginning of a script nothing is owed, open or saved. -/
theorem poised_ofText (source filename : String) :
    Poised .normal 0 0 [] (ofText source filename) := ⟨rfl, rfl, rfl, rfl, rfl, rfl⟩

section
variable (h : Poised mode owed lists saved s)
include h

/-- A request changes none of the four. -/
theorem Poised.ask (begins : Bool) : Poised mode owed lists saved (s.ask begins) :=
  ⟨h.mode, h.owed, h.lists, h.saved, h.live, h.sound⟩

/-- Skipping blanks changes none of the four. -/
theorem Poised.skipBlanks : Poised mode owed lists saved s.skipBlanks :=
  ⟨h.mode, h.owed, h.lists, h.saved, h.live, h.sound⟩

/-- Skipping what separates tokens changes none of the four. -/
theorem Poised.skip : Poised mode owed lists saved s.skip :=
  ⟨h.mode, h.owed, h.lists, h.saved, h.live, h.sound⟩

/-- Passing characters changes none of the four. -/
theorem Poised.forward (n : Nat) : Poised mode owed lists saved (s.forward n) :=
  ⟨h.mode, h.owed, h.lists, h.saved, h.live, h.sound⟩

/-- To resume is to be in the normal mode. -/
theorem Poised.resume : Poised .normal owed lists saved s.resume :=
  ⟨rfl, h.owed, h.lists, h.saved, h.live, h.sound⟩

/-- Holding a token other than the end of input changes none of the four. -/
theorem Poised.hold {token : Token} (hk : token.kind ≠ .endOfInput) :
    Poised mode owed lists saved (s.hold token) :=
  ⟨h.mode, h.owed, h.lists, h.saved, decide_eq_false hk, h.sound⟩

/-- The mode can be changed alone. -/
theorem Poised.setMode (next : Mode) : Poised next owed lists saved { s with mode := next } :=
  ⟨rfl, h.owed, h.lists, h.saved, h.live, h.sound⟩

/-- The end of a line turns the open line lists into markers, and pays one. -/
theorem Poised.takeLineEnd {extra owed' : Int} (ho : owed + extra + lists - 1 = owed') :
    Poised mode owed' 0 saved (s.takeLineEnd extra).2 := by
  refine ⟨h.mode, Eq.trans ?_ ho, rfl, h.saved, h.live, h.sound⟩
  simp only [Scanner.takeLineEnd, newlineMarker, endLine, h.owed, h.lists]

end

/-- Out of braces the line lists outside are open again. -/
theorem Poised.closeBraces {outside : Nat} (h : Poised mode owed lists (outside :: saved) s) :
    Poised mode owed outside saved s.closeBraces := by
  rw [closeBraces_eq]
  exact ⟨h.mode, h.owed, congrArg (List.headD · s.lineLists) h.saved, congrArg List.tail h.saved,
    h.live, h.sound⟩

section normal
variable (h : Poised .normal owed lists saved s)
include h

/-- In the normal mode a marker that is owed is paid; otherwise a token is read. -/
theorem Poised.look_cases :
    (owed ≠ 0 ∧ s.look.token = Token.newlineAt s.marker ∧
        Poised .normal (owed - 1) lists saved s.look) ∨
      (owed = 0 ∧ ∃ token after, TokenRead s.beginsStatement s.resume token after ∧
        s.look = after.hold token) := by
  by_cases ho : owed = 0
  · refine .inr ⟨ho, _, _, tokenRead_readToken _ _, ?_⟩
    exact (Step.token (h.owed.trans ho) h.mode (tokenRead_readToken _ _)).eq_look h.live
  · rw [(Step.owed (h.owed ▸ ho)).eq_look h.live]
    exact .inl ⟨ho, rfl, h.mode, congrArg (· - 1) h.owed, h.lists, h.saved, rfl, h.sound⟩

/-- In the normal mode any character can be read. -/
theorem Poised.fault_look : s.look.fault = none := by
  rcases h.look_cases with ⟨-, -, hs⟩ | ⟨-, token, after, read, hl⟩
  · exact hs.sound
  · rw [hl]
    cases read with
    | closeBraces =>
      rw [closeBraces_eq]
      exact h.sound
    | _ => exact h.sound

/-- After a word any token may come. -/
theorem Poised.look_word (hk : s.look.token.kind = .word) :
    owed = 0 ∧ Poised .normal 0 lists saved s.look := by
  rcases h.look_cases with ⟨-, hn, -⟩ | ⟨rfl, token, after, read, hl⟩
  · rw [hn] at hk
    cases hk
  · rw [hl] at hk ⊢
    cases read with
    | word => exact ⟨rfl, (h.resume.skip.forward _).hold nofun⟩
    | _ => cases hk

/-- After a colon a list is begun. -/
theorem Poised.look_colon (hk : s.look.token.kind = .colon) :
    owed = 0 ∧ Poised .colon 0 lists saved s.look := by
  rcases h.look_cases with ⟨-, hn, -⟩ | ⟨rfl, token, after, read, hl⟩
  · rw [hn] at hk
    cases hk
  · rw [hl] at hk ⊢
    cases read with
    | colon => exact ⟨rfl, rfl, h.owed, h.lists, h.saved, rfl, h.sound⟩
    | _ => cases hk

/-- After a sigil a command is begun. -/
theorem Poised.look_sigil (hk : s.look.token.kind = .sigil) :
    owed = 0 ∧ Poised .sigil 0 lists saved s.look := by
  rcases h.look_cases with ⟨-, hn, -⟩ | ⟨rfl, token, after, read, hl⟩
  · rw [hn] at hk
    cases hk
  · rw [hl] at hk ⊢
    cases read with
    | sigil => exact ⟨rfl, rfl, h.owed, h.lists, h.saved, rfl, h.sound⟩
    | _ => cases hk

/-- After closing braces the line lists around them are open again, and a terminator is awaited.
-/
theorem Poised.look_closeBraces (hk : s.look.token.kind = .closeBraces) :
    owed = 0 ∧ Poised .terminator 0 (saved.headD lists) saved.tail s.look := by
  rcases h.look_cases with ⟨-, hn, -⟩ | ⟨rfl, token, after, read, hl⟩
  · rw [hn] at hk
    cases hk
  · rw [hl] at hk ⊢
    cases read with
    | closeBraces =>
      rw [closeBraces_eq, ← h.saved, ← h.lists]
      exact ⟨rfl, rfl, h.owed, rfl, rfl, rfl, h.sound⟩
    | _ => cases hk

/-- After a semicolon of the script any token may come. -/
theorem Poised.look_separator (hk : s.look.token.kind = .semicolon)
    (ht : s.look.token.text = ";") : owed = 0 ∧ Poised .normal 0 lists saved s.look := by
  rcases h.look_cases with ⟨-, hn, -⟩ | ⟨rfl, token, after, read, hl⟩
  · rw [hn] at ht
    exact absurd ht (by simp [Token.newlineAt])
  · rw [hl] at hk ht ⊢
    cases read with
    | separator => exact ⟨rfl, rfl, h.owed, h.lists, h.saved, rfl, h.sound⟩
    | lineEnd => exact absurd ht (by simp [Token.newlineAt])
    | _ => cases hk

/-- **A newline marker is owed, or it closes the innermost line list** and leaves
the others to be paid for. -/
theorem Poised.look_newline (hk : s.look.token.kind = .semicolon)
    (ht : s.look.token.text = "\n") :
    (owed ≠ 0 ∧ Poised .normal (owed - 1) lists saved s.look) ∨
      (owed = 0 ∧ lists ≠ 0 ∧ Poised .normal (lists - 1) 0 saved s.look) := by
  rcases h.look_cases with ⟨ho, hn, hs⟩ | ⟨rfl, token, after, read, hl⟩
  · exact .inl ⟨ho, hs⟩
  · rw [hl] at hk ht ⊢
    cases read with
    | separator => exact absurd ht (by simp)
    | lineEnd rest lists_open =>
      exact .inr ⟨rfl, h.lists ▸ lists_open, (h.resume.skip.takeLineEnd (by omega)).hold nofun⟩
    | _ => cases hk

end normal

/-- What does not begin with a space is not skipped. -/
theorem rest_skip {c : Char} {cs : List Char} (hr : s.rest = c :: cs)
    (hc : Text.isSpace c = false) : s.skip.rest = c :: cs := by
  have hb := Text.isBlank_of_isSpace hc
  rw [skip, rest_skipWhile, hr]
  split <;> simp [hc, hb]

/-- A scanner after a colon as it would stand before the first statement of a
line list. -/
def openLine (s : Scanner) : Scanner :=
  { s.resume.skipBlanks with lineLists := s.lineLists + 1, beginsStatement := true }

/-- After a colon only blanks are skipped. -/
theorem rest_skip_openLine (s : Scanner) : s.openLine.skip.rest = s.resume.skipBlanks.rest := by
  have hl : s.openLine.lineLists ≠ 0 := Nat.succ_ne_zero s.lineLists
  rw [skip, rest_skipWhile, if_neg hl]
  change (s.resume.skipBlanks.rest).dropWhile Text.isBlank = _
  rw [skipBlanks, rest_skipWhile, List.dropWhile_idempotent]

/-- Where no braces come after a colon, none are read. -/
theorem TokenRead.kind_ne_openBraces {begins : Bool} {token : Token} {after : Scanner}
    (read :
      TokenRead begins { s.resume.skipBlanks with lineLists := s.lineLists + 1 } token after)
    (hr : ∀ cs, s.resume.skipBlanks.rest ≠ '{' :: '{' :: cs) : token.kind ≠ .openBraces := by
  cases read with
  | openBraces rest => exact absurd ((rest_skip_openLine s).symm.trans rest) (hr _)
  | _ => nofun

/-- Where no braces come after a colon, one more line list is open. -/
theorem Poised.look_openLine (h : Poised .colon 0 lists saved s)
    (hr : ∀ cs, s.resume.skipBlanks.rest ≠ '{' :: '{' :: cs) :
    Poised .normal 0 (lists + 1) saved s.openLine ∧ s.openLine.look = s.look := by
  have hopen : Poised .normal 0 (lists + 1) saved s.openLine :=
    ⟨rfl, h.owed, congrArg (· + 1) h.lists, h.saved, h.live, h.sound⟩
  have read := tokenRead_readToken true { s.resume.skipBlanks with lineLists := s.lineLists + 1 }
  have hline := (Step.lineList h.owed h.mode hr read).eq_look h.live
  have hword := (Step.token (s := s.openLine) h.owed rfl read).eq_look hopen.live
  exact ⟨hopen, hword.trans hline.symm⟩

/-- After a colon come the braces of a list, inside of which no line list is
open, or what would come after one more line list was opened. -/
theorem Poised.look_of_colon (h : Poised .colon 0 lists saved s) :
    (s.look.token.kind = .openBraces ∧ s.look.beginsStatement = true ∧
        Poised .normal 0 0 (lists :: saved) s.look) ∨
      (s.look.token.kind ≠ .openBraces ∧ ∃ u, u.look = s.look ∧ u.beginsStatement = true ∧
        Poised .normal 0 (lists + 1) saved u) := by
  have hm := h.mode
  generalize hs : s.look = t
  have step := hs ▸ step_look h.live
  cases step with
  | owed owed => exact absurd h.owed owed
  | bracedList owed mode rest =>
    refine .inl ⟨rfl, rfl, rfl, h.owed, rfl, ?_, rfl, h.sound⟩
    exact congrArg₂ List.cons h.lists h.saved
  | lineList owed mode rest read =>
    obtain ⟨hopen, hlook⟩ := h.look_openLine rest
    exact .inr ⟨read.kind_ne_openBraces rest, s.openLine, hlook.trans hs, rfl, hopen⟩
  | _ _ mode => cases hm.symm.trans mode

/-- After a sigil come the braces of a block, or the text of a command, which ends
its line and every line list that is open. -/
theorem Poised.look_of_sigil (h : Poised .sigil 0 lists saved s) :
    (s.look.token.kind = .openBraces → Poised .block 0 lists (lists :: saved) s.look) ∧
      (s.look.token.kind = .command → Poised .normal (lists + 1) 0 saved s.look) := by
  have hm := h.mode
  generalize hs : s.look = t
  have step := hs ▸ step_look h.live
  cases step with
  | owed owed => exact absurd h.owed owed
  | block owed mode rest =>
    refine ⟨fun _ => ⟨rfl, h.owed, h.lists, ?_, rfl, h.sound⟩, nofun⟩
    exact congrArg₂ List.cons h.lists h.saved
  | command owed mode rest =>
    refine ⟨nofun, fun _ => ⟨rfl, ?_, rfl, h.saved, rfl, h.sound⟩⟩
    change s.owed + 1 + (s.lineLists : Int) = _
    rw [h.owed, h.lists]
    omega
  | noCommand | openCommand => exact ⟨nofun, nofun⟩
  | _ _ mode => cases hm.symm.trans mode

/-- A sigil leaves the scanner waiting for a command. -/
theorem TokenRead.poised_of_sigil {begins : Bool} {token : Token} {after : Scanner}
    (read : TokenRead begins s token after) (ho : s.owed = 0) (hf : s.fault = none)
    (hk : token.kind = .sigil) :
    Poised .sigil 0 (after.hold token).lineLists (after.hold token).saved (after.hold token) := by
  cases read with
  | sigil => exact ⟨rfl, ho, rfl, rfl, rfl, hf⟩
  | _ => cases hk

/-- Wherever a sigil is read, the scanner waits for what follows it. -/
theorem Step.poised_of_sigil (step : Step s t) (hf : s.fault = none)
    (hk : t.token.kind = .sigil) : Poised .sigil 0 t.lineLists t.saved t := by
  cases step with
  | token owed mode read => exact read.poised_of_sigil owed hf hk
  | lineList owed mode rest read => exact read.poised_of_sigil owed hf hk
  | terminator owed mode rest read => exact read.poised_of_sigil owed hf hk
  | _ => cases hk

/-- **The text of a command on a line is followed by a newline marker.** -/
theorem isNewline_after_command (hd : s.done = false) (hf : s.fault = none)
    (hk : s.look.token.kind = .sigil) (hc : s.look.look.token.kind = .command) :
    s.look.look.look.token.isNewline = true := by
  have h := (step_look hd).poised_of_sigil hf hk
  rcases (h.look_of_sigil.2 hc).look_cases with ⟨-, hn, -⟩ | ⟨ho, -⟩
  · rw [hn]
    rfl
  · omega

/-- After the text of a block its closing braces may come. -/
theorem Poised.look_of_block (h : Poised .block 0 lists saved s)
    (hk : s.look.token.kind = .command) : Poised .normal 0 lists saved s.look := by
  have hm := h.mode
  generalize hs : s.look = t at hk
  have step := hs ▸ step_look h.live
  cases step with
  | owed owed => exact absurd h.owed owed
  | openBlock => cases hk
  | blockText owed mode found => exact (h.resume.forward _).hold nofun
  | _ _ mode => cases hm.symm.trans mode

/-- After closing braces comes a semicolon, or the end of the line, which ends
every line list that is open. -/
theorem Poised.look_of_terminator (h : Poised .terminator 0 lists saved s)
    (hk : s.look.token.kind = .semicolon) :
    (s.look.token.text = ";" ∧ Poised .normal 0 lists saved s.look) ∨
      (s.look.token.text = "\n" ∧ Poised .normal lists 0 saved s.look) := by
  have hm := h.mode
  generalize hs : s.look = t at hk
  have step := hs ▸ step_look h.live
  cases step with
  | owed owed => exact absurd h.owed owed
  | terminator owed mode rest read =>
    obtain ⟨rfl, rfl⟩ := read.unique (.separator (rest_skip rest (by decide)))
    exact .inl ⟨rfl, rfl, h.owed, h.lists, h.saved, rfl, h.sound⟩
  | lineEnd owed mode rest =>
    refine .inr ⟨rfl, ?_⟩
    exact (h.resume.skipBlanks.takeLineEnd (by omega)).hold nofun
  | stray => cases hk
  | _ _ mode => cases hm.symm.trans mode

end Scanner
end RcScript
