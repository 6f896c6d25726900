/-
# What the tokens are

The kind of a token says what its text can be (`Token.Sound`): braces, colons and
separators have the texts they are written with, a word is a word, and a command
has a text that can be written back, but for a backslash at its end
(`Step.sound`).  A word that was read where a statement begins does not begin as
a list or a command does (`Step.head`).

That a text can be written back is decided by the form that it would be written in.  A
block text has no closing braces in it.  A command text has neither blanks before it, nor
carriage returns behind it, nor a line break that is not escaped, and it does not begin
with opening braces; but it may end in a backslash that took a carriage return along, and
this is the one thing in which it differs from a text that can be written.
-/

import RcScript.Proofs.Scanner.Step
import RcScript.Proofs.Stmt.WellFormed
import Mathlib.Data.List.TakeWhile

namespace RcScript

/-- Whether the text of a token is one that its kind can have. -/
def Token.Sound (token : Token) : Prop :=
  match token.kind with
  | .endOfInput => token.text = ""
  | .semicolon => token.text = ";" ∨ token.text = "\n"
  | .word => IsWord token.text
  | .colon => token.text = ":"
  | .openBraces => token.text = "\x7b\x7b"
  | .closeBraces => token.text = "\x7d\x7d"
  | .sigil => ∃ g : Sigil, token.text = g.text
  | .command => Readable token.text

namespace Lexeme

variable {cs text : List Char}

/-- What is read as a word is one. -/
theorem isWord_word (hn : word cs ≠ []) (ho : ∀ tail, cs ≠ '{' :: '{' :: tail) :
    IsWord (String.ofList (word cs)) where
  nonempty := fun h => hn (by simpa using congrArg String.toList h)
  spaceless := by simpa using fun c hc => not_stop_of_mem_word hc
  closed := by simpa using holdsClosingBraces_word cs
  opens := by
    rw [String.toList_ofList]
    rintro ⟨tail, ht⟩
    have hcs := word_append_drop cs
    rw [← ht] at hcs
    exact ho _ hcs.symm

/-- What is read in a block fits one. -/
theorem fitsBlock_blockText (h : blockText cs = some text) :
    fitsBlock (String.ofList text) = true := by
  obtain ⟨hb, hl, -⟩ := of_blockText h
  simp [fitsBlock, hb, hl]

/-- Trimming keeps what is no carriage return. -/
theorem trimReturns_ne_nil {c : Char} (hc : c ∈ text) (hr : c ≠ '\r') : trimReturns text ≠ [] := by
  rw [trimReturns_eq, ne_eq, List.rdropWhile_eq_nil_iff]
  exact fun h => hr (of_decide_eq_true (h c hc))

/-- What is read up to the end of a line, without the carriage returns at its
end, fits a line. -/
theorem fitsLine_commandText (h : commandText cs = some text) (hn : cs ≠ [])
    (hs : ∀ c ∈ cs.head?, Text.isSpace c = false) (ho : ∀ tail, cs ≠ '{' :: '{' :: tail) :
    FitsLine (String.ofList (trimReturns text)) := by
  obtain ⟨c, tail, rfl⟩ := List.exists_cons_of_ne_nil hn
  have hc : Text.isSpace c = false := hs c rfl
  obtain ⟨hb, -, after, hcs, -⟩ := of_commandText h
  have htext : text ≠ [] := by
    refine commandText_ne_nil h hn fun tail ht => ?_
    rw [(List.cons_eq_cons.1 ht).1] at hc
    exact absurd hc (by decide)
  obtain ⟨d, text, rfl⟩ := List.exists_cons_of_ne_nil htext
  obtain rfl : c = d := (List.cons_eq_cons.1 hcs).1
  have hr : c ≠ '\r' := fun hr => absurd (hr ▸ hc) (by decide)
  have hne := trimReturns_ne_nil (List.mem_cons_self (l := text)) hr
  obtain ⟨rest, hrest⟩ := isPrefix_trimReturns (c :: text)
  have hprefix : trimReturns (c :: text) <+: c :: tail :=
    (isPrefix_trimReturns _).trans ⟨after, hcs.symm⟩
  refine ⟨fun he => hne (by simpa using congrArg String.toList he), ?_, ?_, ?_, ?_⟩ <;>
    rw [String.toList_ofList]
  · intro e he
    obtain ⟨tail', ht⟩ := List.head?_eq_some_iff.1 he
    rw [ht] at hprefix
    exact hs e (by simp [(List.cons_prefix_cons.1 hprefix).1])
  · intro hopen
    obtain ⟨more, hmore⟩ := hopen.trans hprefix
    exact ho more hmore.symm
  · exact getLast?_trimReturns _
  · exact holdsBareBreak_of_append (hrest ▸ hb)

end Lexeme

namespace Scanner

variable {s t : Scanner}

/-- A token that is read has a text that its kind can have. -/
theorem TokenRead.sound {begins : Bool} {token : Token} {after : Scanner}
    (h : TokenRead begins s token after) : token.Sound := by
  cases h with
  | finish => rfl
  | lineEnd => exact .inr rfl
  | separator => exact .inl rfl
  | openBraces => rfl
  | closeBraces => rfl
  | colon => rfl
  | sigil => exact ⟨_, rfl⟩
  | word rest opens closes space separator head =>
    refine Lexeme.isWord_word ?_ opens
    rw [word_cons rest closes space separator]
    exact List.cons_ne_nil _ _

/-- A word that is read where a statement begins is no head of a list or of a
command. -/
theorem TokenRead.head {token : Token} {after : Scanner} (h : TokenRead true s token after)
    (hk : token.kind = .word) :
    ∀ c ∈ token.text.toList.head?, c ≠ ':' ∧ Sigil.ofChar? c = none := by
  cases h with
  | word rest opens closes space separator head =>
    rw [word_cons rest closes space separator, String.toList_ofList]
    rintro c ⟨⟩
    exact head rfl
  | _ => cases hk

/-- What stands after the blanks is no blank. -/
theorem isSpace_of_skipBlanks {c : Char} {cs : List Char} (h : s.skipBlanks.rest = c :: cs)
    (hc : c ≠ '\n') : Text.isSpace c = false := by
  have hd := List.head?_dropWhile_not Text.isBlank s.rest
  rw [← rest_skipWhile, ← skipBlanks, h] at hd
  rw [← Bool.not_eq_true, Text.isSpace_iff, show Text.isBlank c = false from hd]
  rintro (hb | hb)
  · cases hb
  · exact hc hb

/-- **The text of every token is one that its kind can have.** -/
theorem Step.sound (h : Step s t) : t.token.Sound := by
  cases h with
  | owed => exact .inr rfl
  | token owed mode read => exact read.sound
  | bracedList => rfl
  | lineList owed mode rest read => exact read.sound
  | block => rfl
  | noCommand => rfl
  | openCommand => rfl
  | command owed mode rest opens space found =>
    refine .inr (Lexeme.fitsLine_commandText found rest (fun c hc => ?_) opens)
    obtain ⟨cs, hcs⟩ := List.head?_eq_some_iff.1 hc
    exact isSpace_of_skipBlanks hcs fun hn => space cs (hn ▸ hcs)
  | openBlock => rfl
  | blockText owed mode found => exact .inl (Lexeme.fitsBlock_blockText found)
  | terminator owed mode rest read => exact read.sound
  | lineEnd => exact .inr rfl
  | stray => rfl

/-- The look-ahead has a text that its kind can have. -/
theorem sound_look (hd : s.done = false) : s.look.token.Sound := (step_look hd).sound

/-- **A word read where a statement begins is a name, or a keyword.** -/
theorem Step.head (h : Step s t) (hb : s.beginsStatement = true ∨ s.mode = .colon)
    (hk : t.token.kind = .word) :
    ∀ c ∈ t.token.text.toList.head?, c ≠ ':' ∧ Sigil.ofChar? c = none := by
  cases h with
  | token owed mode read =>
    rw [hb.resolve_right (by simp [mode])] at read
    exact read.head hk
  | lineList owed mode rest read => exact read.head hk
  | terminator owed mode rest read =>
    rw [hb.resolve_right (by simp [mode])] at read
    exact read.head hk
  | _ => cases hk

end Scanner
end RcScript
