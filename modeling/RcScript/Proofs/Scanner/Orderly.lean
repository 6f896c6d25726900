/-
# The order of tokens

What a token is decides what may come next.  After a sigil comes the text of a
command and a newline marker, or a block: opening braces, a text, closing braces.
After closing braces comes a separator.  No other place has a command text.  Only a
fault cuts the tokens off before something that must follow (`Orderly`).

A scanner `Awaits` what the tokens read last ask for; each step completes them, adds
to them or is cut off (`Awaits.step`), and so the tokens of every run are orderly
(`Lists.orderly`).

The order is stated as an inductive predicate on the tokens from first to last, and a
scanner asks the other way round: it knows what has been read and waits for the rest.
`Awaits` holds what has been read of a group that is not complete, with the state that
says so, and `Answers` says what one more token does to it.  The invariant is needed for
the tokens that are held, and in the end, where the end of input is the last token, only a
fault can have left anything.

The groups are short.  A sigil and a command text wait for a newline marker; a sigil and
opening braces wait for a text, closing braces and a separator; closing braces of any kind
wait for a separator.  All other tokens stand for themselves.  So `Awaits` has one case for
each place in a group, and a step has to be looked at only in the mode that the case has.
-/

import RcScript.Proofs.Scanner.Listing
import RcScript.Proofs.Scanner.Poised
import RcScript.Proofs.Scanner.Sound

namespace RcScript

/-- The kinds of the tokens after which anything may come. -/
def TokenKind.isFree (kind : TokenKind) : Prop :=
  kind = .semicolon ∨ kind = .word ∨ kind = .colon ∨ kind = .openBraces

/-- A token after which anything may come is not the end of input. -/
theorem TokenKind.isFree.ne_endOfInput {kind : TokenKind} (h : kind.isFree) :
    kind ≠ .endOfInput := by
  rintro rfl
  rcases h with h | h | h | h <;> cases h

/-- Tokens down to the end of input that follow one another as they must, or are
cut off by a fault. -/
inductive Orderly (faulty : Prop) : List Token → Prop
  | finish {last : Token} (kind : last.kind = .endOfInput) : Orderly faulty [last]
  | free {token : Token} {rest : List Token} (kind : token.kind.isFree)
      (onward : Orderly faulty rest) : Orderly faulty (token :: rest)
  /-- closing braces, wherever they come from, and the separator after them -/
  | braces {closing separator : Token} {rest : List Token} (closes : closing.kind = .closeBraces)
      (ends : separator.kind = .semicolon) (onward : Orderly faulty rest) :
      Orderly faulty (closing :: separator :: rest)
  /-- a command on a line -/
  | line {sigil command newline : Token} {rest : List Token} (head : sigil.kind = .sigil)
      (kind : command.kind = .command) (text : FitsLine command.text)
      (ends : newline.isNewline = true) (onward : Orderly faulty rest) :
      Orderly faulty (sigil :: command :: newline :: rest)
  /-- a command in a block, whose closing braces have a separator after them like any others -/
  | block {sigil opening command closing : Token} {rest : List Token} (head : sigil.kind = .sigil)
      (opens : opening.kind = .openBraces) (kind : command.kind = .command)
      (text : fitsBlock command.text = true) (closes : closing.kind = .closeBraces)
      (onward : Orderly faulty (closing :: rest)) :
      Orderly faulty (sigil :: opening :: command :: closing :: rest)
  /-- no separator after closing braces -/
  | strayAfterBraces {closing last : Token} (fault : faulty) (closes : closing.kind = .closeBraces)
      (kind : last.kind = .endOfInput) : Orderly faulty [closing, last]
  /-- no text after a sigil -/
  | noCommand {sigil last : Token} (fault : faulty) (head : sigil.kind = .sigil)
      (kind : last.kind = .endOfInput) : Orderly faulty [sigil, last]
  /-- no closing braces after a block -/
  | openBlock {sigil opening last : Token} (fault : faulty) (head : sigil.kind = .sigil)
      (opens : opening.kind = .openBraces) (kind : last.kind = .endOfInput) :
      Orderly faulty [sigil, opening, last]

/-- What may cut off the tokens may be weakened. -/
theorem Orderly.imp {faulty faulty' : Prop} {tokens : List Token} (h : Orderly faulty tokens)
    (hf : faulty → faulty') : Orderly faulty' tokens := by
  induction h with
  | finish kind => exact .finish kind
  | free kind _ ih => exact .free kind ih
  | braces closes ends _ ih => exact .braces closes ends ih
  | line head kind text ends _ ih => exact .line head kind text ends ih
  | block head opens kind text closes _ ih => exact .block head opens kind text closes ih
  | strayAfterBraces fault closes kind => exact .strayAfterBraces (hf fault) closes kind
  | noCommand fault head kind => exact .noCommand (hf fault) head kind
  | openBlock fault head opens kind => exact .openBlock (hf fault) head opens kind

namespace Scanner

variable {s t u : Scanner} {token : Token} {after : Scanner} {begins : Bool}
  {held tokens : List Token}

/-- The tokens read last that ask for more, and the state in which it is awaited. -/
inductive Awaits (s : Scanner) : List Token → Prop
  | nothing (mode : s.mode = .normal ∨ s.mode = .colon) : Awaits s []
  | command {sigil : Token} (head : sigil.kind = .sigil) (owed : s.owed = 0)
      (mode : s.mode = .sigil) : Awaits s [sigil]
  | newline {sigil command : Token} (head : sigil.kind = .sigil) (kind : command.kind = .command)
      (text : FitsLine command.text) (owed : s.owed ≠ 0) (mode : s.mode = .normal) :
      Awaits s [sigil, command]
  | blockText {sigil opening : Token} (head : sigil.kind = .sigil)
      (opens : opening.kind = .openBraces) (owed : s.owed = 0) (mode : s.mode = .block) :
      Awaits s [sigil, opening]
  | blockEnd {sigil opening command : Token} (head : sigil.kind = .sigil)
      (opens : opening.kind = .openBraces) (kind : command.kind = .command)
      (text : fitsBlock command.text = true) (owed : s.owed = 0) (mode : s.mode = .normal)
      {cs : List Char} (rest : s.rest = '}' :: '}' :: cs) : Awaits s [sigil, opening, command]
  | blockSeparator {sigil opening command closing : Token} (head : sigil.kind = .sigil)
      (opens : opening.kind = .openBraces) (kind : command.kind = .command)
      (text : fitsBlock command.text = true) (closes : closing.kind = .closeBraces)
      (owed : s.owed = 0) (mode : s.mode = .terminator) :
      Awaits s [sigil, opening, command, closing]
  | separator {closing : Token} (closes : closing.kind = .closeBraces) (owed : s.owed = 0)
      (mode : s.mode = .terminator) : Awaits s [closing]

/-- What is awaited does not depend on the flag. -/
theorem Awaits.ask (h : Awaits s held) (begins : Bool) : Awaits (s.ask begins) held := by
  cases h with
  | nothing mode => exact .nothing mode
  | command head owed mode => exact .command head owed mode
  | newline head kind text owed mode => exact .newline head kind text owed mode
  | blockText head opens owed mode => exact .blockText head opens owed mode
  | blockEnd head opens kind text owed mode rest =>
    exact .blockEnd head opens kind text owed mode rest
  | blockSeparator head opens kind text closes owed mode =>
    exact .blockSeparator head opens kind text closes owed mode
  | separator closes owed mode => exact .separator closes owed mode

/-- What the token of a step does to the tokens held: it ends them, which takes a
fault if they ask for more; it is held too, and more is awaited; or it completes them. -/
inductive Answers (held : List Token) (t : Scanner) : Prop
  | atEnd (kind : t.token.kind = .endOfInput)
      (order : Orderly (t.fault ≠ none) (held ++ [t.token]))
  | more (kind : t.token.kind ≠ .endOfInput) (awaits : Awaits t (held ++ [t.token]))
  | complete (awaits : Awaits t []) (free : t.token.kind.isFree)
      (order : ∀ {faulty : Prop} {rest : List Token}, Orderly faulty rest →
        Orderly faulty (held ++ t.token :: rest))

/-- A token that asks for nothing may come where nothing is awaited. -/
theorem answers_free (hk : t.token.kind.isFree) (hm : t.mode = .normal ∨ t.mode = .colon) :
    Answers [] t := .complete (.nothing hm) hk (.free hk)

/-- Any token may come where nothing is awaited. -/
theorem TokenRead.answers (read : TokenRead begins s token after) (ho : s.owed = 0)
    (hm : s.mode = .normal) : Answers [] (after.hold token) := by
  cases read with
  | finish => exact .atEnd rfl (.finish rfl)
  | lineEnd | separator => exact answers_free (.inl rfl) (.inl hm)
  | word => exact answers_free (.inr (.inl rfl)) (.inl hm)
  | colon => exact answers_free (.inr (.inr (.inl rfl))) (.inr rfl)
  | openBraces => exact answers_free (.inr (.inr (.inr rfl))) (.inl hm)
  | sigil => exact .more nofun (.command rfl ho rfl)
  | closeBraces =>
    rw [closeBraces_eq]
    exact .more nofun (.separator rfl ho rfl)

/-- In the normal mode or after a colon any token may come. -/
theorem Step.answers_nothing (step : Step s t) (hm : s.mode = .normal ∨ s.mode = .colon) :
    Answers [] t := by
  cases step with
  | owed => exact answers_free (.inl rfl) hm
  | token owed _ read => exact read.answers owed rfl
  | bracedList => exact answers_free (.inr (.inr (.inr rfl))) (.inl rfl)
  | lineList owed _ _ read => exact read.answers owed rfl
  | _ _ mode => simp [mode] at hm

/-- **After a sigil comes the text of a command, or a block is opened**; only a fault
takes their place. -/
theorem Step.command_of_sigil (step : Step s t) (ho : s.owed = 0) (hm : s.mode = .sigil) :
    (t.token.kind = .openBraces ∧ t.owed = 0 ∧ t.mode = .block) ∨
      (t.token.kind = .command ∧ FitsLine t.token.text ∧ t.owed ≠ 0 ∧ t.mode = .normal) ∨
      (t.token.kind = .endOfInput ∧ t.fault ≠ none) := by
  cases step with
  | owed owed => exact absurd ho owed
  | block => exact .inl ⟨rfl, ho, rfl⟩
  | noCommand | openCommand => exact .inr (.inr ⟨rfl, Option.some_ne_none _⟩)
  | @command text _ _ rest opens space found =>
    have htext : FitsLine (String.ofList (Lexeme.trimReturns text)) := by
      refine Lexeme.fitsLine_commandText found rest (fun c hc => ?_) opens
      obtain ⟨cs, hcs⟩ := List.head?_eq_some_iff.1 hc
      exact isSpace_of_skipBlanks hcs fun hn => space cs (hn ▸ hcs)
    have howed : s.owed + 1 + (s.lineLists : Int) ≠ 0 := by omega
    exact .inr (.inl ⟨rfl, htext, howed, rfl⟩)
  | _ _ mode => cases hm.symm.trans mode

/-- **A block has a text, and its closing braces are next**; only a fault takes its
place. -/
theorem Step.command_of_block (step : Step s t) (ho : s.owed = 0) (hm : s.mode = .block) :
    (t.token.kind = .command ∧ fitsBlock t.token.text = true ∧ t.owed = 0 ∧ t.mode = .normal ∧
        ∃ cs, t.rest = '}' :: '}' :: cs) ∨
      (t.token.kind = .endOfInput ∧ t.fault ≠ none) := by
  cases step with
  | owed owed => exact absurd ho owed
  | openBlock => exact .inr ⟨rfl, Option.some_ne_none _⟩
  | @blockText text _ _ found =>
    obtain ⟨-, -, cs, hcs⟩ := Lexeme.of_blockText found
    have hrest : (s.resume.forward text.length).rest = '}' :: '}' :: cs := by
      rw [rest_forward, hcs, List.drop_left]
    exact .inl ⟨rfl, Lexeme.fitsBlock_blockText found, ho, rfl, cs, hrest⟩
  | _ _ mode => cases hm.symm.trans mode

/-- Where closing braces stand they are read. -/
theorem Step.closeBraces_of_rest (step : Step s t) (ho : s.owed = 0) (hm : s.mode = .normal)
    {cs : List Char} (rest : s.rest = '}' :: '}' :: cs) :
    t.token.kind = .closeBraces ∧ t.owed = 0 ∧ t.mode = .terminator := by
  cases step with
  | owed owed => exact absurd ho owed
  | token _ _ read =>
    have hskip : s.resume.skip.rest = '}' :: '}' :: cs := rest_skip rest (by decide)
    obtain ⟨rfl, rfl⟩ := read.unique (.closeBraces hskip)
    rw [closeBraces_eq]
    exact ⟨rfl, ho, rfl⟩
  | _ _ mode => cases hm.symm.trans mode

/-- After closing braces comes a separator, or a fault. -/
theorem Step.separator_of_terminator (step : Step s t) (ho : s.owed = 0)
    (hm : s.mode = .terminator) :
    (t.token.kind = .semicolon ∧ t.mode = .normal) ∨
      (t.token.kind = .endOfInput ∧ t.fault ≠ none) := by
  cases step with
  | owed owed => exact absurd ho owed
  | terminator _ _ rest read =>
    have hskip : s.resume.skipBlanks.skip.rest = _ := rest_skip rest (by decide)
    obtain ⟨rfl, rfl⟩ := read.unique (.separator hskip)
    exact .inl ⟨rfl, rfl⟩
  | lineEnd => exact .inl ⟨rfl, rfl⟩
  | stray => exact .inr ⟨rfl, Option.some_ne_none _⟩
  | _ _ mode => cases hm.symm.trans mode

/-- Where a marker is owed it is paid. -/
theorem Step.eq_of_owed (step : Step s t) (ho : s.owed ≠ 0) :
    t = { s with owed := s.owed - 1, beginsStatement := true }.hold (Token.newlineAt s.marker) := by
  cases step with
  | owed => rfl
  | _ owed => exact absurd owed ho

/-- **A step answers what is awaited.** -/
theorem Awaits.step (ha : Awaits s held) (step : Step s t) : Answers held t := by
  cases ha with
  | nothing mode => exact step.answers_nothing mode
  | command head owed mode =>
    rcases step.command_of_sigil owed mode with ⟨hk, ho, hm⟩ | ⟨hk, ht, ho, hm⟩ | ⟨hk, hf⟩
    · exact .more (by rw [hk]; nofun) (.blockText head hk ho hm)
    · exact .more (by rw [hk]; nofun) (.newline head hk ht ho hm)
    · exact .atEnd hk (.noCommand hf head hk)
  | newline head kind text owed mode =>
    rw [step.eq_of_owed owed]
    exact .complete (.nothing (.inl mode)) (.inl rfl) (.line head kind text rfl)
  | blockText head opens owed mode =>
    rcases step.command_of_block owed mode with ⟨hk, ht, ho, hm, cs, rest⟩ | ⟨hk, hf⟩
    · exact .more (by rw [hk]; nofun) (.blockEnd head opens hk ht ho hm rest)
    · exact .atEnd hk (.openBlock hf head opens hk)
  | blockEnd head opens kind text owed mode rest =>
    obtain ⟨hk, ho, hm⟩ := step.closeBraces_of_rest owed mode rest
    exact .more (by rw [hk]; nofun) (.blockSeparator head opens kind text hk ho hm)
  | blockSeparator head opens kind text closes owed mode =>
    rcases step.separator_of_terminator owed mode with ⟨hk, hm⟩ | ⟨hk, hf⟩
    · exact .complete (.nothing (.inl hm)) (.inl hk)
        fun h => .block head opens kind text closes (.braces closes hk h)
    · exact .atEnd hk
        (.block head opens kind text closes (.strayAfterBraces hf closes hk))
  | separator closes owed mode =>
    rcases step.separator_of_terminator owed mode with ⟨hk, hm⟩ | ⟨hk, hf⟩
    · exact .complete (.nothing (.inl hm)) (.inl hk) (.braces closes hk)
    · exact .atEnd hk (.strayAfterBraces hf closes hk)

/-- **The tokens of a run are orderly**, those held before it included. -/
theorem Lists.orderly (h : Lists s tokens u) (ha : Awaits s held) :
    Orderly (u.fault ≠ none) (held ++ tokens) := by
  induction h generalizing held with
  | finish step last =>
    cases ha.step step with
    | atEnd kind order => exact order
    | more kind awaits => exact absurd last kind
    | complete awaits free order => exact absurd last free.ne_endOfInput
  | next begins step more rest ih =>
    cases ha.step step with
    | atEnd kind order => exact absurd kind more
    | more kind awaits =>
      have horder := ih (awaits.ask begins)
      rwa [List.append_assoc] at horder
    | complete awaits free order => exact order (ih (awaits.ask begins))

end Scanner
end RcScript
