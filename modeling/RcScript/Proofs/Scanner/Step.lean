/-
# The steps of a scanner

`Step` lists what a look can do in each mode, the faults included.  A look is one
of the steps (`step_look`), and the steps exclude one another (`Step.eq_look`):
what a scanner keeps is proved case by case on `Step`, and what it reads from
given characters is the step that they call for.

A case gives the state that the scanner leaves, and as its premises what holds of the
mode, of what is owed and of the characters that are left.  So to take a step apart gives
everything that was decided on the way, and to build one needs nothing more.  The
definition of a look is opened for the proof that it is one of the steps and nowhere else.

Twelve cases make up the five modes.  In the normal mode there is one, for any token; after
a colon there are two, braces or the first token of a line list; after a sigil four,
braces, a text, nothing or a text that is not closed; in a block two, a text or none;
after closing braces three, a semicolon, the end of a line or something else.  The
thirteenth is for a marker that is owed, and it comes before all of them.
-/

import RcScript.Proofs.Scanner.TokenRead

namespace RcScript
namespace Scanner

variable {s t : Scanner}

/-- What a look can do, for each mode. -/
inductive Step (s : Scanner) : Scanner → Prop
  /-- a marker that is owed comes before anything else -/
  | owed (owed : s.owed ≠ 0) :
      Step s ({ s with owed := s.owed - 1, beginsStatement := true }.hold
        (Token.newlineAt s.marker))
  | token {token : Token} {after : Scanner} (owed : s.owed = 0) (mode : s.mode = .normal)
      (read : TokenRead s.beginsStatement s.resume token after) : Step s (after.hold token)
  /-- the braces of a list -/
  | bracedList {cs : List Char} (owed : s.owed = 0) (mode : s.mode = .colon)
      (rest : s.resume.skipBlanks.rest = '{' :: '{' :: cs) :
      Step s (((({ s.resume.skipBlanks with beginsStatement := true }).forward 2).openBraces
        true).hold ⟨.openBraces, "\x7b\x7b", s.resume.skipBlanks.position⟩)
  /-- the first token of a line list -/
  | lineList {token : Token} {after : Scanner} (owed : s.owed = 0) (mode : s.mode = .colon)
      (rest : ∀ cs, s.resume.skipBlanks.rest ≠ '{' :: '{' :: cs)
      (read :
        TokenRead true { s.resume.skipBlanks with lineLists := s.lineLists + 1 } token after) :
      Step s (after.hold token)
  /-- the braces of a block -/
  | block {cs : List Char} (owed : s.owed = 0) (mode : s.mode = .sigil)
      (rest : s.resume.skipBlanks.rest = '{' :: '{' :: cs) :
      Step s ({ (s.resume.skipBlanks.forward 2).openBraces false with mode := .block }.hold
        ⟨.openBraces, "\x7b\x7b", s.resume.skipBlanks.position⟩)
  | noCommand (owed : s.owed = 0) (mode : s.mode = .sigil)
      (rest : s.resume.skipBlanks.rest = [] ∨ ∃ cs, s.resume.skipBlanks.rest = '\n' :: cs) :
      Step s (s.resume.skipBlanks.halt
        (s.resume.skipBlanks.faultAt .missingCommandText s.resume.skipBlanks.position))
  | openCommand (owed : s.owed = 0) (mode : s.mode = .sigil)
      (opens : ∀ cs, s.resume.skipBlanks.rest ≠ '{' :: '{' :: cs)
      (found : Lexeme.commandText s.resume.skipBlanks.rest = none) :
      Step s ((s.resume.skipBlanks.forward s.resume.skipBlanks.rest.length).halt
        (s.resume.skipBlanks.faultAt (.unterminatedCommand s.resume.skipBlanks.position)
          (s.resume.skipBlanks.forward s.resume.skipBlanks.rest.length).position))
  /-- the text of a command, up to the end of its line -/
  | command {text : List Char} (owed : s.owed = 0) (mode : s.mode = .sigil)
      (rest : s.resume.skipBlanks.rest ≠ [])
      (opens : ∀ cs, s.resume.skipBlanks.rest ≠ '{' :: '{' :: cs)
      (space : ∀ cs, s.resume.skipBlanks.rest ≠ '\n' :: cs)
      (found : Lexeme.commandText s.resume.skipBlanks.rest = some text) :
      Step s (((s.resume.skipBlanks.forward text.length).endLine 1).hold
        ⟨.command, String.ofList (Lexeme.trimReturns text), s.resume.skipBlanks.position⟩)
  | openBlock (owed : s.owed = 0) (mode : s.mode = .block)
      (rest : Lexeme.blockText s.resume.rest = none) :
      Step s (s.resume.halt
        (s.resume.faultAt (.unterminatedBlock s.resume.position) s.resume.position))
  /-- the text of a block -/
  | blockText {text : List Char} (owed : s.owed = 0) (mode : s.mode = .block)
      (found : Lexeme.blockText s.resume.rest = some text) :
      Step s ((s.resume.forward text.length).hold
        ⟨.command, String.ofList text, s.resume.position⟩)
  | terminator {cs : List Char} {token : Token} {after : Scanner} (owed : s.owed = 0)
      (mode : s.mode = .terminator) (rest : s.resume.skipBlanks.rest = ';' :: cs)
      (read : TokenRead s.beginsStatement s.resume.skipBlanks token after) :
      Step s (after.hold token)
  /-- the end of the line stands for the separator after braces -/
  | lineEnd (owed : s.owed = 0) (mode : s.mode = .terminator)
      (rest : s.resume.skipBlanks.rest = [] ∨ ∃ cs, s.resume.skipBlanks.rest = '\n' :: cs) :
      Step s ((s.resume.skipBlanks.takeLineEnd 1).2.hold
        (Token.newlineAt s.resume.skipBlanks.position))
  | stray {c : Char} {cs : List Char} (owed : s.owed = 0) (mode : s.mode = .terminator)
      (rest : s.resume.skipBlanks.rest = c :: cs) (space : c ≠ '\n') (separator : c ≠ ';') :
      Step s (s.resume.skipBlanks.halt
        (s.resume.skipBlanks.faultAt (.strayAfterBraces c) s.resume.skipBlanks.position))

/-- **A look is one of the steps.** -/
theorem step_look (h : s.done = false) : Step s s.look := by
  by_cases ho : s.owed = 0
  · rw [look_eq_of_mode h ho]
    cases hm : s.mode with
    | normal => exact .token ho hm (tokenRead_readToken _ _)
    | colon =>
      simp only [readListHead]
      split
      · next cs hr => exact .bracedList ho hm hr
      · next hr =>
        exact .lineList ho hm (fun cs hc => hr cs hc) (tokenRead_readToken _ _)
    | sigil =>
      simp only [readCommand]
      split
      · next cs hr => exact .block ho hm hr
      · next hr => exact .noCommand ho hm (.inl hr)
      · next cs hr => exact .noCommand ho hm (.inr ⟨cs, hr⟩)
      · next rest hb hn hl =>
        split
        · next hc => exact .openCommand ho hm hb hc
        · next text hc => exact .command ho hm hn hb hl hc
    | block =>
      simp only [readBlock]
      split
      · next hb => exact .openBlock ho hm hb
      · next text hb => exact .blockText ho hm hb
    | terminator =>
      simp only [readTerminator]
      split
      · next cs hr => exact .terminator ho hm hr (tokenRead_readToken _ _)
      · next hr => exact .lineEnd ho hm (.inl hr)
      · next cs hr => exact .lineEnd ho hm (.inr ⟨cs, hr⟩)
      · next c cs hs hl hr => exact .stray ho hm hr hl hs
  · rw [look_eq h, nextToken, if_pos ho]
    exact .owed ho

/-- The mode that a look resumes in is the normal one. -/
theorem resume_normal : { s.resume with mode := .normal } = s.resume := rfl

/-- **The steps exclude one another.** -/
theorem Step.eq_look (h : s.done = false) (ht : Step s t) : s.look = t := by
  cases ht with
  | owed ho => rw [look_eq h, nextToken, if_pos ho]; rfl
  | token ho hm read =>
    rw [look_eq_of_mode h ho, hm]
    simp only [read.eq_readToken, settle_ok]
  | bracedList ho hm rest =>
    rw [look_eq_of_mode h ho, hm]
    simp only [readListHead, resume_normal, rest]
    rfl
  | lineList ho hm rest read =>
    rw [look_eq_of_mode h ho, hm]
    simp only [readListHead, resume_normal]
    exact congrArg (fun read => settle (Prod.map .ok id read)) read.eq_readToken
  | block ho hm rest =>
    rw [look_eq_of_mode h ho, hm]
    simp only [readCommand, resume_normal, rest]
    rfl
  | noCommand ho hm rest =>
    rw [look_eq_of_mode h ho, hm]
    obtain rest | ⟨cs, rest⟩ := rest <;> simp only [readCommand, resume_normal, rest] <;> rfl
  | openCommand ho hm opens found =>
    rw [look_eq_of_mode h ho, hm]
    simp only [readCommand, resume_normal]
    split
    · next cs hc => exact absurd hc (opens cs)
    · next hc => rw [hc] at found; cases found
    · next cs hc => rw [hc] at found; cases found
    · simp only [found]; rfl
  | command ho hm rest opens space found =>
    rw [look_eq_of_mode h ho, hm]
    simp only [readCommand, resume_normal, found]
    rfl
  | openBlock ho hm rest =>
    rw [look_eq_of_mode h ho, hm]
    simp only [readBlock, resume_normal, rest]
    rfl
  | blockText ho hm found =>
    rw [look_eq_of_mode h ho, hm]
    simp only [readBlock, resume_normal, found]
    rfl
  | terminator ho hm rest read =>
    rw [look_eq_of_mode h ho, hm]
    simp only [readTerminator, resume_normal, rest, read.eq_readToken, settle_ok]
  | lineEnd ho hm rest =>
    rw [look_eq_of_mode h ho, hm]
    obtain rest | ⟨cs, rest⟩ := rest <;> simp only [readTerminator, resume_normal, rest] <;> rfl
  | stray ho hm rest space separator =>
    rw [look_eq_of_mode h ho, hm]
    simp only [readTerminator, resume_normal, rest]
    rfl

end Scanner
end RcScript
