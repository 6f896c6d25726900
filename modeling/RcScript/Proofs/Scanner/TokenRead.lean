/-
# The cases of reading a token

`TokenRead` lists what reading any token can do, with the characters that decide
it.  Reading a token is one of the cases (`tokenRead_readToken`), and the cases
exclude one another (`TokenRead.eq_readToken`), so they serve to take a reading
apart as well as to carry one out.

The premises of a case are the characters that it is decided by, in the order in which
they are looked at, with what they are not where an earlier case would have applied.  Thus
a case needs no side condition to be the only one, and a proof about reading a token has
one goal for each of them and never a branch that does not occur.

A word is what remains when nothing else applies, so its case has the most premises: what
is left begins with neither braces, nor a semicolon, nor a line break, and where a
statement may begin it begins with neither a colon nor a sigil either.
-/

import RcScript.Proofs.Scanner.Look

namespace RcScript
namespace Scanner

variable {s : Scanner}

/-- What reading any token can do. -/
inductive TokenRead (begins : Bool) (s : Scanner) : Token → Scanner → Prop
  /-- nothing is left, and no line list is open -/
  | finish (rest : s.skip.rest = []) (lists : s.lineLists = 0) :
      TokenRead begins s (Token.endAt s.skip.position) s.skip
  /-- the line ends, and with it the open line lists -/
  | lineEnd (rest : s.skip.rest = [] ∨ ∃ cs, s.skip.rest = '\n' :: cs) (lists : s.lineLists ≠ 0) :
      TokenRead begins s (Token.newlineAt s.skip.position) (s.skip.takeLineEnd 0).2
  | separator {cs : List Char} (rest : s.skip.rest = ';' :: cs) :
      TokenRead begins s ⟨.semicolon, ";", s.skip.position⟩
        { s.skip.forward 1 with beginsStatement := true }
  | openBraces {cs : List Char} (rest : s.skip.rest = '{' :: '{' :: cs) :
      TokenRead begins s ⟨.openBraces, "\x7b\x7b", s.skip.position⟩
        ((s.skip.forward 2).openBraces false)
  | closeBraces {cs : List Char} (rest : s.skip.rest = '}' :: '}' :: cs) :
      TokenRead begins s ⟨.closeBraces, "\x7d\x7d", s.skip.position⟩
        { s.skip.forward 2 with mode := .terminator }.closeBraces
  | colon {cs : List Char} (rest : s.skip.rest = ':' :: cs) (head : begins = true) :
      TokenRead begins s ⟨.colon, ":", s.skip.position⟩ { s.skip.forward 1 with mode := .colon }
  | sigil {g : Sigil} {cs : List Char} (rest : s.skip.rest = g.char :: cs) (head : begins = true) :
      TokenRead begins s ⟨.sigil, g.text, s.skip.position⟩ { s.skip.forward 1 with mode := .sigil }
  | word {c : Char} {cs : List Char} (rest : s.skip.rest = c :: cs)
      (opens : ∀ cs, s.skip.rest ≠ '{' :: '{' :: cs)
      (closes : ∀ cs, s.skip.rest ≠ '}' :: '}' :: cs) (space : c ≠ '\n') (separator : c ≠ ';')
      (head : begins = true → c ≠ ':' ∧ Sigil.ofChar? c = none) :
      TokenRead begins s ⟨.word, String.ofList (Lexeme.word s.skip.rest), s.skip.position⟩
        (s.skip.forward (Lexeme.word s.skip.rest).length)

/-- After the spaces no line break is left, unless a line list is open. -/
theorem lineLists_of_lineBreak {cs : List Char} (h : s.skip.rest = '\n' :: cs) :
    s.lineLists ≠ 0 := by
  intro hl
  rw [skip, rest_skipWhile, if_pos hl] at h
  have hc := List.head?_dropWhile_not Text.isSpace s.rest
  rw [h] at hc
  exact Bool.noConfusion hc

/-- What comes after the spaces is the line break, or no space. -/
theorem isSpace_of_skip {c : Char} {cs : List Char} (h : s.skip.rest = c :: cs)
    (hc : c ≠ '\n') : Text.isSpace c = false := by
  have hd := List.head?_dropWhile_not
    (if s.lineLists = 0 then Text.isSpace else Text.isBlank) s.rest
  rw [← rest_skipWhile, ← skip, h] at hd
  have hd : (if s.lineLists = 0 then Text.isSpace else Text.isBlank) c = false := hd
  split at hd
  · exact hd
  · rw [← Bool.not_eq_true, Text.isSpace_iff, hd]
    rintro (hb | hb)
    · cases hb
    · exact hc hb

/-- A word begins with the character that it is read from. -/
theorem word_cons {c : Char} {cs : List Char} (h : s.skip.rest = c :: cs)
    (closes : ∀ cs, s.skip.rest ≠ '}' :: '}' :: cs) (space : c ≠ '\n') (separator : c ≠ ';') :
    Lexeme.word s.skip.rest = c :: Lexeme.word cs := by
  have hc := isSpace_of_skip h space
  rw [h] at closes ⊢
  rw [Lexeme.word]
  · simp [hc, separator]
  · exact fun tail h₁ h₂ => closes tail (by rw [h₁, h₂])

/-- **Reading a token is one of its cases.** -/
theorem tokenRead_readToken (begins : Bool) (s : Scanner) :
    TokenRead begins s (s.readToken begins).1 (s.readToken begins).2 := by
  unfold readToken
  rw [← skip]
  dsimp only
  split
  · next h =>
    split
    · next hl => exact .finish h hl
    · next hl => exact .lineEnd (.inl h) hl
  · next cs h => exact .lineEnd (.inr ⟨cs, h⟩) (lineLists_of_lineBreak h)
  · next cs h => exact .separator h
  · next cs h => exact .openBraces h
  · next cs h => exact .closeBraces h
  · next c cs hn hs ho hc h =>
    split
    · next hb =>
      rw [Bool.and_eq_true, decide_eq_true_iff] at hb
      obtain ⟨hb, rfl⟩ := hb
      exact .colon h hb
    · next hcolon =>
      split
      · next hb =>
        rw [Bool.and_eq_true, Option.isSome_iff_exists] at hb
        obtain ⟨hb, g, hg⟩ := hb
        obtain rfl := Sigil.ofChar?_eq_some hg
        exact .sigil h hb
      · next hsigil =>
        refine .word h (fun tail ht => ?_) (fun tail ht => ?_) hn hs (fun hb => ⟨?_, ?_⟩)
        · rw [h, List.cons.injEq] at ht
          exact ho tail ht.1 ht.2
        · rw [h, List.cons.injEq] at ht
          exact hc tail ht.1 ht.2
        · simpa [hb] using hcolon
        · simpa [hb] using hsigil

/-- **The cases of reading a token exclude one another.** -/
theorem TokenRead.eq_readToken {begins : Bool} {token : Token} {after : Scanner}
    (h : TokenRead begins s token after) : s.readToken begins = (token, after) := by
  have hl : s.skip.lineLists = s.lineLists := rfl
  unfold readToken
  rw [← skip]
  dsimp only
  cases h with
  | finish rest lists => simp [rest, hl, lists]
  | lineEnd rest lists =>
    obtain rest | ⟨cs, rest⟩ := rest
    · simp [rest, hl, lists, takeLineEnd, newlineMarker, endLine]
    · simp [rest, takeLineEnd, newlineMarker, endLine]
  | separator rest => simp [rest]
  | openBraces rest => simp [rest]; rfl
  | closeBraces rest => simp [rest]
  | colon rest head => simp [rest, head]
  | @sigil g cs rest head => cases g <;> rw [rest, head] <;> rfl
  | @word c cs rest opens closes space separator head =>
    simp only [rest] at opens closes ⊢
    split
    · next h => cases h
    · next h => cases h; exact absurd rfl space
    · next h => cases h; exact absurd rfl separator
    · next cs h => exact absurd h (opens cs)
    · next cs h => exact absurd h (closes cs)
    · next h =>
      cases h
      have hcolon : ¬(begins && decide (c = ':')) = true := by
        rw [Bool.and_eq_true, decide_eq_true_iff]
        exact fun hb => (head hb.1).1 hb.2
      have hsigil : ¬(begins && (Sigil.ofChar? c).isSome) = true := by
        rw [Bool.and_eq_true]
        exact fun hb => by simp [(head hb.1).2] at hb
      rw [if_neg hcolon, if_neg hsigil]
      simp only [takeWord, rest]

/-- What stands first decides what is read. -/
theorem TokenRead.unique {begins : Bool} {token token' : Token} {after after' : Scanner}
    (read : TokenRead begins s token after) (read' : TokenRead begins s token' after') :
    token = token' ∧ after = after' :=
  Prod.mk.inj (read.eq_readToken.symm.trans read'.eq_readToken)

end Scanner
end RcScript
