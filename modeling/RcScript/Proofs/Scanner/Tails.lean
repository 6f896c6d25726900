/-
# Scanning a text before different tails

Two scanners are `Tailed` when they are in the same state and have the same text to read,
but another tail after it.  A step that leaves some of the text, or ends it with a word, a
semicolon or braces, is taken by both, if what follows the text ends a word alike
(`Step.tailed`).  Without tails the scanners just stand in different places, and then every
step is taken by both, and every token is the same (`Tailed.sameRun`).

Whether some of the text is left after a step decides most of it: then every character
that was looked at, and the one after it, is of the text.  A word at the end of the text is
the exception, because the first character of the tail ends it or does not
(`Lexeme.EndAlike`).  Semicolons and braces end where they end.  All the other tokens need
some of the text to be left, and this is what `Leaves` says.

The lemmas for what does not look at the text come first, `Tailed.ask`, `Tailed.setMode`
and their neighbours; for these the tails play no part.  Then come the functions that skip
and pass characters, each under the condition that it stops `Inside` the text, and the
cases of reading a token, which put these together (`TokenRead.tailed`).  A command on a
line and a block have lemmas of their own, because each of them looks for the character
that ends it and not just at the next ones: `Tailed.command` needs the line break to be in
the text, `Tailed.blockText` the braces.

Two uses are made of this.  Where spaces are put behind a token
(`RcScript.Proofs.Scanner.Spaced`), the tails are the rest of the script and the same rest
behind these spaces.  Where two scanners have come to stand before the same rest in
different scripts, there are no tails, every step is inside, and the two go on alike to
the end of input.
-/

import RcScript.Proofs.Scanner.Extended
import RcScript.Proofs.Scanner.Longer
import RcScript.Proofs.Scanner.Listing

namespace RcScript

namespace Lexeme

/-- What ends a word before it begins. -/
theorem word_cons_eq_nil_iff {c : Char} {cs : List Char} :
    word (c :: cs) = [] ↔ Text.isSpace c = true ∨ c = ';' ∨ c = '}' ∧ cs.head? = some '}' := by
  by_cases hb : c = '}' ∧ cs.head? = some '}'
  · obtain ⟨rfl, hcs⟩ := hb
    obtain ⟨tail, rfl⟩ := List.head?_eq_some_iff.1 hcs
    simp [word]
  · rw [word]
    · simp only [ite_eq_left_iff, reduceCtorEq, imp_false, not_not, Bool.or_eq_true,
        decide_eq_true_eq, hb, or_false]
    · rintro tail rfl rfl
      exact hb ⟨rfl, rfl⟩

/-- A word of more than one character goes on with a word. -/
theorem word_cons_eq_cons_iff {c : Char} {cs l : List Char} :
    word (c :: cs) = c :: l ↔ word (c :: cs) ≠ [] ∧ word cs = l := by
  by_cases hb : c = '}' ∧ cs.head? = some '}'
  · have hnil : word (c :: cs) = [] := word_cons_eq_nil_iff.2 (.inr (.inr hb))
    simp [hnil]
  · rw [word]
    · split <;> simp
    · rintro tail rfl rfl
      exact hb ⟨rfl, rfl⟩

/-- Every word that ends before the one text ends before the other as well. -/
def EndAlike (r r' : List Char) : Prop := ∀ l, word (l ++ r) = l → word (l ++ r') = l

/-- A text ends words as it does. -/
theorem endAlike_refl (r : List Char) : EndAlike r r := fun _ h => h

/-- Before a space any word ends. -/
theorem endAlike_of_isSpace {r r' : List Char} (h : ∃ c ∈ r'.head?, Text.isSpace c = true) :
    EndAlike r r' := by
  intro l hl
  obtain ⟨c, hc, hspace⟩ := h
  refine word_append (fun d hd => not_stop_of_mem_word (hl.symm ▸ hd))
    (hl ▸ holdsClosingBraces_word _) fun d hd => ?_
  obtain rfl : c = d := Option.some.inj (hc.symm.trans hd)
  exact .inl hspace

/-- A text ends words alike whatever comes after it, unless it is a brace that another one
follows. -/
theorem endAlike_append {y v : List Char} (hne : y ≠ []) (hb : y = ['}'] → v.head? ≠ some '}')
    (v' : List Char) : EndAlike (y ++ v) (y ++ v') := by
  obtain ⟨c, y, rfl⟩ := List.exists_cons_of_ne_nil hne
  intro l
  induction l with
  | nil =>
    simp only [List.nil_append, List.cons_append, word_cons_eq_nil_iff]
    refine Or.imp_right (Or.imp_right ?_)
    rintro ⟨rfl, hy⟩
    cases y with
    | nil => exact absurd hy (hb rfl)
    | cons d y => exact ⟨rfl, hy⟩
  | cons d l ih =>
    simp only [List.cons_append, word_cons_eq_cons_iff]
    rintro ⟨hd, hl⟩
    refine ⟨fun hd' => hd ?_, ih hl⟩
    rw [word_cons_eq_nil_iff] at hd' ⊢
    refine hd'.imp_right (Or.imp_right (And.imp_right fun hh => ?_))
    cases l with
    | nil => exact hh
    | cons e l => exact hh

/-- A word that is read before another text does not begin with braces there either: the
second brace would be part of it. -/
theorem ne_openBraces {l r r' : List Char} (hne : l ≠ []) (hl : word (l ++ r') = l)
    (h : ∀ tail, l ++ r ≠ '{' :: '{' :: tail) (tail : List Char) :
    l ++ r' ≠ '{' :: '{' :: tail := by
  intro hr
  obtain ⟨c, l, rfl⟩ := List.exists_cons_of_ne_nil hne
  cases l with
  | nil =>
    obtain ⟨-, rfl⟩ := List.cons_eq_cons.1 hr
    have hnil : word ('{' :: tail) = [] := (word_cons_eq_cons_iff.1 hl).2
    have hspace : Text.isSpace '{' = false := by decide
    simp [word_cons_eq_nil_iff, hspace] at hnil
  | cons d l =>
    simp only [List.cons_append, List.cons.injEq] at hr
    obtain ⟨rfl, rfl, -⟩ := hr
    exact h (l ++ r) rfl

end Lexeme

/-- Whether a token is a word, a semicolon of the script, or opening braces: what spaces may
follow without being a part of it, or taken for one. -/
def Token.Spaceable (token : Token) : Prop :=
  token.kind = .word ∨ token.kind = .openBraces ∨ token.kind = .semicolon ∧ token.text = ";"

namespace Scanner

variable {s s' t : Scanner} {x y z v v' : List Char}

/-- Two scanners in the same state, the one before a text and a tail, and the other before
the same text and another tail. -/
structure Tailed (x v v' : List Char) (s s' : Scanner) : Prop where
  level : Level s s'
  fault : s'.fault.isSome = s.fault.isSome
  rest : s.rest = x ++ v
  rest' : s'.rest = x ++ v'

/-- What is left to read reaches into the text before the tails, if there are tails. -/
def Inside (v v' r : List Char) : Prop := v.length < r.length ∨ v = [] ∧ v' = []

/-- Where nothing is left inside the text there are no tails. -/
theorem Inside.eq_nil {r : List Char} (h : Inside v v' r) (hr : r = []) : v' = [] := by
  refine (h.resolve_left fun hlt => ?_).2
  rw [hr] at hlt
  exact Nat.not_lt_zero _ hlt

section
variable (h : Tailed x v v' s s')
include h

/-- The same request keeps scanners before their tails. -/
theorem Tailed.ask (begins : Bool) : Tailed x v v' (s.ask begins) (s'.ask begins) :=
  { h with level := h.level.ask begins }

/-- Using up mode and request keeps scanners before their tails. -/
theorem Tailed.resume : Tailed x v v' s.resume s'.resume := { h with level := h.level.resume }

/-- Taking the same mode keeps scanners before their tails. -/
theorem Tailed.setMode (mode : Mode) :
    Tailed x v v' { s with mode := mode } { s' with mode := mode } :=
  { h with level := h.level.setMode mode }

/-- Being asked alike keeps scanners before their tails. -/
theorem Tailed.setBegins (begins : Bool) :
    Tailed x v v' { s with beginsStatement := begins } { s' with beginsStatement := begins } :=
  { h with level := h.level.setBegins begins }

/-- Opening a line list keeps scanners before their tails. -/
theorem Tailed.openLine :
    Tailed x v v' { s with lineLists := s.lineLists + 1 }
      { s' with lineLists := s'.lineLists + 1 } :=
  { h with level := h.level.openLine }

/-- Opening braces keeps scanners before their tails. -/
theorem Tailed.openBraces (ofList : Bool) :
    Tailed x v v' (s.openBraces ofList) (s'.openBraces ofList) :=
  { h with level := h.level.openBraces ofList }

/-- Closing braces keeps scanners before their tails. -/
theorem Tailed.closeBraces : Tailed x v v' s.closeBraces s'.closeBraces := by
  have hl := h.level.closeBraces
  rw [closeBraces_eq, closeBraces_eq] at hl ⊢
  exact { h with level := hl }

/-- Paying a marker keeps scanners before their tails. -/
theorem Tailed.payOne :
    Tailed x v v' { s with owed := s.owed - 1, beginsStatement := true }
      { s' with owed := s'.owed - 1, beginsStatement := true } :=
  { h with level := h.level.payOne }

/-- Holding tokens of the same kind keeps scanners before their tails. -/
theorem Tailed.hold {token token' : Token} (hk : token'.kind = token.kind) :
    Tailed x v v' (s.hold token) (s'.hold token') := { h with level := h.level.hold hk }

/-- Meeting a fault keeps scanners before their tails. -/
theorem Tailed.halt (fault fault' : Fault) : Tailed x v v' (s.halt fault) (s'.halt fault') :=
  { h with level := { h.level with done := rfl }, fault := rfl }

/-- What the text begins with is what a scanner passes before some of the text. -/
theorem Tailed.eq_append {l r : List Char} (hl : s.rest = l ++ r)
    (hy : (s.forward l.length).rest = y ++ v) : x = l ++ y := by
  have hx := h.rest
  rw [rest_forward, hl, List.drop_left] at hy
  rw [hl, hy, ← List.append_assoc] at hx
  exact (List.append_cancel_right hx).symm

/-- Inside the text the next character is the same. -/
theorem Tailed.exists_cons {c : Char} {cs : List Char} (hin : Inside v v' s.rest)
    (hr : s.rest = c :: cs) : ∃ cs', s'.rest = c :: cs' := by
  have hx := h.rest.symm.trans hr
  cases x with
  | nil =>
    rcases hin with hlt | ⟨rfl, -⟩
    · exact absurd hlt (Nat.not_lt_of_le (Nat.le_of_eq (congrArg List.length h.rest)))
    · cases hx
  | cons d x =>
    obtain ⟨rfl, -⟩ := List.cons_eq_cons.1 hx
    exact ⟨x ++ v', h.rest'⟩

/-- A scanner that stops inside the text stops there whatever the tail is. -/
theorem Tailed.skipWhile {p : Char → Bool} (hin : Inside v v' (s.skipWhile p).rest) :
    Tailed (x.dropWhile p) v v' (s.skipWhile p) (s'.skipWhile p) := by
  have hne : x.dropWhile p ≠ [] ∨ v = [] ∧ v' = [] := by
    refine hin.imp_left fun hlt he => ?_
    rw [rest_skipWhile, h.rest, List.dropWhile_append, he] at hlt
    exact Nat.not_lt_of_le (List.dropWhile_sublist p).length_le hlt
  have hdrop : ∀ tail, (x.dropWhile p ≠ [] ∨ tail = []) →
      (x ++ tail).dropWhile p = x.dropWhile p ++ tail := by
    rintro tail (hx | rfl)
    · rw [List.dropWhile_append, if_neg (by simpa using hx)]
    · rw [List.append_nil, List.append_nil]
  refine { h with level := { h.level with }, rest := ?_, rest' := ?_ }
  · rw [rest_skipWhile, h.rest, hdrop v (hne.imp_right And.left)]
  · rw [rest_skipWhile, h.rest', hdrop v' (hne.imp_right And.right)]

/-- Blanks are skipped alike where the text is not over. -/
theorem Tailed.skipBlanks (hin : Inside v v' s.skipBlanks.rest) :
    Tailed (x.dropWhile Text.isBlank) v v' s.skipBlanks s'.skipBlanks := h.skipWhile hin

/-- What separates tokens is skipped alike where the text is not over. -/
theorem Tailed.skip (hin : Inside v v' s.skip.rest) :
    ∃ z, Tailed z v v' s.skip s'.skip := by
  rw [Scanner.skip, Scanner.skip, h.level.lists]
  exact ⟨_, h.skipWhile hin⟩

end

/-- Characters of the text are passed alike. -/
theorem Tailed.forward {l : List Char} (h : Tailed (l ++ y) v v' s s') :
    Tailed y v v' (s.forward l.length) (s'.forward l.length) := by
  refine { h with level := { h.level with }, rest := ?_, rest' := ?_ }
  · rw [rest_forward, h.rest, List.append_assoc, List.drop_left]
  · rw [rest_forward, h.rest', List.append_assoc, List.drop_left]

/-- The end of a line in the text is passed; the end of the script is, if both end. -/
theorem Tailed.endLine (h : Tailed x v v' s s') (extra : Int)
    (hy : (s.endLine extra).rest = y ++ v)
    (hr : (s.rest = [] ∧ v' = []) ∨ ∃ cs, s.rest = '\n' :: cs) :
    Tailed y v v' (s.endLine extra) (s'.endLine extra) ∧
      (s'.rest = [] ∨ ∃ cs, s'.rest = '\n' :: cs) := by
  rcases hr with ⟨hr, rfl⟩ | ⟨cs, hr⟩
  · obtain ⟨rfl, rfl⟩ := List.append_eq_nil_iff.1 (h.rest.symm.trans hr)
    have hr' : s'.rest = [] := h.rest'
    refine ⟨{ h with level := h.level.endLine extra, rest := hy, rest' := ?_ }, .inl hr'⟩
    rw [← hy, rest_endLine, rest_endLine, hr, hr']
  · have hforward : (s.forward 1).rest = (s.endLine extra).rest := by
      rw [rest_endLine, rest_forward, hr]
      rfl
    obtain rfl := h.eq_append (l := ['\n']) hr (hforward.trans hy)
    have hr' : s'.rest = '\n' :: (y ++ v') := h.rest'
    refine ⟨{ h with level := h.level.endLine extra, rest := hy, rest' := ?_ }, .inr ⟨_, hr'⟩⟩
    rw [rest_endLine, hr']
    rfl

/-- What is read is what comes after the spaces, or less. -/
theorem TokenRead.length_le {begins : Bool} {token : Token} {after : Scanner}
    (read : TokenRead begins s token after) : after.rest.length ≤ s.skip.rest.length := by
  cases read with
  | finish => exact Nat.le_refl _
  | lineEnd =>
    refine Nat.le_trans (Nat.le_of_eq (congrArg List.length (rest_endLine 0 s.skip))) ?_
    rw [List.length_drop]
    exact Nat.sub_le ..
  | closeBraces =>
    rw [rest_closeBraces]
    exact length_forward_le 2 _
  | separator | openBraces | colon | sigil | word => exact length_forward_le _ _

/-- **A token is read before either tail** if it begins in the text, and a word if it ends
alike. -/
theorem TokenRead.tailed {begins : Bool} {token : Token} {after : Scanner}
    (read : TokenRead begins s token after) (h : Tailed x v v' s s')
    (hin : Inside v v' s.skip.rest) (hy : after.rest = y ++ v)
    (hw : token.kind = .word → Lexeme.EndAlike (y ++ v) (y ++ v')) :
    ∃ token' after', TokenRead begins s' token' after' ∧ token'.kind = token.kind ∧
      token'.text = token.text ∧ Tailed y v v' after after' := by
  obtain ⟨z, hs⟩ := h.skip hin
  cases read with
  | finish rest lists =>
    obtain rfl := hin.eq_nil rest
    obtain ⟨rfl, rfl⟩ := List.append_eq_nil_iff.1 (hs.rest.symm.trans rest)
    obtain ⟨rfl, -⟩ := List.append_eq_nil_iff.1 (hy.symm.trans rest)
    exact ⟨_, _, .finish hs.rest' (h.level.lists.trans lists), rfl, rfl, hs⟩
  | lineEnd rest lists =>
    obtain ⟨h', rest'⟩ := hs.endLine 0 hy (rest.imp_left fun hr => ⟨hr, hin.eq_nil hr⟩)
    exact ⟨_, _, .lineEnd rest' (h.level.lists ▸ lists), rfl, rfl, h'.payOne⟩
  | @separator cs rest =>
    obtain rfl := hs.eq_append (l := [';']) rest hy
    exact ⟨_, _, .separator hs.rest', rfl, rfl, hs.forward.setBegins true⟩
  | @openBraces cs rest =>
    obtain rfl := hs.eq_append (l := ['{', '{']) rest hy
    exact ⟨_, _, .openBraces hs.rest', rfl, rfl, hs.forward.openBraces false⟩
  | @closeBraces cs rest =>
    rw [rest_closeBraces] at hy
    obtain rfl := hs.eq_append (l := ['}', '}']) rest hy
    exact ⟨_, _, .closeBraces hs.rest', rfl, rfl, (hs.forward.setMode .terminator).closeBraces⟩
  | @colon cs rest head =>
    obtain rfl := hs.eq_append (l := [':']) rest hy
    exact ⟨_, _, .colon hs.rest' head, rfl, rfl, hs.forward.setMode .colon⟩
  | @sigil g cs rest head =>
    obtain rfl := hs.eq_append (l := [g.char]) rest hy
    exact ⟨_, _, .sigil hs.rest' head, rfl, rfl, hs.forward.setMode .sigil⟩
  | @word c cs rest opens closes space separator head =>
    have hcons := word_cons rest closes space separator
    generalize hl : Lexeme.word s.skip.rest = l at hy hcons
    have hsplit : s.skip.rest = l ++ (y ++ v) := by
      rw [← hy, rest_forward, ← hl, Lexeme.word_append_drop]
    obtain rfl := hs.eq_append hsplit hy
    have hrest' : s'.skip.rest = l ++ (y ++ v') := by rw [hs.rest', List.append_assoc]
    have hl' : Lexeme.word s'.skip.rest = l := by
      rw [hrest']
      exact hw rfl l (hsplit ▸ hl)
    subst hcons
    have hopens : ∀ tail, s'.skip.rest ≠ '{' :: '{' :: tail := by
      rw [hrest'] at hl' ⊢
      exact Lexeme.ne_openBraces (List.cons_ne_nil _ _) hl' (hsplit ▸ opens)
    have hcloses : ∀ tail, s'.skip.rest ≠ '}' :: '}' :: tail := by
      intro tail hc
      rw [hc] at hl'
      exact absurd hl' (by simp [Lexeme.word])
    have read' : TokenRead begins s' _ _ :=
      .word (c := c) hrest' hopens hcloses space separator head
    rw [hl'] at read'
    exact ⟨_, _, read', rfl, rfl, hs.forward⟩

/-- A token that spaces may follow is read from at least one character. -/
theorem TokenRead.length_lt {begins : Bool} {token : Token} {after : Scanner}
    (read : TokenRead begins s token after) (hk : token.Spaceable) :
    after.rest.length < s.skip.rest.length := by
  cases read with
  | finish => rcases hk with hk | hk | ⟨hk, -⟩ <;> cases hk
  | lineEnd => rcases hk with hk | hk | ⟨-, hk⟩ <;> simp [Token.newlineAt] at hk
  | closeBraces => rcases hk with hk | hk | ⟨hk, -⟩ <;> cases hk
  | colon => rcases hk with hk | hk | ⟨hk, -⟩ <;> cases hk
  | sigil => rcases hk with hk | hk | ⟨hk, -⟩ <;> cases hk
  | separator rest => exact length_forward_lt (by decide) (by simp [rest])
  | openBraces rest => exact length_forward_lt (by decide) (by simp [rest])
  | word rest opens closes space separator =>
    refine length_forward_lt ?_ (by simp [rest])
    simp [word_cons rest closes space separator]

/-- What a step leaves has to be read alike before either tail: some of the text, or none
of it after a token that spaces may follow. -/
def Leaves (v v' y : List Char) (t : Scanner) : Prop :=
  v = [] ∧ v' = [] ∨
    t.fault = none ∧ Lexeme.EndAlike (y ++ v) (y ++ v') ∧
      (y ≠ [] ∨ t.mode = .normal ∧ t.token.Spaceable)

/-- Where a step leaves what it must, a word would end alike there. -/
theorem Leaves.endAlike (h : Leaves v v' y t) : Lexeme.EndAlike (y ++ v) (y ++ v') := by
  rcases h with ⟨rfl, rfl⟩ | ⟨-, h, -⟩
  · exact Lexeme.endAlike_refl _
  · exact h

/-- After a token that no spaces may follow some of the text is left. -/
theorem Leaves.ne_nil (h : Leaves v v' y t) (ht : ¬(t.mode = .normal ∧ t.token.Spaceable)) :
    y ≠ [] ∨ v = [] ∧ v' = [] := by
  rcases h with h | ⟨-, -, h⟩
  · exact .inr h
  · exact .inl (h.resolve_right ht)

/-- After a fault there are no tails. -/
theorem Leaves.eq_nil_of_fault (h : Leaves v v' y t) (hf : t.fault ≠ none) : v = [] ∧ v' = [] :=
  h.resolve_right fun h => hf h.1

/-- What leaves some of the text was inside the text. -/
theorem inside_of_ne_nil {r : List Char} (h : y ≠ [] ∨ v = [] ∧ v' = []) (hy : t.rest = y ++ v)
    (hle : t.rest.length ≤ r.length) : Inside v v' r := by
  refine h.imp_left fun hne => ?_
  have := List.length_pos_iff.2 hne
  rw [hy, List.length_append] at hle
  omega

/-- Where some characters have been passed and the tail is still there, what was left before
reached into the text. -/
theorem inside_of_lt {r : List Char} (hy : t.rest = y ++ v) (hlt : t.rest.length < r.length) :
    Inside v v' r := by
  rw [hy, List.length_append] at hlt
  exact .inl (Nat.lt_of_le_of_lt (Nat.le_add_left ..) hlt)

/-- A token that is read begins inside the text. -/
theorem Leaves.inside {begins : Bool} {token : Token} {u after : Scanner}
    (h : Leaves v v' y (after.hold token)) (hy : after.rest = y ++ v)
    (read : TokenRead begins u token after) : Inside v v' u.skip.rest := by
  by_cases hk : (after.hold token).mode = .normal ∧ (after.hold token).token.Spaceable
  · exact inside_of_lt hy (read.length_lt hk.2)
  · exact inside_of_ne_nil (h.ne_nil hk) hy read.length_le

/-- The text of a command on a line is the same before either tail: the line break that ends
it is in the text, if there is one. -/
theorem Tailed.command {text : List Char} (h : Tailed x v v' s s')
    (hmore : y ≠ [] ∨ v = [] ∧ v' = [])
    (hy : ((s.forward text.length).endLine 1).rest = y ++ v) (rest : s.rest ≠ [])
    (opens : ∀ cs, s.rest ≠ '{' :: '{' :: cs) (space : ∀ cs, s.rest ≠ '\n' :: cs)
    (found : Lexeme.commandText s.rest = some text) :
    s'.rest ≠ [] ∧ (∀ cs, s'.rest ≠ '{' :: '{' :: cs) ∧ (∀ cs, s'.rest ≠ '\n' :: cs) ∧
      Lexeme.commandText s'.rest = some text ∧
        Tailed y v v' ((s.forward text.length).endLine 1)
          ((s'.forward text.length).endLine 1) := by
  obtain ⟨hb, hd, after, ha, hend⟩ := Lexeme.of_commandText found
  have hafter : (s.forward text.length).rest = after := by
    rw [rest_forward, ha, List.drop_left]
  obtain ⟨z, hz, hline⟩ : ∃ z, after = z ++ v ∧
      ((after = [] ∧ v' = []) ∨ ∃ cs, after = '\n' :: cs) := by
    have hrest : after.drop (if after.head? = some Text.lineBreak then 1 else 0) = y ++ v := by
      rw [← hafter, ← rest_endLine 1]
      exact hy
    cases after with
    | nil =>
      obtain ⟨rfl, rfl⟩ := List.append_eq_nil_iff.1 hrest.symm
      exact ⟨[], rfl, .inl ⟨rfl, (hmore.resolve_left (absurd rfl)).2⟩⟩
    | cons c cs =>
      obtain rfl : c = '\n' := hend c rfl
      exact ⟨'\n' :: y, congrArg ('\n' :: ·) hrest, .inr ⟨cs, rfl⟩⟩
  rw [h.eq_append (l := text) (ha.trans rfl) (hafter.trans hz)] at h
  have hforward := h.forward
  obtain ⟨h', hline'⟩ := hforward.endLine 1 hy (hafter ▸ hline)
  have hrest' : s'.rest = text ++ (z ++ v') := by
    rw [h.rest', List.append_assoc]
  rw [hforward.rest'] at hline'
  have htext := Lexeme.commandText_ne_nil found rest space
  refine ⟨by simp [hrest', htext], ?_, ?_, ?_, h'⟩
  · rw [hrest']
    refine append_ne_of_ne (fun cs hc => opens (cs ++ after) ?_) htext (.inr ?_)
    · rw [ha, hc]
      rfl
    · obtain hr | ⟨cs, hr⟩ := hline' <;> simp [hr]
  · obtain ⟨c, text, rfl⟩ := List.exists_cons_of_ne_nil htext
    rw [hrest']
    rintro _ ⟨⟩
    exact space _ ha
  · rw [hrest', Lexeme.commandText_append hb hd]
    obtain hr | ⟨cs, hr⟩ := hline' <;> simp [hr, Lexeme.commandText]

/-- The text of a block is the same before either tail: the braces that end it end a word
before the one tail, and so before the other. -/
theorem Tailed.blockText {text : List Char} (h : Tailed x v v' s s')
    (hmore : y ≠ [] ∨ v = [] ∧ v' = []) (hends : Lexeme.EndAlike (y ++ v) (y ++ v'))
    (hy : (s.forward text.length).rest = y ++ v) (found : Lexeme.blockText s.rest = some text) :
    Lexeme.blockText s'.rest = some text ∧
      Tailed y v v' (s.forward text.length) (s'.forward text.length) := by
  obtain ⟨hh, hlast, after, ha⟩ := Lexeme.of_blockText found
  have hafter : y ++ v = '}' :: '}' :: after := by
    rw [← hy, rest_forward, ha, List.drop_left]
  obtain ⟨after', hafter'⟩ : ∃ after', y ++ v' = '}' :: '}' :: after' := by
    rcases hmore with hne | ⟨rfl, rfl⟩
    · obtain ⟨c, y, rfl⟩ := List.exists_cons_of_ne_nil hne
      obtain ⟨rfl, -⟩ := List.cons_eq_cons.1 hafter
      have hnil : Lexeme.word ('}' :: (y ++ v')) = [] :=
        hends [] (by simp [hafter, Lexeme.word])
      have hspace : Text.isSpace '}' = false := by decide
      simp only [Lexeme.word_cons_eq_nil_iff, hspace, Bool.false_eq_true, Char.reduceEq,
        false_or, true_and] at hnil
      obtain ⟨tail, htail⟩ := List.head?_eq_some_iff.1 hnil
      exact ⟨tail, congrArg ('}' :: ·) htail⟩
    · exact ⟨after, hafter⟩
  rw [h.eq_append (l := text) ha hy] at h
  refine ⟨?_, h.forward⟩
  rw [h.rest', List.append_assoc, hafter']
  exact Lexeme.blockText_append hh hlast after'

/-- **The steps before either tail are the same** as long as they end in the text. -/
theorem Step.tailed (step : Step s t) (h : Tailed x v v' s s') (hy : t.rest = y ++ v)
    (hl : Leaves v v' y t) :
    ∃ t', Step s' t' ∧ t'.token.kind = t.token.kind ∧ t'.token.text = t.token.text ∧
      Tailed y v v' t t' := by
  have howed := h.level.owed
  have hmode := h.level.mode
  cases step with
  | owed owed =>
    obtain rfl : x = y := List.append_cancel_right (h.rest.symm.trans hy)
    exact ⟨_, .owed (howed ▸ owed), rfl, rfl, h.payOne.hold rfl⟩
  | token owed mode read =>
    obtain ⟨token', after', read', hkind, htext, h'⟩ :=
      read.tailed h.resume (hl.inside hy read) hy fun _ => hl.endAlike
    rw [← h.level.begins] at read'
    exact ⟨_, .token (howed.trans owed) (hmode.trans mode) read', hkind, htext, h'.hold hkind⟩
  | @bracedList cs owed mode rest =>
    have hlt := length_forward_lt (n := 2) (by decide) (by rw [rest]; exact List.cons_ne_nil _ _)
    have hs := h.resume.skipBlanks (inside_of_lt hy hlt)
    rw [hs.eq_append (l := ['{', '{']) rest hy] at hs
    exact ⟨_, .bracedList (howed.trans owed) (hmode.trans mode) hs.rest', rfl, rfl,
      ((hs.setBegins true).forward.openBraces true).hold rfl⟩
  | @lineList token after owed mode rest read =>
    have hskip : { s.resume.skipBlanks with lineLists := s.lineLists + 1 }.skip.rest =
        s.resume.skipBlanks.rest := rest_skip_openLine s
    have hin : Inside v v' s.resume.skipBlanks.rest := hskip ▸ hl.inside hy read
    have hs := h.resume.skipBlanks hin
    have hopen : Tailed _ v v' { s.resume.skipBlanks with lineLists := s.lineLists + 1 }
        { s'.resume.skipBlanks with lineLists := s'.lineLists + 1 } := hs.openLine
    obtain ⟨token', after', read', hkind, htext, h'⟩ :=
      read.tailed hopen (hl.inside hy read) hy fun _ => hl.endAlike
    have rest' : ∀ cs, s'.resume.skipBlanks.rest ≠ '{' :: '{' :: cs := by
      -- braces before the other tail would be read as braces here too
      intro cs hc
      have hk := hkind.symm.trans (read'.kind_of_openBraces ((rest_skip_openLine s').trans hc))
      exact read.kind_ne_openBraces rest hk
    exact ⟨_, .lineList (howed.trans owed) (hmode.trans mode) rest' read', hkind, htext,
      h'.hold hkind⟩
  | @block cs owed mode rest =>
    have hlt := length_forward_lt (n := 2) (by decide) (by rw [rest]; exact List.cons_ne_nil _ _)
    have hs := h.resume.skipBlanks (inside_of_lt hy hlt)
    rw [hs.eq_append (l := ['{', '{']) rest hy] at hs
    exact ⟨_, .block (howed.trans owed) (hmode.trans mode) hs.rest', rfl, rfl,
      ((hs.forward.openBraces false).setMode .block).hold rfl⟩
  | noCommand owed mode rest =>
    obtain ⟨rfl, rfl⟩ := hl.eq_nil_of_fault (Option.some_ne_none _)
    have hs := h.resume.skipBlanks (.inr ⟨rfl, rfl⟩)
    have hr := hs.rest'.trans hs.rest.symm
    obtain rfl := List.append_cancel_right (hs.rest.symm.trans hy)
    exact ⟨_, .noCommand (howed.trans owed) (hmode.trans mode) (hr ▸ rest), rfl, rfl,
      hs.halt _ _⟩
  | openCommand owed mode opens found =>
    obtain ⟨rfl, rfl⟩ := hl.eq_nil_of_fault (Option.some_ne_none _)
    have hs := h.resume.skipBlanks (.inr ⟨rfl, rfl⟩)
    have hr := hs.rest'.trans hs.rest.symm
    have found' := (congrArg Lexeme.commandText hr).trans found
    have step' := Step.openCommand (howed.trans owed) (hmode.trans mode) (hr ▸ opens) found'
    have hforward := hs.eq_append (l := s.resume.skipBlanks.rest) (List.append_nil _).symm hy
    rw [hforward] at hs
    rw [hr] at step'
    exact ⟨_, step', rfl, rfl, hs.forward.halt _ _⟩
  | @command text owed mode rest opens space found =>
    have hmore := hl.ne_nil (by rintro ⟨-, hk | hk | ⟨hk, -⟩⟩ <;> cases hk)
    have hle : ((s.resume.skipBlanks.forward text.length).endLine 1).rest.length ≤
        s.resume.skipBlanks.rest.length := by
      rw [rest_endLine, List.length_drop]
      exact Nat.le_trans (Nat.sub_le ..) (length_forward_le _ _)
    have hs := h.resume.skipBlanks (inside_of_ne_nil hmore hy hle)
    obtain ⟨rest', opens', space', found', h'⟩ := hs.command hmore hy rest opens space found
    exact ⟨_, .command (howed.trans owed) (hmode.trans mode) rest' opens' space' found', rfl, rfl,
      h'.hold rfl⟩
  | openBlock owed mode rest =>
    obtain ⟨rfl, rfl⟩ := hl.eq_nil_of_fault (Option.some_ne_none _)
    have hr := h.rest'.trans h.rest.symm
    have rest' := (congrArg Lexeme.blockText hr).trans rest
    obtain rfl := List.append_cancel_right (h.rest.symm.trans hy)
    exact ⟨_, .openBlock (howed.trans owed) (hmode.trans mode) rest', rfl, rfl,
      h.resume.halt _ _⟩
  | @blockText text owed mode found =>
    have hmore := hl.ne_nil (by rintro ⟨-, hk | hk | ⟨hk, -⟩⟩ <;> cases hk)
    obtain ⟨found', h'⟩ := h.resume.blockText hmore hl.endAlike hy found
    exact ⟨_, .blockText (howed.trans owed) (hmode.trans mode) found', rfl, rfl, h'.hold rfl⟩
  | @terminator cs token after owed mode rest read =>
    have hskip := rest_skip rest (by decide)
    have hin : Inside v v' s.resume.skipBlanks.rest :=
      (rest.trans hskip.symm) ▸ hl.inside hy read
    have hs := h.resume.skipBlanks hin
    obtain ⟨token', after', read', hkind, htext, h'⟩ :=
      read.tailed hs (hl.inside hy read) hy fun _ => hl.endAlike
    rw [← h.level.begins] at read'
    obtain ⟨cs', rest'⟩ := hs.exists_cons hin rest
    exact ⟨_, .terminator (howed.trans owed) (hmode.trans mode) rest' read', hkind, htext,
      h'.hold hkind⟩
  | lineEnd owed mode rest =>
    have hmore := hl.ne_nil (by rintro ⟨-, hk | hk | ⟨-, hk⟩⟩ <;> simp [Token.newlineAt] at hk)
    have hle : (s.resume.skipBlanks.endLine 1).rest.length ≤ s.resume.skipBlanks.rest.length := by
      rw [rest_endLine, List.length_drop]
      exact Nat.sub_le ..
    have hin : Inside v v' s.resume.skipBlanks.rest := inside_of_ne_nil hmore hy hle
    have hs := h.resume.skipBlanks hin
    obtain ⟨h', rest'⟩ := hs.endLine 1 hy (rest.imp_left fun hr => ⟨hr, hin.eq_nil hr⟩)
    exact ⟨_, .lineEnd (howed.trans owed) (hmode.trans mode) rest', rfl, rfl, h'.payOne.hold rfl⟩
  | @stray c cs owed mode rest space separator =>
    obtain ⟨rfl, rfl⟩ := hl.eq_nil_of_fault (Option.some_ne_none _)
    have hs := h.resume.skipBlanks (.inr ⟨rfl, rfl⟩)
    have hr := (hs.rest'.trans hs.rest.symm).trans rest
    obtain rfl := List.append_cancel_right (hs.rest.symm.trans hy)
    exact ⟨_, .stray (howed.trans owed) (hmode.trans mode) hr space separator, rfl, rfl,
      hs.halt _ _⟩

/-- **A look before either tail is the same** as long as it ends in the text. -/
theorem Tailed.look (h : Tailed x v v' s s') (hd : s.done = false) (hy : s.look.rest = y ++ v)
    (hl : Leaves v v' y s.look) :
    s'.look.token.kind = s.look.token.kind ∧ s'.look.token.text = s.look.token.text ∧
      Tailed y v v' s.look s'.look := by
  obtain ⟨t', step', hkind, htext, h'⟩ := (step_look hd).tailed h hy hl
  rw [step'.eq_look (h.level.done.trans hd)]
  exact ⟨hkind, htext, h'⟩

/-- Two runs to the end of input are the same, but for the places of their tokens: they have
the same kinds and texts, and both end with a fault or neither does. -/
def SameRun (run run' : List Token × Scanner) : Prop :=
  run'.1.map (fun token => (token.kind, token.text)) =
      run.1.map (fun token => (token.kind, token.text)) ∧
    run'.2.fault.isSome = run.2.fault.isSome

/-- Runs that are the same are so with the same token before them. -/
theorem SameRun.cons {run run' : List Token × Scanner} {token token' : Token}
    (h : SameRun run run') (hk : token'.kind = token.kind) (ht : token'.text = token.text) :
    SameRun (token :: run.1, run.2) (token' :: run'.1, run'.2) := by
  refine ⟨?_, h.2⟩
  rw [List.map_cons, List.map_cons, h.1, hk, ht]

/-- Without tails a scan is the same. -/
theorem Tailed.scan (h : Tailed s.rest [] [] s s') (hk : s'.token.kind = s.token.kind)
    (ht : s'.token.text = s.token.text) (begins : Bool) :
    (s'.scan begins).token.kind = (s.scan begins).token.kind ∧
      (s'.scan begins).token.text = (s.scan begins).token.text ∧
        Tailed (s.scan begins).rest [] [] (s.scan begins) (s'.scan begins) := by
  cases hd : s.done with
  | true =>
    rw [scan_of_done hd, scan_of_done (h.level.done.trans hd)]
    exact ⟨hk, ht, h⟩
  | false =>
    rw [← look_ask hd, ← look_ask (h.level.done.trans hd)]
    exact (h.ask begins).look hd (List.append_nil _).symm (.inl ⟨rfl, rfl⟩)

/-- Without tails as many scans are left. -/
theorem Tailed.scansLeft (h : Tailed x [] [] s s') : s'.scansLeft = s.scansLeft := by
  simp only [Scanner.scansLeft, peakLists, openLists, h.level.done, h.level.owed, h.level.lists,
    h.level.mode, h.level.saved, h.rest, h.rest']

/-- **Scanners in the same state with the same text left have the same run.** -/
theorem Tailed.sameRun (h : Tailed s.rest [] [] s s') (hk : s'.token.kind = s.token.kind)
    (ht : s'.token.text = s.token.text) (flags : List Bool) :
    SameRun (s.tokens flags) (s'.tokens flags) := by
  have hone : SameRun ([s.token], s) ([s'.token], s') :=
    ⟨by simp [hk, ht], h.fault⟩
  fun_induction Scanner.tokens flags s generalizing s' with
  | case1 flags s hend =>
    rw [Scanner.tokens, if_pos (hk.trans hend)]
    exact hone
  | case2 flags s hmore hlt tokens final hrun ih =>
    obtain ⟨hk', ht', h'⟩ := h.scan hk ht (flags.head?.getD false)
    rw [Scanner.tokens, if_neg (hk ▸ hmore), dif_pos (by rw [h.scansLeft, h'.scansLeft]; exact hlt)]
    have hrest := ih h' hk' ht' ⟨by simp [hk', ht'], h'.fault⟩
    rw [hrun] at hrest
    exact hrest.cons hk ht
  | case3 flags s hmore hle =>
    have h' := (h.scan hk ht (flags.head?.getD false)).2.2
    rw [Scanner.tokens, if_neg (hk ▸ hmore), dif_neg (by rw [h.scansLeft, h'.scansLeft]; exact hle)]
    exact hone

end Scanner
end RcScript
