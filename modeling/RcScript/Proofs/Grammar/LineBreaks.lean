/-
# Which line breaks a line list passes

A line break is `Hidden` in a phrase when it is in the text of a command, or between the
braces of a list.  Inside a line list a phrase passes no other line breaks, unless one of
them ends the line: then all line lists that are open there are closed by it, and the
markers for them come next (`Derives.outcome`).

Offsets are used throughout, so that statements about different scanners can be compared:
a token stands at one offset, a line break at another, and what lies between them is text
(`Screened`).  A scanner is followed by what it has read of the whole script (`Behind`) and
by where it stands (`Amid`), and what comes of a phrase in a line list is one of two
things (`Outcome`): either all lists that were open are open still, and no line break has
been passed but hidden ones, or the line has ended, with all of them.  The induction over
the derivation carries this from part to part; a line list in the phrase is closed by the
markers of the same line break as the lists around it (`Outcome.close`).

The lemmas for single terminals say what a scanner in a line list does with them: words
and separators, a colon and a sigil leave it on its line; the text of a command on a line
ends the line with all lists; behind braces the line may go on or end.  Nested lists are
the two cases with an induction in them.  Between the braces of one any line break may be
passed, since it is `Fenced` there, and the line lists outside are untouched.  A line list
within another one is closed by the first marker of its line break, and the marker for the
outer list is owed from the same one, so that what the inner list leaves is the outcome
that the outer one asks for.
-/

import RcScript.Proofs.Grammar.Occurs
import RcScript.Proofs.Scanner.Unbroken

namespace RcScript

open Terminal

/-! ### Places in a script -/

section
variable (source filename : String) (outer xs : List Terminal)

/-- The token that stands behind some terminals of a script. -/
def tokenBehind : Token := ((Scanner.start source filename).scans (outer.map Terminal.begins)).token

/-- The offset at which the token behind some terminals stands. -/
def offsetBehind? : Option Nat := (tokenBehind source filename outer).position.offset? source.toList

/-- An offset is in the text of a command that is one of the terminals. -/
def Covered (k : Nat) : Prop :=
  ∃ before text after i, xs = before ++ command text :: after ∧
    offsetBehind? source filename (outer ++ before) = some i ∧ i ≤ k ∧ k < i + text.toList.length

/-- An offset is between the braces of a list in a phrase. -/
def Fenced (Sep : Terminal → Prop) (p : Phrase) (k : Nat) : Prop :=
  ∃ first others ys last depth before i j,
    Occurs Sep (.statement (.list first others))
      (colon :: openBraces :: (ys ++ [closeBraces, last])) p xs depth before ∧
    offsetBehind? source filename (outer ++ (before ++ [colon])) = some i ∧
    offsetBehind? source filename (outer ++ (before ++ colon :: openBraces :: ys)) = some j ∧
    i < k ∧ k < j

/-- An offset is in the text of a command, or between the braces of a list. -/
def Hidden (Sep : Terminal → Prop) (p : Phrase) (k : Nat) : Prop :=
  Covered source filename outer xs k ∨ Fenced source filename outer xs Sep p k

end

/-- The line breaks of a text from one offset up to another are of some kind. -/
def Screened (text : List Char) (IsPassed : Nat → Prop) (i j : Nat) : Prop :=
  ∀ k, i ≤ k → k < j → text[k]? = some '\n' → IsPassed k

/-- Whether a phrase is a statement or some statements, and not a whole script. -/
def Phrase.IsInner : Phrase → Prop
  | .script _ => False
  | _ => True

/-- A terminal that is written, as a token of its own and without a line break. -/
def Terminal.IsPlain (x : Terminal) : Prop :=
  x.kind ∈ [.word, .colon, .openBraces, .closeBraces, .sigil] ∨ x = separator

variable {source filename : String} {outer xs ys before : List Terminal} {Sep : Terminal → Prop}
  {p q : Phrase} {depth i j k : Nat}

/-- What the text of a command covers in a part it covers in the whole. -/
theorem Covered.of_occurs (ho : Occurs Sep q ys p xs depth before)
    (h : Covered source filename (outer ++ before) ys k) : Covered source filename outer xs k := by
  obtain ⟨inner, text, after, i, rfl, hi, hk⟩ := h
  obtain ⟨behind, rfl⟩ := ho.exists_append
  rw [List.append_assoc] at hi
  exact ⟨before ++ inner, text, after ++ behind, i, by simp, hi, hk⟩

/-- What is between braces stays so where more may stand for a semicolon. -/
theorem Fenced.mono {Sep' : Terminal → Prop} (hsep : ∀ x, Sep x → Sep' x)
    (h : Fenced source filename outer xs Sep p k) : Fenced source filename outer xs Sep' p k := by
  obtain ⟨first, others, ys, last, depth, before, i, j, ho, h⟩ := h
  exact ⟨first, others, ys, last, depth, before, i, j, ho.mono hsep, h⟩

/-- What is between braces in a part is between braces in the whole. -/
theorem Fenced.of_occurs (ho : Occurs Sep q ys p xs depth before)
    (h : Fenced source filename (outer ++ before) ys Sep q k) :
    Fenced source filename outer xs Sep p k := by
  obtain ⟨first, others, zs, last, inner, between, i, j, hin, hi, hj, hk⟩ := h
  rw [List.append_assoc, ← List.append_assoc before] at hi hj
  exact ⟨first, others, zs, last, _, _, i, j, hin.trans ho, hi, hj, hk⟩

/-- What is hidden in a part is hidden in the whole. -/
theorem Hidden.of_occurs {inner : List Terminal} (ho : Occurs Sep q ys p xs depth before)
    (hi : inner = outer ++ before) (h : Hidden source filename inner ys Sep q k) :
    Hidden source filename outer xs Sep p k := by
  subst hi
  exact h.imp (Covered.of_occurs ho) (Fenced.of_occurs ho)

section
variable {text : List Char} {IsPassed IsPassed' : Nat → Prop}

/-- The line breaks of two stretches are those of both together. -/
theorem Screened.trans (h₁ : Screened text IsPassed i j) (h₂ : Screened text IsPassed j k) :
    Screened text IsPassed i k := by
  intro n hi hk hn
  rcases Nat.lt_or_ge n j with hj | hj
  · exact h₁ n hi hj hn
  · exact h₂ n hj hk hn

/-- Line breaks of one kind are of any wider kind. -/
theorem Screened.imp (h : Screened text IsPassed i j) (himp : ∀ k, IsPassed k → IsPassed' k) :
    Screened text IsPassed' i j :=
  fun k hi hj hk => himp k (h k hi hj hk)

/-- Where no line break stands, there is none of another kind. -/
theorem Unbroken.screened (h : Unbroken text i j) : Screened text IsPassed i j :=
  fun k hi hj hk => absurd hk (h k hi hj)

end

/-- Words and separators are plain. -/
theorem Terminal.IsPlain.of_kind {x : Terminal} (h : x.kind = .word ∨ x = separator) : x.IsPlain :=
  h.imp (fun hk => by rw [hk]; exact .head _) id

/-- A plain terminal is neither the end of a script nor the text of a command. -/
theorem Terminal.IsPlain.kind_ne {x : Terminal} (h : x.IsPlain) :
    x.kind ≠ .endOfInput ∧ x.kind ≠ .command := by
  rcases h with h | rfl
  · constructor <;> rintro hk <;> simp [hk] at h
  · exact ⟨nofun, nofun⟩

/-- A plain terminal is written. -/
theorem Terminal.IsPlain.isWritten {x : Terminal} {token : Token} (h : x.IsPlain)
    (hx : token.Is x) : token.isWritten = true := by
  obtain ⟨hk, ht⟩ := hx
  have hn : token.isNewline = false := by
    rcases h with h | rfl
    · rw [← hk] at h
      rw [Token.isNewline, Bool.and_eq_false_iff]
      refine .inl (decide_eq_false fun hs => ?_)
      simp [hs] at h
    · rw [Token.isNewline, ht, Bool.and_eq_false_iff]
      exact .inr rfl
  rw [Token.isWritten, hn, Bool.not_false, Bool.and_true, decide_eq_true_iff, hk]
  exact h.kind_ne.1

namespace Scanner

variable {s t u : Scanner} {x : Terminal} {text : List Char} {lists a b m : Nat}
  {saved : List Nat} {owed : Int}

/-- A scanner has read some terminals of a script, and the script goes on. -/
structure Behind (source filename : String) (outer : List Terminal) (s : Scanner) : Prop where
  live : s.done = false
  look : s.look = (start source filename).scans (outer.map Terminal.begins)

/-- At its beginning a scanner has read nothing. -/
theorem behind_ofText (source filename : String) :
    Behind source filename [] (ofText source filename) := ⟨rfl, rfl⟩

/-- What a scanner looks at is the token behind the terminals that it has read. -/
theorem Behind.token_eq (h : Behind source filename outer s) :
    s.look.token = tokenBehind source filename outer := congrArg Scanner.token h.look

/-- Where that token stands is where the scanner says. -/
theorem Behind.offsetBehind?_eq (h : Behind source filename outer s) :
    offsetBehind? source filename outer = s.look.token.position.offset? source.toList := by
  rw [offsetBehind?, ← h.token_eq]

/-- What is read is behind a scanner then. -/
theorem Behind.reads (h : Behind source filename outer s) (hr : Reads s xs t)
    (hx : ∀ x ∈ xs, x.kind ≠ .endOfInput) : Behind source filename (outer ++ xs) t := by
  induction xs generalizing s outer with
  | nil =>
    rw [List.append_nil]
    exact hr ▸ h
  | cons x xs ih =>
    obtain ⟨hx, hxs⟩ := List.forall_mem_cons.1 hx
    obtain ⟨⟨hk, -⟩, -, hr⟩ := hr
    have hd : s.look.done = false := live_look h.live (hk ▸ hx)
    have hnext : Behind source filename (outer ++ [x]) (s.look.ask x.begins) := by
      refine ⟨hd, ?_⟩
      rw [look_ask hd, h.look, List.map_append, scans, scans, List.foldl_append]
      rfl
    rw [List.append_cons]
    exact ih hnext hr hxs

/-! ### What a phrase passes -/

/-- A scanner in a line list can go on, from where it stands. -/
structure Amid (source filename : String) (outer : List Terminal) (lists : Nat) (saved : List Nat)
    (a : Nat) (s : Scanner) : Prop where
  poised : Poised .normal 0 lists saved s
  behind : Behind source filename outer s
  located : Located source.toList a s

/-- What comes of the line in which a phrase begins.  Either all line lists are still open
behind the phrase, or it is past the end of the line, and the markers for these lists are
owed.  Up to where it stands, or up to the end of the line, only some line breaks have been
passed. -/
inductive Outcome (text : List Char) (IsPassed : Nat → Prop) (lists : Nat) (saved : List Nat)
    (a : Nat) (t : Scanner) : Prop
  | goesOn {b : Nat} (poised : Poised .normal 0 lists saved t) (located : Located text b t)
      (le : a ≤ b) (screened : Screened text IsPassed a b)
  | ended {m : Nat} (poised : Poised .normal lists 0 saved t) (line : LineEnded text m t)
      (le : a ≤ m) (screened : Screened text IsPassed a m)

section
variable {IsPassed IsPassed' : Nat → Prop}

/-- What comes of a line is the same where more line breaks may be passed. -/
theorem Outcome.imp (h : Outcome text IsPassed lists saved a t)
    (himp : ∀ k, IsPassed k → IsPassed' k) : Outcome text IsPassed' lists saved a t := by
  cases h with
  | goesOn poised located le screened => exact .goesOn poised located le (screened.imp himp)
  | ended poised line le screened => exact .ended poised line le (screened.imp himp)

/-- What has been passed before counts as well. -/
theorem Outcome.prepend (h : Outcome text IsPassed lists saved b t) (hle : a ≤ b)
    (hs : Screened text IsPassed a b) : Outcome text IsPassed lists saved a t := by
  cases h with
  | goesOn poised located le screened =>
    exact .goesOn poised located (Nat.le_trans hle le) (hs.trans screened)
  | ended poised line le screened =>
    exact .ended poised line (Nat.le_trans hle le) (hs.trans screened)

end

/-- A plain terminal is placed where it is read. -/
theorem Reads.placed (hr : Reads s [x] t) (hx : x.IsPlain) (hd : s.done = false)
    (hs : Located text a s) :
    ∃ i, Placed text a (s.mode = .normal → s.lineLists ≠ 0) i s.look.token t := by
  obtain ⟨hx', -, rfl⟩ := hr
  have hc : s.look.token.kind ≠ .command := hx'.1 ▸ hx.kind_ne.2
  obtain ⟨i, hi⟩ := (step_look hd).placed (hx.isWritten hx') hc hs
  exact ⟨i, { hi with located := ⟨hi.located.bound, hi.located.cursor⟩ }⟩

/-- A plain terminal is passed without a line break, where the scanner minds them. -/
theorem Reads.passes (hr : Reads s [x] t) (hx : x.IsPlain) (hd : s.done = false)
    (hm : s.mode = .normal → s.lineLists ≠ 0) (hs : Located text a s) :
    ∃ b, a ≤ b ∧ Unbroken text a b ∧ Located text b t := by
  obtain ⟨i, hi⟩ := hr.placed hx hd hs
  exact ⟨_, Nat.le_trans hi.le (Nat.le_add_right ..), (hi.blanks hm).trans hi.unbroken, hi.located⟩

/-- Words and separators are read on their line. -/
theorem Amid.reads_plain (h : Amid source filename outer lists saved a s) (hl : lists ≠ 0)
    (hx : ∀ x ∈ xs, x.kind = .word ∨ x = separator) (hr : Reads s xs t) :
    ∃ b, a ≤ b ∧ Unbroken source.toList a b ∧
      Amid source filename (outer ++ xs) lists saved b t := by
  induction xs generalizing s outer a with
  | nil =>
    rw [List.append_nil]
    exact ⟨a, Nat.le_refl a, unbroken_refl _ a, hr ▸ h⟩
  | cons x xs ih =>
    obtain ⟨hx, hxs⟩ := List.forall_mem_cons.1 hx
    obtain ⟨u, hr₁, hr₂⟩ := reads_cons.1 hr
    have hplain := Terminal.IsPlain.of_kind hx
    obtain ⟨b, hle, hu, hb⟩ :=
      hr₁.passes hplain h.poised.live (fun _ => h.poised.lists ▸ hl) h.located
    have hpoised : Poised .normal 0 lists saved u := by
      obtain ⟨⟨hk, ht⟩, -, rfl⟩ := hr₁
      rcases hx with hx | rfl
      · exact (h.poised.look_word (hk.trans hx)).2.ask _
      · exact (h.poised.look_separator hk ht).2.ask _
    have hbehind := h.behind.reads hr₁ (List.forall_mem_singleton.2 hplain.kind_ne.1)
    obtain ⟨c, hle', hu', hc⟩ := ih ⟨hpoised, hbehind, hb⟩ hxs hr₂
    rw [List.append_cons]
    exact ⟨c, Nat.le_trans hle hle', hu.trans hu', hc⟩

/-- A colon is read on its line. -/
theorem Amid.read_colon (h : Amid source filename outer lists saved a s) (hl : lists ≠ 0)
    (hr : Reads s [.colon] t) :
    ∃ b, a ≤ b ∧ Unbroken source.toList a b ∧ Poised .colon 0 lists saved t ∧
      Behind source filename (outer ++ [.colon]) t ∧ Located source.toList b t := by
  obtain ⟨b, hle, hu, hb⟩ :=
    hr.passes (.inl (by decide)) h.poised.live (fun _ => h.poised.lists ▸ hl) h.located
  have hbehind := h.behind.reads hr (List.forall_mem_singleton.2 nofun)
  obtain ⟨⟨hk, -⟩, -, rfl⟩ := hr
  exact ⟨b, hle, hu, (h.poised.look_colon hk).2.ask _, hbehind, hb⟩

/-- A sigil is read on its line. -/
theorem Amid.read_sigil {g : Sigil} (h : Amid source filename outer lists saved a s)
    (hl : lists ≠ 0) (hr : Reads s [.sigil g] t) :
    ∃ b, a ≤ b ∧ Unbroken source.toList a b ∧ Poised .sigil 0 lists saved t ∧
      Behind source filename (outer ++ [.sigil g]) t ∧ Located source.toList b t := by
  have hplain : (Terminal.sigil g).IsPlain := .inl (by simp [Terminal.sigil])
  obtain ⟨b, hle, hu, hb⟩ :=
    hr.passes hplain h.poised.live (fun _ => h.poised.lists ▸ hl) h.located
  have hbehind := h.behind.reads hr (List.forall_mem_singleton.2 nofun)
  obtain ⟨⟨hk, -⟩, -, rfl⟩ := hr
  exact ⟨b, hle, hu, (h.poised.look_sigil hk).2.ask _, hbehind, hb⟩

/-- Behind a separator after braces the line goes on; it may end instead. -/
theorem Poised.outcome_of_terminator {IsPassed : Nat → Prop}
    (h : Poised .terminator 0 lists saved s) (hx : x.IsEnd) (hr : Reads s [x] t)
    (hs : Located text a s) : Outcome text IsPassed lists saved a t := by
  have hm : s.mode = .normal → s.lineLists ≠ 0 := fun hm => nomatch h.mode.symm.trans hm
  rcases hx with rfl | rfl
  · obtain ⟨b, hle, hu, hb⟩ := hr.passes (.inr rfl) h.live hm hs
    obtain ⟨⟨hk, ht⟩, -, rfl⟩ := hr
    rcases h.look_of_terminator hk with ⟨-, h'⟩ | ⟨hn, -⟩
    · exact .goesOn h' hb hle hu.screened
    · exact absurd (ht.symm.trans hn) (by decide)
  · obtain ⟨⟨hk, ht⟩, -, rfl⟩ := hr
    have hn : s.look.token.isNewline = true := by simp [Token.isNewline, hk, ht, newline]
    obtain ⟨-, m, hle, hu, hline⟩ := h.lineEnd_placed hn hs
    rcases h.look_of_terminator hk with ⟨hsep, -⟩ | ⟨-, h'⟩
    · exact absurd (ht.symm.trans hsep) (by decide)
    · exact .ended h' hline hle hu.screened

/-- Where a marker is owed no statement begins. -/
theorem Poised.not_starts (h : Poised .normal owed lists saved s) (ho : owed ≠ 0)
    (hr : Reads s (x :: xs) t) (hx : x.Starts IsSeparator) : False := by
  obtain ⟨⟨hk, ht⟩, -⟩ := hr
  rcases h.look_cases with ⟨-, hn, -⟩ | ⟨ho', -⟩
  · rw [hn] at hk ht
    rcases hx with rfl | hx | hx | hx
    · exact absurd ht (by simp [Token.newlineAt, separator])
    all_goals
      rw [hx] at hk
      cases hk
  · exact ho ho'

/-- The offsets of the text of a command are covered. -/
theorem Behind.covered {text : String} (zs : List Terminal)
    (h : Behind source filename (outer ++ before) s) (hx : s.look.token.Is (.command text))
    (hp : s.look.token.position.offset? source.toList = some i) :
    Screened source.toList (Covered source filename outer (before ++ .command text :: zs)) i
      (i + s.look.token.text.toList.length) := by
  intro k hi hk _
  rw [hx.2] at hk
  exact ⟨before, text, zs, i, rfl, h.offsetBehind?_eq.trans hp, hi, hk⟩

/-- The text of a command on a line ends its line, and all line lists. -/
theorem Amid.outcome_of_line {g : Sigil} {text : String}
    (h : Amid source filename outer lists saved a s) (hl : lists ≠ 0)
    (hr : Reads s [.sigil g, .command text, .newline] t) :
    Outcome source.toList (Covered source filename outer [.sigil g, .command text, .newline])
      lists saved a t := by
  obtain ⟨u, hr₁, hr⟩ := reads_cons.1 hr
  obtain ⟨b, hle, hu, hsigil, hbehind, hb⟩ := h.read_sigil hl hr₁
  obtain ⟨hx, -, ⟨hk, ht⟩, -, rfl⟩ := hr
  obtain ⟨i, hi, hui, hplace, ⟨-, m, hm, hum, hline⟩ | ⟨hm, -⟩⟩ :=
    (step_look hsigil.live).command_placed hx.1 hb
  · have hcovered := hbehind.covered [.newline] hx hplace
    have hpoised : Poised .normal (lists + 1) 0 saved u.look := hsigil.look_of_sigil.2 hx.1
    rcases hpoised.look_newline hk ht with ⟨ho, h'⟩ | ⟨ho, -⟩
    · rw [Int.add_sub_cancel] at h'
      exact .ended h' ((hpoised.owed_placed ho _).2.2 m hline) (by omega)
        ((hu.trans hui).screened.trans (hcovered.trans hum.screened))
    · omega
  · cases hsigil.mode.symm.trans hm

/-- Behind a block a command goes on as behind any braces. -/
theorem Amid.outcome_of_block {g : Sigil} {text : String}
    (h : Amid source filename outer lists saved a s) (hl : lists ≠ 0) (hx : x.IsEnd)
    (hr : Reads s [.sigil g, .openBraces, .command text, .closeBraces, x] t) :
    Outcome source.toList
      (Covered source filename outer [.sigil g, .openBraces, .command text, .closeBraces, x])
      lists saved a t := by
  obtain ⟨s₁, hr₁, hr⟩ := reads_cons.1 hr
  obtain ⟨s₂, hr₂, hr⟩ := reads_cons.1 hr
  obtain ⟨s₃, hr₃, hr⟩ := reads_cons.1 hr
  obtain ⟨s₄, hr₄, hr₅⟩ := reads_cons.1 hr
  obtain ⟨b₁, hle₁, hu₁, hsigil, hbehind₁, hb₁⟩ := h.read_sigil hl hr₁
  have hblock : Poised .block 0 lists (lists :: saved) s₂ := by
    obtain ⟨⟨hk, -⟩, -, rfl⟩ := hr₂
    exact (hsigil.look_of_sigil.1 hk).ask _
  obtain ⟨b₂, hle₂, hu₂, hb₂⟩ :=
    hr₂.passes (.inl (by decide)) hsigil.live (fun hm => nomatch hsigil.mode.symm.trans hm) hb₁
  have hbehind := hbehind₁.reads hr₂ (List.forall_mem_singleton.2 nofun)
  rw [List.append_assoc] at hbehind
  obtain ⟨hx₃, -, rfl⟩ := hr₃
  have htext := hblock.look_of_block hx₃.1
  obtain ⟨i, hi, hui, hplace, ⟨hm, -⟩ | ⟨-, -, hb₃⟩⟩ :=
    (step_look hblock.live).command_placed hx₃.1 hb₂
  · cases hblock.mode.symm.trans hm
  · have hcovered := hbehind.covered [.closeBraces, x] hx₃ hplace
    obtain ⟨b₄, hle₄, hu₄, hb₄⟩ :=
      hr₄.passes (.inl (by decide)) htext.live (fun _ => htext.lists ▸ hl) hb₃
    obtain ⟨⟨hk₄, -⟩, -, rfl⟩ := hr₄
    refine ((htext.look_closeBraces hk₄).2.outcome_of_terminator hx hr₅ hb₄).prepend (by omega) ?_
    exact (hu₁.trans (hu₂.trans hui)).screened.trans (hcovered.trans hu₄.screened)

/-- Between the braces of a list any line break is passed. -/
theorem Amid.outcome_of_bracedList {first : Stmt} {others : List Stmt}
    (items : Derives IsSeparator (.items (first :: others)) ys) (hx : x.IsEnd)
    (h : Amid source filename outer lists saved a s) (hl : lists ≠ 0)
    (hr : Reads s (.colon :: .openBraces :: (ys ++ [.closeBraces, x])) t) :
    Outcome source.toList
      (Fenced source filename outer (.colon :: .openBraces :: (ys ++ [.closeBraces, x]))
        IsSeparator (.statement (.list first others)))
      lists saved a t := by
  obtain ⟨s₁, hr₁, hr⟩ := reads_cons.1 hr
  obtain ⟨s₂, hr₂, hr⟩ := reads_cons.1 hr
  obtain ⟨s₃, hr₃, hr⟩ := reads_append.1 hr
  obtain ⟨s₄, hr₄, hr₅⟩ := reads_cons.1 hr
  obtain ⟨b, hle, hu, hcolon, hbehind, hb⟩ := h.read_colon hl hr₁
  have hopen := hcolon.read_openBraces hr₂
  have hclose := items.keeps_dues hopen hr₃
  have hend := hclose.owing.read_closeBraces hr₄
  obtain ⟨i, hi⟩ := hr₂.placed (.inl (by decide)) hcolon.live hb
  obtain ⟨c, hle', hc⟩ := hr₃.located hi.located
  obtain ⟨j, hj⟩ := hr₄.placed (.inl (by decide)) hclose.owing.live hc
  have hbehind₁ : Behind source filename (outer ++ ([] ++ [.colon])) s₁ := hbehind
  have hbehind₂ := hbehind₁.reads hr₂ (List.forall_mem_singleton.2 nofun)
  have hbehind₃ := hbehind₂.reads hr₃ (items.kind_ne fun _ => IsSeparator.kind_eq)
  rw [List.append_assoc, List.append_assoc] at hbehind₃
  have hfenced : Screened source.toList
      (Fenced source filename outer (.colon :: .openBraces :: (ys ++ [.closeBraces, x]))
        IsSeparator (.statement (.list first others)))
      (i + s₁.look.token.text.toList.length) j := by
    intro k hik hkj _
    have htext : s₁.look.token.text.toList.length = 2 := by
      rw [hr₂.1.2]
      rfl
    exact ⟨first, others, ys, x, 0, [], i, j, .here (.bracedList items hx),
      hbehind₁.offsetBehind?_eq.trans hi.place, hbehind₃.offsetBehind?_eq.trans hj.place,
      by omega, hkj⟩
  have hbefore : Unbroken source.toList a (i + s₁.look.token.text.toList.length) :=
    hu.trans ((hi.blanks fun hm => nomatch hcolon.mode.symm.trans hm).trans hi.unbroken)
  have hile := hi.le
  have hjle := hj.le
  refine (hend.outcome_of_terminator hx hr₅ hj.located).prepend (by omega) ?_
  exact hbefore.screened.trans (hfenced.trans hj.unbroken.screened)

/-- Behind a colon a line list is open, as if it had been opened before. -/
theorem Poised.exists_amid (h : Poised .colon 0 lists saved s)
    (hb : Behind source filename outer s) (hs : Located source.toList a s)
    (hr : Reads s (x :: xs) t) (hx : x.kind ≠ .openBraces) :
    ∃ b u, a ≤ b ∧ Unbroken source.toList a b ∧
      Amid source filename outer (lists + 1) saved b u ∧ Reads u (x :: xs) t := by
  have hk : s.look.token.kind ≠ .openBraces := by
    rw [hr.1.1]
    exact hx
  obtain ⟨hopen, hlook⟩ := h.openLine_of_colon hk
  have hresume : Located source.toList a s.resume := ⟨hs.bound, hs.cursor⟩
  obtain ⟨b, hle, hu, hb'⟩ := hresume.skipBlanks_unbroken
  exact ⟨b, s.openLine, hle, hu, ⟨hopen, ⟨hopen.live, hlook.trans hb.look⟩, hb'.bound, hb'.cursor⟩,
    hr.congr hlook.symm⟩

/-- A marker that is owed closes a line list. -/
theorem Poised.close (h : Poised .normal (lists + 1 : Nat) 0 saved s) (text : List Char)
    (hr : Reads s [.newline] t) :
    Poised .normal lists 0 saved t ∧ s.look.token.position = t.marker ∧ t.marker = s.marker ∧
      ∀ m, LineEnded text m s → LineEnded text m t := by
  obtain ⟨⟨hk, ht⟩, -, rfl⟩ := hr
  have ho : ((lists + 1 : Nat) : Int) ≠ 0 := by omega
  obtain ⟨htoken, hmarker, hline⟩ := h.owed_placed ho text
  rcases h.look_newline hk ht with ⟨-, h'⟩ | ⟨ho', -⟩
  · rw [Int.natCast_add, Int.natCast_one, Int.add_sub_cancel] at h'
    exact ⟨h', by rw [htoken]; exact hmarker.symm, hmarker, hline⟩
  · exact absurd ho' ho

/-- **The marker that closes a line list** stands where its line ends, and closes no other
list. -/
theorem Outcome.close {IsPassed : Nat → Prop} (h : Outcome text IsPassed (lists + 1) saved a s)
    (hr : Reads s [.newline] t) :
    ∃ m, a ≤ m ∧ Screened text IsPassed a m ∧ Poised .normal lists 0 saved t ∧
      LineEnded text m t ∧ s.look.token.position = t.marker := by
  cases h with
  | goesOn poised located le screened =>
    obtain ⟨⟨hk, ht⟩, -, rfl⟩ := hr
    have hn : s.look.token.isNewline = true := by simp [Token.isNewline, hk, ht, newline]
    obtain ⟨hp, m, hle, hu, hline⟩ := poised.newline_placed hn located
    rcases poised.look_newline hk ht with ⟨ho, -⟩ | ⟨-, -, h'⟩
    · exact absurd rfl ho
    · rw [Int.natCast_add, Int.natCast_one, Int.add_sub_cancel] at h'
      exact ⟨m, Nat.le_trans le hle, screened.trans hu.screened, h', hline, hp⟩
  | @ended m poised line le screened =>
    obtain ⟨h', hp, -, hline⟩ := poised.close text hr
    exact ⟨m, le, screened, h', hline m line, hp⟩

/-- **A line list ends at its line**, if its items pass nothing else. -/
theorem Poised.close_line {IsPassed : Nat → Prop} (h : Poised .colon 0 lists saved s)
    (hb : Behind source filename outer s) (hs : Located source.toList a s)
    (hx : ∀ x ∈ xs, x.kind ≠ .endOfInput) (hhead : ∃ x zs, xs = x :: zs ∧ x.kind ≠ .openBraces)
    (hr : Reads s (xs ++ [.newline]) t)
    (hitems : ∀ {u v b}, Amid source filename outer (lists + 1) saved b u → Reads u xs v →
      Outcome source.toList IsPassed (lists + 1) saved b v) :
    ∃ m, a ≤ m ∧ Screened source.toList IsPassed a m ∧ Poised .normal lists 0 saved t ∧
      LineEnded source.toList m t ∧
        (tokenBehind source filename (outer ++ xs)).position = t.marker := by
  obtain ⟨x, zs, rfl, hx'⟩ := hhead
  obtain ⟨b, u, hle, hu, h', hr⟩ := h.exists_amid hb hs hr hx'
  obtain ⟨v, hr₂, hr₃⟩ := reads_append.1 (show Reads u ((x :: zs) ++ [.newline]) t from hr)
  obtain ⟨m, hm, hscreened, ht, hline, hp⟩ := (hitems h' hr₂).close hr₃
  rw [(h'.behind.reads hr₂ hx).token_eq] at hp
  exact ⟨m, Nat.le_trans hle hm, hu.screened.trans hscreened, ht, hline, hp⟩

/-- What closes a line list closes with it what ends its items. -/
theorem Poised.close_inner {place : Position} (h : Poised .colon 0 lists saved s)
    (hb : Behind source filename outer s) (hs : Located source.toList a s)
    (hhead : ∃ x zs, xs = x :: zs ∧ x.kind ≠ .openBraces) (hr : Reads s (xs ++ [.newline]) t)
    (hitems : ∀ {u v b}, Amid source filename outer (lists + 1) saved b u → Reads u xs v →
      Poised .normal (lists + 1 : Nat) 0 saved v ∧ place = v.marker) :
    Poised .normal lists 0 saved t ∧ place = t.marker := by
  obtain ⟨x, zs, rfl, hx⟩ := hhead
  obtain ⟨b, u, -, -, h', hr⟩ := h.exists_amid hb hs hr hx
  obtain ⟨v, hr₂, hr₃⟩ := reads_append.1 (show Reads u ((x :: zs) ++ [.newline]) t from hr)
  obtain ⟨hv, hplace⟩ := hitems h' hr₂
  obtain ⟨ht, -, hmarker, -⟩ := hv.close [] hr₃
  exact ⟨ht, hplace.trans hmarker.symm⟩

end Scanner

open Scanner

/-- The items of a list do not begin with braces. -/
theorem Derives.items_head {stmts : List Stmt} (items : Derives IsSeparator (.items stmts) ys) :
    ∃ x zs, ys = x :: zs ∧ x.kind ≠ .openBraces := by
  obtain ⟨x, zs, rfl, hx⟩ := items.items_starts
  exact ⟨x, zs, rfl, hx.kind_ne fun _ => .inl⟩

/-- **What becomes of the line** in which a phrase begins. -/
theorem Derives.outcome (hd : Derives IsSeparator p xs) (hp : p.IsInner)
    {s t : Scanner} {lists a : Nat} {saved : List Nat}
    (h : Amid source filename outer lists saved a s) (hl : lists ≠ 0) (hr : Reads s xs t) :
    Outcome source.toList (Hidden source filename outer xs IsSeparator p) lists saved a t := by
  induction hd generalizing outer s t lists saved a with
  | switch option ends =>
    obtain rfl := ends
    obtain ⟨b, hle, hu, ht⟩ := h.reads_plain hl (by simp [word]) hr
    exact .goesOn ht.poised ht.located hle hu.screened
  | setting option value ends =>
    obtain rfl := ends
    obtain ⟨b, hle, hu, ht⟩ := h.reads_plain hl (by simp [word]) hr
    exact .goesOn ht.poised ht.located hle hu.screened
  | @call name args _ free ends =>
    obtain rfl := ends
    have hplain : ∀ x ∈ word name :: (args.map word ++ [separator]),
        x.kind = .word ∨ x = separator := by
      simp only [List.forall_mem_cons, List.forall_mem_append, List.forall_mem_map]
      exact ⟨.inl rfl, fun _ _ => .inl rfl, .inr trivial, nofun⟩
    obtain ⟨b, hle, hu, ht⟩ := h.reads_plain hl hplain hr
    exact .goesOn ht.poised ht.located hle hu.screened
  | line g text => exact (h.outcome_of_line hl hr).imp fun k => .inl
  | block g text ends => exact (h.outcome_of_block hl ends hr).imp fun k => .inl
  | bracedList items ends => exact (h.outcome_of_bracedList items ends hl hr).imp fun k => .inr
  | @binding keys _ xs nested ih =>
    obtain ⟨u, hr₁, hr⟩ := reads_append.1 (show Reads s ([word "map", head keys] ++ xs) t from hr)
    obtain ⟨b, hle, hu, h'⟩ := h.reads_plain hl (by simp [word, head]) hr₁
    exact ((ih trivial h' hl hr).imp fun k => .of_occurs (.binding (.here nested)) rfl).prepend hle
      hu.screened
  | @definition name _ xs nested ih =>
    obtain ⟨u, hr₁, hr⟩ := reads_append.1 (show Reads s ([word "cmd", head name] ++ xs) t from hr)
    obtain ⟨b, hle, hu, h'⟩ := h.reads_plain hl (by simp [word, head]) hr₁
    exact ((ih trivial h' hl hr).imp fun k => .of_occurs (.definition (.here nested)) rfl).prepend hle
      hu.screened
  | @lineList first others xs items ih =>
    obtain ⟨s₁, hr₁, hr⟩ := reads_cons.1 hr
    obtain ⟨b, hle, hu, hcolon, hbehind, hb⟩ := h.read_colon hl hr₁
    obtain ⟨m, hm, hs, ht, hline, -⟩ := hcolon.close_line hbehind hb
      (items.kind_ne fun _ => IsSeparator.kind_eq) items.items_head hr
      fun hu => ih trivial hu (Nat.succ_ne_zero _)
    refine .ended ht hline (by omega) (hu.screened.trans (hs.imp fun k => ?_))
    exact .of_occurs (.lineList (.here items)) rfl
  | @nested _ seps _ separate statement ih =>
    obtain ⟨u, hr₁, hr⟩ := reads_append.1 hr
    obtain ⟨b, hle, hu, h'⟩ := h.reads_plain hl (fun x hx => .inr (separate x hx)) hr₁
    have hpart := Occurs.nested separate (.here statement)
    rw [List.append_nil] at hpart
    exact ((ih trivial h' hl hr).imp fun k => .of_occurs hpart rfl).prepend hle hu.screened
  | one nested ih =>
    exact (ih trivial h hl hr).imp fun k =>
      .of_occurs (.one (.here nested)) (List.append_nil _).symm
  | more nested items ih₁ ih₂ =>
    obtain ⟨u, hr₁, hr⟩ := reads_append.1 hr
    cases ih₁ trivial h hl hr₁ with
    | goesOn poised located hle screened =>
      have hbehind := h.behind.reads hr₁ (nested.kind_ne fun _ => IsSeparator.kind_eq)
      refine ((ih₂ trivial ⟨poised, hbehind, located⟩ hl hr).imp fun k =>
        .of_occurs (.later nested (.here items)) (by rw [List.append_nil])).prepend hle ?_
      exact screened.imp fun k => .of_occurs (.first (.here nested) items) (List.append_nil _).symm
    | ended poised =>
      -- The items that follow would have to begin with a marker.
      obtain ⟨x, ys, rfl, hx⟩ := items.items_starts
      exact (poised.not_starts (Int.natCast_ne_zero.2 hl) hr hx).elim
  | finish | next => exact hp.elim

end RcScript
