/-
# The loose grammar is strict where scripts end

The reader lets a newline marker stand for any semicolon.  It never helps: a
scanner has *dues*, the newline markers that it owes and the line lists that are
open, and every marker that is taken for a semicolon takes one away that no
phrase gives back (`Derives.settles`).  Between braces and at the start of a
script there are none to take, so what is derived there is derived in the strict
grammar.  On the way the texts of a statement are found to be legible.

The dues are one number, though two things are owed: a marker that is paid lowers what is
owed, a line break turns line lists that are open into markers that are owed, and only a
colon without braces adds to the sum.  So the sum is what a phrase is charged with, and the
lemmas for the single terminals, `Owing.read_word` and its neighbours, say what each of
them does to it.  The induction over the derivation adds these up; its claim says at the
same time that a phrase which takes nothing away is strict, since a marker in the place of
a semicolon is what would have taken something.

Two facts at the border make it all work.  At the beginning of a script nothing is due,
since nothing is owed and nothing is open; and the dues are never less than that.  Inside
the braces of a list the count begins anew, because what was open outside is put aside
until they are closed.  So a marker that is taken for a semicolon can only be one of the
line lists around the statement in the same braces, and then a colon there is left without
the marker that its own production asks for.
-/

import RcScript.Proofs.Grammar.Reads
import RcScript.Proofs.Scanner.Poised
import RcScript.Proofs.Scanner.Sound

namespace RcScript
namespace Scanner

/-- A scanner that owes markers and has line lists open, so many together. -/
def Owing (dues : Int) (saved : List Nat) (s : Scanner) : Prop :=
  ∃ owed lists, 0 ≤ owed ∧ owed + (lists : Nat) = dues ∧ Poised .normal owed lists saved s

/-- A scanner with dues at which a statement begins. -/
structure Ready (dues : Int) (saved : List Nat) (s : Scanner) : Prop where
  owing : Owing dues saved s
  begins : s.beginsStatement = true

variable {s t u : Scanner} {dues : Int} {lists : Nat} {saved : List Nat} {x : Terminal}

/-- After a separator that is read as any token a statement begins. -/
theorem TokenRead.begins {begins : Bool} {token : Token} {after : Scanner}
    (h : TokenRead begins s token after) (hk : token.kind = .semicolon) :
    after.beginsStatement = true := by
  cases h with
  | lineEnd => rfl
  | separator => rfl
  | _ => cases hk

/-- After a semicolon or a newline marker a statement begins. -/
theorem Step.begins (h : Step s t) (hk : t.token.kind = .semicolon) :
    t.beginsStatement = true := by
  cases h with
  | owed => rfl
  | token owed mode read => exact read.begins hk
  | lineList owed mode rest read => exact read.begins hk
  | terminator owed mode rest read => exact read.begins hk
  | lineEnd => rfl
  | _ => cases hk

/-- After a separator a statement begins. -/
theorem begins_look (hd : s.done = false) (hk : s.look.token.kind = .semicolon) :
    s.look.beginsStatement = true := (step_look hd).begins hk

/-- The dues are never less than nothing. -/
theorem Owing.nonneg (h : Owing dues saved s) : 0 ≤ dues := by
  obtain ⟨owed, lists, ho, rfl, -⟩ := h
  omega

/-- What is owed and what is open make up the dues. -/
theorem Poised.owing {owed : Int} (h : Poised .normal owed lists saved s) (ho : 0 ≤ owed) :
    Owing (owed + lists) saved s := ⟨owed, lists, ho, rfl, h⟩

/-- A scanner with dues goes on. -/
theorem Owing.live (h : Owing dues saved s) : s.done = false := by
  obtain ⟨_, _, _, _, h⟩ := h
  exact h.live

/-- At the beginning of a script nothing is due. -/
theorem ready_ofText (source filename : String) : Ready 0 [] (ofText source filename) :=
  ⟨(poised_ofText source filename).owing (Int.le_refl 0), rfl⟩

/-- A word is read where no marker is owed, and leaves the dues alone. -/
theorem Owing.poised_word (h : Owing dues saved s) (hx : x.kind = .word) (hr : Reads s [x] t) :
    ∃ lists : Nat, dues = lists ∧ Poised .normal 0 lists saved t := by
  obtain ⟨⟨hk, -⟩, -, rfl⟩ := hr
  obtain ⟨owed, lists, ho, rfl, h⟩ := h
  obtain ⟨rfl, h'⟩ := h.look_word (hk.trans hx)
  exact ⟨lists, Int.zero_add _, h'.ask _⟩

/-- Words, one at least, are read where no marker is owed. -/
theorem Owing.poised_words {xs : List Terminal} (h : Owing dues saved s) (hne : xs ≠ [])
    (hx : ∀ x ∈ xs, x.kind = .word) (hr : Reads s xs t) :
    ∃ lists : Nat, dues = lists ∧ Poised .normal 0 lists saved t := by
  induction xs generalizing s with
  | nil => exact absurd rfl hne
  | cons x xs ih =>
    obtain ⟨u, hr₁, hr₂⟩ := reads_cons.1 hr
    obtain ⟨hx, hxs⟩ := List.forall_mem_cons.1 hx
    obtain ⟨lists, rfl, hu⟩ := h.poised_word hx hr₁
    cases xs with
    | nil => exact ⟨lists, rfl, hr₂ ▸ hu⟩
    | cons y ys =>
      exact ih ⟨0, lists, Int.le_refl 0, Int.zero_add _, hu⟩ (List.cons_ne_nil y ys) hxs hr₂

/-- A word leaves the dues alone, and it is one. -/
theorem Owing.read_word (h : Owing dues saved s) (hx : x.kind = .word) (hr : Reads s [x] t) :
    Owing dues saved t ∧ IsWord x.text := by
  obtain ⟨lists, rfl, ht⟩ := h.poised_word hx hr
  obtain ⟨⟨hk, htext⟩, -, rfl⟩ := hr
  have hs := sound_look h.live
  rw [Token.Sound, hk, hx, htext] at hs
  exact ⟨⟨0, lists, Int.le_refl 0, Int.zero_add _, ht⟩, hs⟩

/-- After the keys of a binding or the name of a definition a statement begins. -/
theorem Owing.read_head {text : String} (h : Owing dues saved s) (hr : Reads s [.head text] t) :
    Ready dues saved t ∧ IsWord text := by
  obtain ⟨ht, hw⟩ := h.read_word rfl hr
  obtain ⟨-, -, rfl⟩ := hr
  exact ⟨⟨ht, rfl⟩, hw⟩

/-- A keyword and the head behind it: a statement begins after both. -/
theorem Ready.read_headed {keyword name : String} {xs : List Terminal} (h : Ready dues saved s)
    (hr : Reads s (.word keyword :: .head name :: xs) t) :
    ∃ u, Reads s [.word keyword, .head name] u ∧ Reads u xs t ∧ Ready dues saved u ∧
      IsWord name := by
  obtain ⟨s₁, hr₁, hr⟩ := reads_cons.1 hr
  obtain ⟨s₂, hr₂, hr⟩ := reads_cons.1 hr
  obtain ⟨h₁, -⟩ := h.owing.read_word rfl hr₁
  exact ⟨s₂, hr₁.cons hr₂, hr, h₁.read_head hr₂⟩

/-- The arguments of a call leave the dues alone, and they are words. -/
theorem Owing.read_words {args : List String} (h : Owing dues saved s)
    (hr : Reads s (args.map Terminal.word) t) :
    Owing dues saved t ∧ ∀ arg ∈ args, IsWord arg := by
  induction args generalizing s with
  | nil => exact ⟨hr ▸ h, nofun⟩
  | cons arg args ih =>
    obtain ⟨u, hx, hr⟩ := reads_cons.1 hr
    obtain ⟨h, hw⟩ := h.read_word rfl hx
    obtain ⟨h, hws⟩ := ih h hr
    exact ⟨h, List.forall_mem_cons.2 ⟨hw, hws⟩⟩

/-- The first word of a statement is a name, or a keyword. -/
theorem Ready.read_name (h : Ready dues saved s) {name : String} (hf : name ∉ keywords)
    (hr : Reads s [.word name] t) : Owing dues saved t ∧ IsName name := by
  obtain ⟨ht, hw⟩ := h.owing.read_word rfl hr
  obtain ⟨⟨hk, htext⟩, -, -⟩ := hr
  have hh := (step_look h.owing.live).head (.inl h.begins) hk
  rw [htext] at hh
  exact ⟨ht, hw, hf, hh⟩

/-- A literal semicolon leaves the dues alone, and a statement begins behind it. -/
theorem Owing.read_separator (h : Owing dues saved s) (hr : Reads s [.separator] t) :
    Ready dues saved t := by
  obtain ⟨⟨hk, ht⟩, -, rfl⟩ := hr
  have hb := begins_look h.live hk
  obtain ⟨owed, lists, ho, rfl, h⟩ := h
  obtain ⟨rfl, h'⟩ := h.look_separator hk ht
  exact ⟨h'.owing ho, hb⟩

/-- **A newline marker takes one of the dues away.** -/
theorem Owing.read_newline (h : Owing dues saved s) (hr : Reads s [.newline] t) :
    Ready (dues - 1) saved t := by
  obtain ⟨⟨hk, ht⟩, -, rfl⟩ := hr
  have hb := begins_look h.live hk
  obtain ⟨owed, lists, ho, rfl, h⟩ := h
  rcases h.look_newline hk ht with ⟨h₀, h'⟩ | ⟨rfl, h₀, h'⟩
  · exact ⟨⟨_, _, by omega, by omega, h'⟩, hb⟩
  · exact ⟨⟨_, _, by omega, by omega, h'⟩, hb⟩

open Terminal in
/-- What may end braces takes one of the dues away, unless it is a literal semicolon. -/
theorem Owing.read_end (h : Owing dues saved s) (hx : x.IsEnd) (hr : Reads s [x] t) :
    ∃ dues' ≤ dues, Ready dues' saved t ∧ (dues' = dues ↔ x.IsSeparator) := by
  have hne : newline ≠ separator := by decide
  rcases hx with rfl | rfl
  · exact ⟨dues, Int.le_refl _, h.read_separator hr, iff_of_true rfl rfl⟩
  · exact ⟨dues - 1, by omega, h.read_newline hr, iff_of_false (by omega) hne⟩

/-- Separators before a statement take dues away, unless they are literal semicolons. -/
theorem Ready.read_separators {seps : List Terminal} (h : Ready dues saved s)
    (hx : ∀ x ∈ seps, x.IsEnd) (hr : Reads s seps t) :
    ∃ dues' ≤ dues, Ready dues' saved t ∧ (dues' = dues ↔ ∀ x ∈ seps, x.IsSeparator) := by
  induction seps generalizing s dues with
  | nil => exact ⟨dues, Int.le_refl _, hr ▸ h, iff_of_true rfl nofun⟩
  | cons x seps ih =>
    obtain ⟨u, hr₁, hr₂⟩ := reads_cons.1 hr
    obtain ⟨hx₁, hx₂⟩ := List.forall_mem_cons.1 hx
    obtain ⟨d₁, hle₁, h₁, hs₁⟩ := h.owing.read_end hx₁ hr₁
    obtain ⟨d₂, hle₂, h₂, hs₂⟩ := ih h₁ hx₂ hr₂
    refine ⟨d₂, by omega, h₂, ?_⟩
    rw [List.forall_mem_cons, ← hs₁, ← hs₂]
    omega

/-- What ends braces leaves the dues alone, whether or not the line ends too. -/
theorem Poised.read_end (h : Poised .terminator 0 lists saved s) (hx : x.IsEnd)
    (hr : Reads s [x] t) : Ready lists saved t := by
  obtain ⟨⟨hk, ht⟩, -, rfl⟩ := hr
  have hk' := hk.trans hx.kind_eq
  have hb := begins_look h.live hk'
  rw [hx.begins_eq, ask_false]
  rcases h.look_of_terminator hk' with ⟨-, h'⟩ | ⟨-, h'⟩
  · exact ⟨⟨_, _, Int.le_refl 0, Int.zero_add _, h'⟩, hb⟩
  · exact ⟨⟨_, _, Int.natCast_nonneg _, Int.add_zero _, h'⟩, hb⟩

/-- A colon is read where no marker is owed. -/
theorem Owing.read_colon (h : Owing dues saved s) (hr : Reads s [.colon] t) :
    ∃ lists : Nat, dues = lists ∧ Poised .colon 0 lists saved t := by
  obtain ⟨⟨hk, -⟩, -, rfl⟩ := hr
  obtain ⟨owed, lists, -, rfl, h⟩ := h
  obtain ⟨rfl, h'⟩ := h.look_colon hk
  exact ⟨lists, Int.zero_add _, h'.ask _⟩

/-- Inside the braces of a list nothing is due at first. -/
theorem Poised.read_openBraces (h : Poised .colon 0 lists saved s)
    (hr : Reads s [.openBraces] t) : Ready 0 (lists :: saved) t := by
  obtain ⟨⟨hk, -⟩, -, rfl⟩ := hr
  rcases h.look_of_colon with ⟨-, hb, h'⟩ | ⟨hn, -⟩
  · exact ⟨h'.owing (Int.le_refl 0), hb⟩
  · exact absurd hk hn

/-- A colon and the braces behind it: a statement begins after both. -/
theorem Ready.read_listHead {xs : List Terminal} (h : Ready dues saved s)
    (hr : Reads s (.colon :: .openBraces :: xs) t) :
    ∃ (lists : Nat) (u : Scanner), dues = lists ∧ Reads s [.colon, .openBraces] u ∧
      Reads u xs t ∧ Ready 0 (lists :: saved) u := by
  obtain ⟨s₁, hr₁, hr⟩ := reads_cons.1 hr
  obtain ⟨s₂, hr₂, hr⟩ := reads_cons.1 hr
  obtain ⟨lists, hdues, h₁⟩ := h.owing.read_colon hr₁
  exact ⟨lists, s₂, hdues, hr₁.cons hr₂, hr, h₁.read_openBraces hr₂⟩

/-- Without braces a colon opens one more line list. -/
theorem Poised.exists_ready_of_reads {xs : List Terminal} (h : Poised .colon 0 lists saved s)
    (hr : Reads s (x :: xs) t) (hx : x.kind ≠ .openBraces) :
    ∃ u, Ready (lists + 1) saved u ∧ Reads u (x :: xs) t := by
  rcases h.look_of_colon with ⟨hk, -⟩ | ⟨-, u, hu, hb, h'⟩
  · exact absurd (hr.1.1.symm.trans hk) hx
  · exact ⟨u, ⟨⟨0, lists + 1, Int.le_refl 0, by omega, h'⟩, hb⟩, Reads.congr hu.symm hr⟩

/-- A sigil is read where no marker is owed. -/
theorem Owing.read_sigil {g : Sigil} (h : Owing dues saved s) (hr : Reads s [.sigil g] t) :
    ∃ lists : Nat, dues = lists ∧ Poised .sigil 0 lists saved t := by
  obtain ⟨⟨hk, -⟩, -, rfl⟩ := hr
  obtain ⟨owed, lists, -, rfl, h⟩ := h
  obtain ⟨rfl, h'⟩ := h.look_sigil hk
  exact ⟨lists, Int.zero_add _, h'.ask _⟩

/-- Braces are closed where nothing is due: the line lists outside are open again. -/
theorem Owing.read_closeBraces (h : Owing 0 (lists :: saved) s) (hr : Reads s [.closeBraces] t) :
    Poised .terminator 0 lists saved t := by
  obtain ⟨⟨hk, -⟩, -, rfl⟩ := hr
  obtain ⟨owed, inner, -, -, h⟩ := h
  exact (h.look_closeBraces hk).2.ask _

/-- A command on a line ends it, with all line lists, and its text can be read. -/
theorem Poised.read_line {text : String} (h : Poised .sigil 0 lists saved s)
    (hr : Reads s [.command text, .newline] t) : Ready lists saved t ∧ Readable text := by
  obtain ⟨⟨hk, htext⟩, -, ⟨hk', ht'⟩, -, rfl⟩ := hr
  have hs := sound_look h.live
  rw [Token.Sound, hk, htext] at hs
  have h₁ := h.look_of_sigil.2 hk
  refine ⟨?_, hs⟩
  rcases h₁.look_newline hk' ht' with ⟨-, h₂⟩ | ⟨he, -⟩
  · exact ⟨⟨_, _, by omega, by omega, h₂⟩, begins_look h₁.live hk'⟩
  · omega

/-- A block is read up to its closing braces, and its text can be read. -/
theorem Poised.read_block {text : String} (h : Poised .sigil 0 lists saved s)
    (hr : Reads s [.openBraces, .command text, .closeBraces] t) :
    Poised .terminator 0 lists saved t ∧ Readable text := by
  obtain ⟨⟨hk₁, -⟩, -, ⟨hk₂, ht₂⟩, -, ⟨hk₃, -⟩, -, rfl⟩ := hr
  have h₁ := h.look_of_sigil.1 hk₁
  have hs : s.look.look.token.Sound := sound_look h₁.live
  have h₂ := h₁.look_of_block hk₂
  change s.look.look.token.kind = _ at hk₂
  change s.look.look.token.text = _ at ht₂
  rw [Token.Sound, hk₂, ht₂] at hs
  exact ⟨(h₂.look_closeBraces hk₃).2, hs⟩

end Scanner

/-- Whether all statements of a phrase are legible. -/
def Phrase.Legible : Phrase → Prop
  | .statement stmt => stmt.Legible
  | .nested stmt => stmt.Legible
  | .items stmts => ∀ stmt ∈ stmts, stmt.Legible
  | .script stmts => ∀ stmt ∈ stmts, stmt.Legible

open Terminal Scanner in
/-- **What a phrase leaves of the dues.**  It adds none; if it takes none away
either, it is derived in the strict grammar; and in the strict grammar it takes none
away. -/
theorem Derives.settles {Sep : Terminal → Prop} (hsep : ∀ x, Sep x → x.IsEnd) {p : Phrase}
    {xs : List Terminal} (hd : Derives Sep p xs) {s t : Scanner} {dues : Int} {saved : List Nat}
    (h : Ready dues saved s) (hr : Reads s xs t) :
    p.Legible ∧
      ∃ dues' ≤ dues, Ready dues' saved t ∧ (dues' = dues → Derives IsSeparator p xs) ∧
        ((∀ x, Sep x → x.IsSeparator) → dues' = dues) := by
  induction hd generalizing s t dues saved with
  | switch option ends =>
    obtain ⟨s₁, hr₁, hr⟩ := reads_cons.1 hr
    obtain ⟨s₂, hr₂, hr⟩ := reads_cons.1 hr
    obtain ⟨h₁, -⟩ := h.owing.read_word rfl hr₁
    obtain ⟨h₂, hw⟩ := h₁.read_word rfl hr₂
    obtain ⟨dues', hle, h', hs⟩ := h₂.read_end (hsep _ ends) hr
    exact ⟨Stmt.forall_walk_set.2 ⟨hw, .inl rfl⟩, dues', hle, h',
      fun he => .switch _ (hs.1 he), fun strict => hs.2 (strict _ ends)⟩
  | setting option value ends =>
    obtain ⟨s₁, hr₁, hr⟩ := reads_cons.1 hr
    obtain ⟨s₂, hr₂, hr⟩ := reads_cons.1 hr
    obtain ⟨s₃, hr₃, hr⟩ := reads_cons.1 hr
    obtain ⟨h₁, -⟩ := h.owing.read_word rfl hr₁
    obtain ⟨h₂, hw⟩ := h₁.read_word rfl hr₂
    obtain ⟨h₃, hv⟩ := h₂.read_word rfl hr₃
    obtain ⟨dues', hle, h', hs⟩ := h₃.read_end (hsep _ ends) hr
    exact ⟨Stmt.forall_walk_set.2 ⟨hw, .inr hv⟩, dues', hle, h',
      fun he => .setting _ _ (hs.1 he), fun strict => hs.2 (strict _ ends)⟩
  | binding nested ih =>
    obtain ⟨s₁, -, hr, h₁, hw⟩ := h.read_headed hr
    obtain ⟨hl, dues', hle, h', hs, hkeeps⟩ := ih h₁ hr
    exact ⟨Tree.forall_walk_map.2 ⟨hw, hl⟩, dues', hle, h', fun he => .binding (hs he), hkeeps⟩
  | definition nested ih =>
    obtain ⟨s₁, -, hr, h₁, hw⟩ := h.read_headed hr
    obtain ⟨hl, dues', hle, h', hs, hkeeps⟩ := ih h₁ hr
    exact ⟨Tree.forall_walk_cmd.2 ⟨hw, hl⟩, dues', hle, h', fun he => .definition (hs he), hkeeps⟩
  | call args free ends =>
    obtain ⟨s₁, hr₁, hr⟩ := reads_cons.1 hr
    obtain ⟨s₂, hr₂, hr⟩ := reads_append.1 hr
    obtain ⟨h₁, hn⟩ := h.read_name free hr₁
    obtain ⟨h₂, hws⟩ := h₁.read_words hr₂
    obtain ⟨dues', hle, h', hs⟩ := h₂.read_end (hsep _ ends) hr
    exact ⟨Stmt.forall_walk_call.2 ⟨hn, hws⟩, dues', hle, h',
      fun he => .call args free (hs.1 he), fun strict => hs.2 (strict _ ends)⟩
  | line g text =>
    obtain ⟨s₁, hr₁, hr⟩ := reads_cons.1 hr
    obtain ⟨lists, rfl, h₁⟩ := h.owing.read_sigil hr₁
    obtain ⟨h', hw⟩ := h₁.read_line hr
    exact ⟨Stmt.forall_walk_exec.2 hw, _, Int.le_refl _, h', fun _ => .line g text, fun _ => rfl⟩
  | block g text ends =>
    obtain ⟨s₁, hr₁, hr⟩ := reads_cons.1 hr
    have hrb : Reads s₁ ([.openBraces, .command text, .closeBraces] ++ _) t := hr
    obtain ⟨s₂, hr₂, hr⟩ := reads_append.1 hrb
    obtain ⟨lists, rfl, h₁⟩ := h.owing.read_sigil hr₁
    obtain ⟨h₂, hw⟩ := h₁.read_block hr₂
    exact ⟨Stmt.forall_walk_exec.2 hw, _, Int.le_refl _, h₂.read_end ends hr,
      fun _ => .block g text ends, fun _ => rfl⟩
  | bracedList items ends ih =>
    obtain ⟨lists, s₁, rfl, -, hr, h₁⟩ := h.read_listHead hr
    obtain ⟨s₂, hr₂, hr⟩ := reads_append.1 hr
    obtain ⟨s₃, hr₃, hr₄⟩ := reads_cons.1 hr
    obtain ⟨hl, dues', hle, h₂, hs, -⟩ := ih h₁ hr₂
    obtain rfl : dues' = 0 := Int.le_antisymm hle h₂.owing.nonneg
    have h₃ := h₂.owing.read_closeBraces hr₃
    exact ⟨Tree.forall_walk_list.2 ⟨trivial, hl⟩, _, Int.le_refl _, h₃.read_end ends hr₄,
      fun _ => .bracedList (hs rfl) ends, fun _ => rfl⟩
  | @lineList first others xs items ih =>
    obtain ⟨s₁, hr₁, hr⟩ := reads_cons.1 hr
    obtain ⟨lists, rfl, h₁⟩ := h.owing.read_colon hr₁
    obtain ⟨x, ys, rfl, hx⟩ := items.items_starts
    obtain ⟨u, h₂, hru⟩ := h₁.exists_ready_of_reads hr (hx.kind_ne hsep)
    have hru : Reads u ((x :: ys) ++ [newline]) t := hru
    obtain ⟨s₂, hr₂, hr₃⟩ := reads_append.1 hru
    obtain ⟨hl, d₁, hle₁, h₃, hs₁, hkeeps⟩ := ih h₂ hr₂
    -- the marker that closes the list pays for the line list that the colon opened
    refine ⟨Tree.forall_walk_list.2 ⟨trivial, hl⟩, d₁ - 1, by omega, h₃.owing.read_newline hr₃,
      fun he => .lineList (hs₁ (by omega)), fun strict => ?_⟩
    rw [hkeeps strict]
    omega
  | nested separate statement ih =>
    obtain ⟨s₁, hr₁, hr⟩ := reads_append.1 hr
    obtain ⟨d₁, hle₁, h₁, hs₁⟩ := h.read_separators (fun x hx => hsep x (separate x hx)) hr₁
    obtain ⟨hl, d₂, hle₂, h₂, hs₂, hkeeps⟩ := ih h₁ hr
    refine ⟨hl, d₂, by omega, h₂, fun he => .nested (hs₁.1 (by omega)) (hs₂ (by omega)),
      fun strict => (hkeeps strict).trans (hs₁.2 fun x hx => strict x (separate x hx))⟩
  | one nested ih =>
    obtain ⟨hl, dues', hle, h', hs, hkeeps⟩ := ih h hr
    exact ⟨List.forall_mem_singleton.2 hl, dues', hle, h', fun he => .one (hs he), hkeeps⟩
  | more nested items ih₁ ih₂ =>
    obtain ⟨s₁, hr₁, hr⟩ := reads_append.1 hr
    obtain ⟨hl₁, d₁, hle₁, h₁, hs₁, hkeeps₁⟩ := ih₁ h hr₁
    obtain ⟨hl₂, d₂, hle₂, h₂, hs₂, hkeeps₂⟩ := ih₂ h₁ hr
    exact ⟨List.forall_mem_cons.2 ⟨hl₁, hl₂⟩, d₂, by omega, h₂,
      fun he => .more (hs₁ (by omega)) (hs₂ (by omega)),
      fun strict => (hkeeps₂ strict).trans (hkeeps₁ strict)⟩
  | finish separate =>
    have hends : ∀ x ∈ _, Terminal.IsEnd x := fun x hx => hsep x (separate x hx)
    obtain ⟨dues', hle, h', hs⟩ := h.read_separators hends hr
    exact ⟨nofun, dues', hle, h', fun he => .finish (hs.1 he),
      fun strict => hs.2 fun x hx => strict x (separate x hx)⟩
  | next nested script ih₁ ih₂ =>
    obtain ⟨s₁, hr₁, hr⟩ := reads_append.1 hr
    obtain ⟨hl₁, d₁, hle₁, h₁, hs₁, hkeeps₁⟩ := ih₁ h hr₁
    obtain ⟨hl₂, d₂, hle₂, h₂, hs₂, hkeeps₂⟩ := ih₂ h₁ hr
    exact ⟨List.forall_mem_cons.2 ⟨hl₁, hl₂⟩, d₂, by omega, h₂,
      fun he => .next (hs₁ (by omega)) (hs₂ (by omega)),
      fun strict => (hkeeps₂ strict).trans (hkeeps₁ strict)⟩

/-- **Where nothing is due a phrase is strict**, and nothing is due after it. -/
theorem Derives.strict {p : Phrase} {xs : List Terminal} (hd : Derives Terminal.IsEnd p xs)
    {s t : Scanner} {saved : List Nat} (h : s.Ready 0 saved) (hr : s.Reads xs t) :
    Derives Terminal.IsSeparator p xs ∧ p.Legible ∧ t.Ready 0 saved := by
  obtain ⟨hl, dues, hle, ht, hs, -⟩ := hd.settles (fun _ => id) h hr
  obtain rfl : dues = 0 := Int.le_antisymm hle ht.owing.nonneg
  exact ⟨hs rfl, hl, ht⟩

/-- **A strict phrase leaves the dues as they are.** -/
theorem Derives.keeps_dues {p : Phrase} {xs : List Terminal}
    (hd : Derives Terminal.IsSeparator p xs) {s t : Scanner} {dues : Int} {saved : List Nat}
    (h : s.Ready dues saved) (hr : s.Reads xs t) : t.Ready dues saved := by
  obtain ⟨-, dues', -, ht, -, hkeeps⟩ := hd.settles (fun _ => .inl) h hr
  exact hkeeps (fun _ => id) ▸ ht

end RcScript
