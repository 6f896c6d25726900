/-
# Steps of reading

A reader stands *at* a scanner when its look-ahead is the next token of that
scanner (`Reader.At`): nothing has been read of the token yet.  To pass the
look-ahead is to ask that scanner, with a flag, and to stand at it again
(`At.exists_passes`, `At.of_passes`).  Steps that each read some terminals read
them all when they are repeated (`at_of_manyWhile`): the guard that makes a
repetition end never stops it early.

The other half of the module takes steps apart where they succeed.  A bind succeeds just
when both of its steps do (`bind_eq_ok_iff`), and each of the steps that touch the reader
has an equivalence of its own; rewriting with these is all that it takes to say when a
longer function succeeds.  A failure leaves nothing to say here, since the functions that
fail are looked at by other judgments.
-/

import RcScript.Proofs.Grammar.Reads
import RcScript.Reader.Statement

namespace RcScript

variable {α β : Type} {r r' : Reader} {s t u : Scanner}

/-- A reader whose look-ahead is the next token of a scanner, and no fault. -/
structure Reader.At (r : Reader) (s : Scanner) : Prop where
  scanner : r.scanner = s.look
  valid : s.Valid
  live : s.done = false
  sound : s.look.fault = none

namespace Scanner

/-- Where terminals were read and no fault comes next there was none before them. -/
theorem Reads.fault_eq_none {xs : List Terminal} (h : Reads s xs t) (ht : t.look.fault = none) :
    s.look.fault = none := by
  cases xs with
  | nil => exact h ▸ ht
  | cons x xs => exact h.2.1

/-- A terminal that is read leaves fewer scans. -/
theorem Reads.scansLeft_lt {x : Terminal} {xs : List Terminal}
    (hx : ∀ y ∈ x :: xs, y.kind ≠ .endOfInput) (h : Reads s (x :: xs) t) (hs : s.Valid) :
    t.look.scansLeft < s.look.scansLeft := by
  induction xs generalizing s x with
  | nil =>
    obtain ⟨hk, -, rfl⟩ := h
    have hd : s.look.done = false := hs.look.not_done (hk.1 ▸ hx x (.head _))
    rw [look_ask hd]
    exact hs.look.scansLeft_scan_lt hd _
  | cons y ys ih =>
    have hd : s.look.done = false := hs.look.not_done (h.1.1 ▸ hx x (.head _))
    refine Nat.lt_trans (ih (List.forall_mem_cons.1 hx).2 h.2.2 (hs.look.ask _)) ?_
    rw [look_ask hd]
    exact hs.look.scansLeft_scan_lt hd _

end Scanner

/-- The look-ahead of a reader is passed, and scanning on meets no fault. -/
def Reader.Passes (begins : Bool) (r r' : Reader) : Prop :=
  Parse.advance begins r = .ok r.token r'

/-- To pass a token completes nothing. -/
theorem Reader.Passes.completed_eq {begins : Bool} (h : r.Passes begins r') :
    r'.completed = r.completed := by
  simp only [Reader.Passes, Parse.advance] at h
  split at h
  · cases h
  · cases h
    rfl

namespace Reader.At

/-- The look-ahead of a reader is the next token of the scanner that it stands at. -/
theorem token_eq (h : r.At s) : r.token = s.look.token := congrArg Scanner.token h.scanner

/-- A reader that stands at a scanner has met no fault. -/
theorem fault_eq_none (h : r.At s) : r.scanner.fault = none := h.scanner ▸ h.sound

/-- The look-ahead was read by a step. -/
theorem step (h : r.At s) : Scanner.Step s r.scanner := h.scanner ▸ Scanner.step_look h.live

/-- A reader stands at no other scanner after some terminals were read. -/
theorem scansLeft_lt {x : Terminal} {xs : List Terminal} (h : r.At s) (h' : r'.At t)
    (hx : ∀ y ∈ x :: xs, y.kind ≠ .endOfInput) (hr : Scanner.Reads s (x :: xs) t) :
    r'.scansLeft < r.scansLeft := by
  rw [Reader.scansLeft, Reader.scansLeft, h.scanner, h'.scanner]
  exact hr.scansLeft_lt hx h.valid

/-- The scanner goes on unless the end of input is ahead. -/
theorem not_done (h : r.At s) (hk : r.token.kind ≠ .endOfInput) : s.look.done = false :=
  h.valid.look.not_done (h.token_eq ▸ hk)

/-- To scan on is to look once more, asked with the flag. -/
theorem scan_eq (h : r.At s) (hk : r.token.kind ≠ .endOfInput) (begins : Bool) :
    r.scanner.scan begins = (s.look.ask begins).look := by
  rw [h.scanner, Scanner.look_ask (h.not_done hk)]

/-- A reader that stands at a scanner passes its look-ahead. -/
theorem exists_passes {begins : Bool} (h : r.At s) (hk : r.token.kind ≠ .endOfInput)
    (hf : (s.look.ask begins).look.fault = none) :
    ∃ r', r.Passes begins r' ∧ r'.At (s.look.ask begins) := by
  have hd := h.not_done hk
  have hscan := h.scan_eq hk begins
  refine ⟨⟨r.scanner.scan begins, begins :: r.asked, r.completed⟩, ?_,
    hscan, h.valid.look.ask begins, hd, hf⟩
  simp only [Reader.Passes, Parse.advance, hscan, hf]

/-- Where a reader stands that has passed its look-ahead. -/
theorem of_passes {begins : Bool} (h : r.At s) (hk : r.token.kind ≠ .endOfInput)
    (hp : r.Passes begins r') : r'.At (s.look.ask begins) := by
  have hd := h.not_done hk
  have hscan := h.scan_eq hk begins
  simp only [Reader.Passes, Parse.advance, hscan] at hp
  split at hp
  · cases hp
  · next hf =>
    cases hp
    exact ⟨rfl, h.valid.look.ask begins, hd, hf⟩

end Reader.At

namespace Parse

variable {p : Parse α} {f : α → Parse β}

/-- **A step after another succeeds just when both do.** -/
theorem bind_eq_ok_iff {b : β} :
    (p >>= f) r = .ok b r' ↔ ∃ a r₁, p r = .ok a r₁ ∧ f a r₁ = .ok b r' := by
  change EStateM.bind p f r = _ ↔ _
  rw [EStateM.bind]
  cases p r <;> simp

/-- What is done with a value succeeds just when the step does. -/
theorem map_eq_ok_iff {g : α → β} {b : β} :
    (g <$> p) r = .ok b r' ↔ ∃ a, p r = .ok a r' ∧ g a = b := by
  change EStateM.map g p r = _ ↔ _
  rw [EStateM.map]
  cases p r <;> simp [and_comm]

/-- A value is given as it is. -/
theorem pure_eq_ok_iff {a b : α} : (pure a : Parse α) r = .ok b r' ↔ a = b ∧ r = r' := by
  change EStateM.Result.ok a r = .ok b r' ↔ _
  simp

/-- The look-ahead is seen as it is. -/
theorem token_eq_ok_iff {a : Token} : token r = .ok a r' ↔ r.token = a ∧ r = r' := by
  simp [token]

/-- What is refused does not succeed. -/
theorem refuse_ne_ok {cause : Cause} {a : α} : refuse cause r ≠ .ok a r' := nofun

/-- The look-ahead is passed just when scanning on meets no fault. -/
theorem advance_eq_ok_iff {begins : Bool} {a : Token} :
    advance begins r = .ok a r' ↔ r.Passes begins r' ∧ a = r.token := by
  constructor
  · intro h
    have ha : a = r.token := by
      simp only [advance] at h
      split at h
      · cases h
      · cases h; rfl
    subst ha
    exact ⟨h, rfl⟩
  · rintro ⟨h, rfl⟩
    exact h

/-- A token that is needed is passed if it is there. -/
theorem expect_eq_ok_iff {kind : TokenKind} {what : Expectation} {a : Token} :
    expect kind what r = .ok a r' ↔ r.token.kind = kind ∧ r.Passes false r' ∧ a = r.token := by
  rw [expect, bind_eq_ok_iff]
  constructor
  · rintro ⟨found, r₁, ht, hf⟩
    obtain ⟨rfl, rfl⟩ := token_eq_ok_iff.1 ht
    split at hf
    · next hk => exact ⟨hk, advance_eq_ok_iff.1 hf⟩
    · exact absurd hf refuse_ne_ok
  · rintro ⟨hk, ha⟩
    exact ⟨_, _, token_eq_ok_iff.2 ⟨rfl, rfl⟩, by rwa [if_pos hk, advance_eq_ok_iff]⟩

section
variable {more : Token → Bool}

/-- A repetition that the look-ahead does not allow is none. -/
theorem manyWhile_of_not_more (h : more r.token = false) : manyWhile more p r = .ok [] r := by
  rw [manyWhile, if_neg (by simp [h])]

/-- A repetition takes a step and goes on. -/
theorem manyWhile_of_ok {a : α} {r₁ : Reader} (hm : more r.token = true) (h : p r = .ok a r₁)
    (hlt : r₁.scansLeft < r.scansLeft) :
    manyWhile more p r = ((a :: ·) <$> manyWhile more p) r₁ := by
  rw [manyWhile, if_pos hm, h]
  change _ = EStateM.map _ _ r₁
  simp only [hlt, dite_true, EStateM.map]
  cases manyWhile more p r₁ <;> rfl

/-- **Steps that each read some terminals read them all**, as long as the
look-ahead allows a step. -/
theorem at_of_manyWhile {P : α → List Terminal → Prop}
    (hP : ∀ a xs, P a xs → xs ≠ [] ∧ ∀ x ∈ xs, x.kind ≠ .endOfInput)
    (hp : ∀ {r s a r'}, r.At s → more r.token = true → p r = .ok a r' →
      ∃ xs t, P a xs ∧ Scanner.Reads s xs t ∧ r'.At t)
    {as : List α} (h : r.At s) (ha : manyWhile more p r = .ok as r') :
    ∃ xss t, List.Forall₂ P as xss ∧ Scanner.Reads s xss.flatten t ∧ r'.At t ∧
      more r'.token = false := by
  fun_induction Parse.manyWhile more p r generalizing s as with
  | case1 => cases ha
  | case2 => cases ha
  | case3 r hm a r₁ h₁ _ as r₂ h₂ ih =>
    cases ha
    obtain ⟨xs, u, hxs, hr, hu⟩ := hp h hm h₁
    obtain ⟨xss, t, hxss, hrs, ht, hstop⟩ := ih hu h₂
    exact ⟨xs :: xss, t, .cons hxs hxss, Scanner.reads_append.2 ⟨u, hr, hrs⟩, ht, hstop⟩
  | case4 r hm a r₁ h₁ hlt =>
    obtain ⟨xs, u, hxs, hr, hu⟩ := hp h hm h₁
    obtain ⟨hne, hk⟩ := hP _ _ hxs
    obtain ⟨x, xs, rfl⟩ := List.exists_cons_of_ne_nil hne
    exact absurd (h.scansLeft_lt hu hk hr) hlt
  | case5 r hm =>
    cases ha
    exact ⟨[], s, .nil, rfl, h, by simpa using hm⟩

end

end Parse
end RcScript
