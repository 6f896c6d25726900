/-
# How reading goes on

A step of reading comes to a value or to a failure, and either way the reader has
only scanned on: every scan is in its record, and none was made at the end of the
script (`Reader.Reaches`).  A reader that fails has been halted by the scanner, or
refuses its look-ahead, or stands as deep as it may (`Reader.Stops`).  The judgment
`Parse.Proceeds` says what holds of the value and of the failure.  It is carried
along `bind` and along repetition, so for each step of reading it is proved from the
steps that it is made of.

A repetition ends because its guard would stop it, but the guard never does: a step
that passes tokens is taken as often as the look-ahead asks for
(`repeats_manyWhile`).

The judgment is stated for one reader and not for a step as such, because what a step does
depends on the look-ahead: a setting is only read where its keyword is ahead.  It says two
things at once, that the step comes to an end without going through the end of the script,
and what then holds.  The first is the same everywhere and is kept by the judgment itself
(`Ends.after`); the second is given by the postconditions, one for values and one for
failures.
-/

import RcScript.Proofs.Reader.Steps
import RcScript.Proofs.Scanner.Listing

namespace RcScript

variable {α β : Type} {r r₁ r₂ : Reader} {s : Scanner}

namespace Reader

/-- A reader has become another one by scans that are all recorded, none of them made
at the end of the script. -/
def Reaches (r r' : Reader) : Prop :=
  ∃ flags, r.scanner.Leads flags r'.scanner ∧ r'.asked = flags ++ r.asked

/-- A reader is reached from itself. -/
theorem Reaches.refl (r : Reader) : r.Reaches r := ⟨[], .start, rfl⟩

/-- What is reached from what is reached is reached. -/
theorem Reaches.trans (h₁ : r.Reaches r₁) (h₂ : r₁.Reaches r₂) : r.Reaches r₂ := by
  obtain ⟨flags, hl, ha⟩ := h₁
  obtain ⟨later, hl', ha'⟩ := h₂
  exact ⟨later ++ flags, hl.trans hl', by rw [ha', ha, List.append_assoc]⟩

/-- A reader that has met no fault. -/
def Live (r : Reader) : Prop := ∃ s, r.At s

/-- A reader has passed tokens and met no fault. -/
structure Advances (r r' : Reader) : Prop where
  live : r'.Live
  lt : r'.scansLeft < r.scansLeft

/-- Tokens that are passed one after the other are passed. -/
theorem Advances.trans (h₁ : r.Advances r₁) (h₂ : r₁.Advances r₂) : r.Advances r₂ :=
  ⟨h₂.live, Nat.lt_trans h₂.lt h₁.lt⟩

/-- The scanner has met a fault, which is the failure. -/
def Halts (failure : Failure) (r : Reader) : Prop :=
  ∃ fault, failure = .fault fault ∧ r.scanner.fault = some fault ∧
    fault.category = .lexical ∧ r.token = Token.endAt fault.position

/-- How a reader fails. -/
inductive Stops : Failure → Reader → Prop
  | halt {failure : Failure} {r : Reader} (halts : Halts failure r) : Stops failure r
  /-- the look-ahead cannot stand where it stands -/
  | refuse {r : Reader} (live : r.Live) (cause : Cause) :
      Stops (.fault (Fault.atToken r.token cause r.scanner.filename)) r
  | tooDeep {r : Reader} (live : r.Live) :
      Stops (.fault ⟨.malformed, .nestedTooDeeply, r.scanner.filename, r.token.position⟩) r

end Reader

namespace Parse

/-- What a step comes to: a value or a failure, and a reader that was reached. -/
inductive Ends (r : Reader) (Q : α → Reader → Prop) (E : Failure → Reader → Prop) :
    EStateM.Result Failure Reader α → Prop
  | ok {a : α} {r' : Reader} (reaches : r.Reaches r') (holds : Q a r') : Ends r Q E (.ok a r')
  | error {failure : Failure} {r' : Reader} (reaches : r.Reaches r') (fails : E failure r') :
      Ends r Q E (.error failure r')

/-- A step reaches another reader, with a value of which something holds, or with a
failure of which something else does. -/
def Proceeds (p : Parse α) (r : Reader) (Q : α → Reader → Prop) (E : Failure → Reader → Prop) :
    Prop := Ends r Q E (p r)

section
variable {p : Parse α} {f : α → Parse β} {Q Q' : α → Reader → Prop} {R : β → Reader → Prop}
  {E E' : Failure → Reader → Prop}

/-- What was reached from a reader that was reached was reached. -/
theorem Ends.after {result : EStateM.Result Failure Reader α} (h : Ends r₁ Q E result)
    (hr : r.Reaches r₁) : Ends r Q E result := by
  cases h with
  | ok reaches holds => exact .ok (hr.trans reaches) holds
  | error reaches fails => exact .error (hr.trans reaches) fails

/-- What is known of a step that gives a value. -/
theorem Proceeds.of_ok {a : α} (h : Proceeds p r Q E) (ha : p r = .ok a r₁) :
    r.Reaches r₁ ∧ Q a r₁ := by
  rw [Proceeds, ha] at h
  cases h with
  | ok reaches holds => exact ⟨reaches, holds⟩

/-- What is known of a step that fails. -/
theorem Proceeds.of_error {failure : Failure} (h : Proceeds p r Q E)
    (ha : p r = .error failure r₁) : r.Reaches r₁ ∧ E failure r₁ := by
  rw [Proceeds, ha] at h
  cases h with
  | error reaches fails => exact ⟨reaches, fails⟩

/-- A step proceeds to whatever follows from what it proceeds to. -/
theorem Proceeds.mono (h : Proceeds p r Q E) (hQ : ∀ a r', Q a r' → Q' a r')
    (hE : ∀ failure r', E failure r' → E' failure r') : Proceeds p r Q' E' := by
  unfold Proceeds at h ⊢
  generalize p r = result at h ⊢
  cases h with
  | ok reaches holds => exact .ok reaches (hQ _ _ holds)
  | error reaches fails => exact .error reaches (hE _ _ fails)

/-- To give a value proceeds to it. -/
theorem proceeds_pure {a : α} (h : Q a r) : Proceeds (pure a) r Q E := .ok (.refl r) h

/-- **One step after another proceeds as both do.** -/
theorem Proceeds.bind (hp : Proceeds p r Q E) (hf : ∀ a r', Q a r' → Proceeds (f a) r' R E) :
    Proceeds (p >>= f) r R E := by
  unfold Proceeds at hp ⊢
  change Ends r R E (EStateM.bind p f r)
  rw [EStateM.bind]
  generalize p r = result at hp ⊢
  cases hp with
  | ok reaches holds => exact (hf _ _ holds).after reaches
  | error reaches fails => exact .error reaches fails

/-- What is done with a value is done where the step proceeds to it. -/
theorem Proceeds.map {g : α → β} (hp : Proceeds p r Q E) (hg : ∀ a r', Q a r' → R (g a) r') :
    Proceeds (g <$> p) r R E := by
  unfold Proceeds at hp ⊢
  change Ends r R E (EStateM.map g p r)
  rw [EStateM.map]
  generalize p r = result at hp ⊢
  cases hp with
  | ok reaches holds => exact .ok reaches (hg _ _ holds)
  | error reaches fails => exact .error reaches fails

/-- To see the look-ahead is no step. -/
theorem Proceeds.token_bind {f : Token → Parse β} (h : Proceeds (f r.token) r R E) :
    Proceeds (token >>= f) r R E := h

/-- To note that a statement is complete is no scan. -/
theorem Proceeds.completed {p : Parse Stmt} {Q : Option Stmt → Reader → Prop}
    (hp : Proceeds p r (fun stmt r' =>
      Q (some stmt) { r' with completed := stmt :: r'.completed }) E) :
    Proceeds (do
      let stmt ← p
      complete stmt
      return some stmt) r Q E := by
  refine hp.bind fun stmt r' hQ => ?_
  exact .ok ⟨[], .start, rfl⟩ hQ

/-- To refuse the look-ahead is to stop. -/
theorem proceeds_refuse (h : r.Live) (cause : Cause) :
    Proceeds (refuse cause) r Q Reader.Stops := .error (.refl r) (.refuse h cause)

end

/-- **To pass the look-ahead is to stand at the next token**, or to be halted. -/
theorem proceeds_advance (h : r.At s) (hk : r.token.kind ≠ .endOfInput) (begins : Bool) :
    Proceeds (advance begins) r (fun found r' => found = r.token ∧
      r'.At (s.look.ask begins) ∧ r'.scansLeft < r.scansLeft) Reader.Halts := by
  have hd := h.not_done hk
  have hv : (s.look.ask begins).Valid := h.valid.look.ask begins
  have hscan := h.scan_eq hk begins
  have hlt : (s.look.ask begins).look.scansLeft < r.scansLeft := by
    rw [Scanner.look_ask hd, Reader.scansLeft, h.scanner]
    exact h.valid.look.scansLeft_scan_lt hd begins
  have hreach : r.Reaches ⟨r.scanner.scan begins, begins :: r.asked, r.completed⟩ :=
    ⟨[begins], .scan begins .start hk, rfl⟩
  rw [hscan] at hreach
  simp only [Proceeds, advance, hscan]
  cases hf : (s.look.ask begins).look.fault with
  | none => exact .ok hreach ⟨rfl, ⟨rfl, hv, hd, hf⟩, hlt⟩
  | some fault =>
    have step : Scanner.Step (s.look.ask begins) (s.look.ask begins).look := Scanner.step_look hd
    obtain ⟨hc, ht⟩ := step.of_fault (h.valid.look.fault_eq_none hd) hf
    exact .error hreach ⟨fault, rfl, hf, hc, ht⟩

/-- To pass the look-ahead is to advance, or to stop. -/
theorem proceeds_advance_live (h : r.Live) (hk : r.token.kind ≠ .endOfInput) (begins : Bool) :
    Proceeds (advance begins) r (fun _ => r.Advances) Reader.Stops := by
  obtain ⟨s, h⟩ := h
  refine (proceeds_advance h hk begins).mono ?_ fun _ _ => .halt
  rintro _ r' ⟨-, h', hlt⟩
  exact ⟨⟨_, h'⟩, hlt⟩

/-- A token that is needed and is there is passed. -/
theorem expect_of_kind {kind : TokenKind} (h : r.token.kind = kind) (what : Expectation) :
    expect kind what r = advance false r := by
  change (if r.token.kind = kind then advance false else refuse (.expected what r.token)) r = _
  rw [if_pos h]

/-- A token that is needed is passed, or reading stops. -/
theorem proceeds_expect (h : r.Live) (kind : TokenKind) (what : Expectation)
    (hk : kind ≠ .endOfInput) :
    Proceeds (expect kind what) r (fun _ => r.Advances) Reader.Stops := by
  refine Proceeds.token_bind ?_
  split
  · next hkind => exact proceeds_advance_live h (hkind ▸ hk) false
  · exact proceeds_refuse h _

section
variable {p : Parse α} {more : Token → Bool}

/-- What repeating a step comes to: the step is taken for as long as the look-ahead
asks for it, and its failure ends the repetition. -/
inductive Repeats (more : Token → Bool) (p : Parse α) :
    Reader → EStateM.Result Failure Reader (List α) → Prop
  | finish {r : Reader} (stop : more r.token = false) : Repeats more p r (.ok [] r)
  | fail {r r' : Reader} {failure : Failure} (again : more r.token = true)
      (step : p r = .error failure r') : Repeats more p r (.error failure r')
  | next {r r' final : Reader} {a : α} {as : List α} (again : more r.token = true)
      (step : p r = .ok a r') (rest : Repeats more p r' (.ok as final)) :
      Repeats more p r (.ok (a :: as) final)
  | failLater {r r' final : Reader} {a : α} {failure : Failure} (again : more r.token = true)
      (step : p r = .ok a r') (rest : Repeats more p r' (.error failure final)) :
      Repeats more p r (.error failure final)

/-- **What a step keeps is kept by its repetition**, which goes on until the look-ahead ends
it. -/
theorem proceeds_manyWhile_of {I : Reader → Prop} {E : Failure → Reader → Prop}
    (hp : ∀ r, I r → more r.token = true →
      Proceeds p r (fun _ r' => I r' ∧ r'.scansLeft < r.scansLeft) E) (h : I r) :
    Proceeds (manyWhile more p) r (fun _ r' => I r' ∧ more r'.token = false) E := by
  unfold Proceeds
  fun_induction Parse.manyWhile more p r with
  | case1 r hm failure after hfail =>
    obtain ⟨reaches, fails⟩ := (hp r h hm).of_error hfail
    exact .error reaches fails
  | case2 r hm a after hok hlt failure final hfail ih =>
    obtain ⟨reaches, hI, -⟩ := (hp r h hm).of_ok hok
    have hrest := (ih hI).after reaches
    rw [hfail] at hrest
    cases hrest with
    | error reaches fails => exact .error reaches fails
  | case3 r hm a after hok hlt as final hend ih =>
    obtain ⟨reaches, hI, -⟩ := (hp r h hm).of_ok hok
    have hrest := (ih hI).after reaches
    rw [hend] at hrest
    cases hrest with
    | ok reaches holds => exact .ok reaches holds
  | case4 r hm a after hok hlt =>
    obtain ⟨-, -, hlt'⟩ := (hp r h hm).of_ok hok
    exact absurd hlt' hlt
  | case5 r hm => exact .ok (.refl r) ⟨h, by simpa using hm⟩

variable (hp : ∀ r : Reader, r.Live → more r.token = true →
  Proceeds p r (fun _ => r.Advances) Reader.Stops)
include hp

/-- **A repetition goes on until the look-ahead ends it.** -/
theorem proceeds_manyWhile (h : r.Live) :
    Proceeds (manyWhile more p) r (fun _ r' => r'.Live ∧ r'.scansLeft ≤ r.scansLeft ∧
      more r'.token = false) Reader.Stops := by
  refine (proceeds_manyWhile_of (I := fun r' => r'.Live ∧ r'.scansLeft ≤ r.scansLeft)
    (fun r₁ hI hm => (hp r₁ hI.1 hm).mono (fun _ r₂ h₂ => ?_) fun _ _ => id)
    ⟨h, Nat.le_refl _⟩).mono ?_ fun _ _ => id
  · exact ⟨⟨h₂.live, Nat.le_trans (Nat.le_of_lt h₂.lt) hI.2⟩, h₂.lt⟩
  · rintro _ r₁ ⟨⟨live, hle⟩, hstop⟩
    exact ⟨live, hle, hstop⟩

/-- **The guard of a repetition never ends it.** -/
theorem repeats_manyWhile (h : r.Live) : Repeats more p r (manyWhile more p r) := by
  fun_induction Parse.manyWhile more p r with
  | case1 r hm failure after hfail => exact .fail hm hfail
  | case2 r hm a after hok hlt failure final hfail ih =>
    obtain ⟨-, advances⟩ := (hp r h hm).of_ok hok
    exact .failLater hm hok (hfail ▸ ih advances.live)
  | case3 r hm a after hok hlt as final hend ih =>
    obtain ⟨-, advances⟩ := (hp r h hm).of_ok hok
    exact .next hm hok (hend ▸ ih advances.live)
  | case4 r hm a after hok hlt =>
    obtain ⟨-, advances⟩ := (hp r h hm).of_ok hok
    exact absurd advances.lt hlt
  | case5 r hm => exact .finish (by simpa using hm)

end

end Parse
end RcScript
