/-
# What every scanner keeps

However a scanner is asked, it owes no negative number of markers, it is done
where its look-ahead is the end of input, a statement may begin after each of its
separators, and a fault ends it.  `Valid` holds at the start and after every scan
(`Valid.scan`).  The fault is lexical, and it is where the look-ahead then is
(`Step.of_fault`).

A scanner that someone has made up need not be valid, and what is proved about runs
assumes that it is.  The four parts of the definition are what the rest needs to know of
the state before a step: that markers are owed or not, that the end of input has the place
of the cursor and no text, that the flag is up after a separator, and that a scanner with
a fault does not go on.
-/

import RcScript.Proofs.Scanner.Progress

namespace RcScript
namespace Scanner

variable {s t : Scanner}

/-- What holds of a scanner whatever it has been asked. -/
structure Valid (s : Scanner) : Prop where
  owed : 0 ≤ s.owed
  ended : s.done = true → s.token = Token.endAt s.token.position
  separator : s.token.kind = .semicolon → s.beginsStatement = true
  halted : s.fault ≠ none → s.done = true

/-- A scanner is valid before its first token. -/
theorem valid_ofText (source filename : String) : (ofText source filename).Valid :=
  ⟨Int.le_refl _, nofun, nofun, fun h => absurd rfl h⟩

/-- A scanner that is not done has met no fault. -/
theorem Valid.fault_eq_none (h : s.Valid) (hd : s.done = false) : s.fault = none := by
  by_contra hf
  rw [h.halted hf] at hd
  cases hd

/-- A scanner with another look-ahead than the end of input is not done. -/
theorem Valid.not_done (h : s.Valid) (hk : s.token.kind ≠ .endOfInput) : s.done = false := by
  by_contra hd
  exact hk (congrArg Token.kind (h.ended (by simpa using hd)))

/-- A request keeps a scanner valid. -/
theorem Valid.ask (h : s.Valid) (begins : Bool) : (s.ask begins).Valid :=
  ⟨h.owed, h.ended, fun hk => by simp [Scanner.ask, h.separator hk], h.halted⟩

/-- Holding a token makes a valid scanner if no fault has been met. -/
theorem valid_hold {token : Token} (ho : 0 ≤ s.owed) (hf : s.fault = none)
    (he : token.kind = .endOfInput → token = Token.endAt token.position)
    (hk : token.kind = .semicolon → s.beginsStatement = true) : (s.hold token).Valid :=
  ⟨ho, fun h => he (of_decide_eq_true h), hk, fun h => absurd hf h⟩

/-- Meeting a fault makes a valid scanner. -/
theorem valid_halt {fault : Fault} (ho : 0 ≤ s.owed) : (s.halt fault).Valid :=
  ⟨ho, fun _ => rfl, nofun, fun _ => rfl⟩

/-- Closing braces does not change what is owed. -/
theorem owed_closeBraces (s : Scanner) : s.closeBraces.owed = s.owed := by
  rw [closeBraces_eq]

/-- Closing braces meets no fault. -/
theorem fault_closeBraces (s : Scanner) : s.closeBraces.fault = s.fault := by
  rw [closeBraces_eq]

/-- Reading a token makes a valid scanner. -/
theorem TokenRead.valid {begins : Bool} {token : Token} {after : Scanner}
    (h : TokenRead begins s token after) (ho : s.owed = 0) (hf : s.fault = none) :
    (after.hold token).Valid := by
  cases h with
  | finish => exact valid_hold (ho ▸ Int.le_refl _) hf (fun _ => rfl) (by simp)
  | lineEnd rest lists =>
    refine valid_hold ?_ hf (by simp) (fun _ => rfl)
    simp only [takeLineEnd, newlineMarker, endLine]
    have : s.skip.owed = 0 := ho
    have : s.skip.lineLists = s.lineLists := rfl
    omega
  | separator => exact valid_hold (ho ▸ Int.le_refl _) hf (by simp) (fun _ => rfl)
  | openBraces => exact valid_hold (ho ▸ Int.le_refl _) hf (by simp) (by simp)
  | closeBraces =>
    refine valid_hold ?_ ?_ (by simp) (by simp)
    · rw [owed_closeBraces]
      exact ho ▸ Int.le_refl _
    · rw [fault_closeBraces]
      exact hf
  | colon => exact valid_hold (ho ▸ Int.le_refl _) hf (by simp) (by simp)
  | sigil => exact valid_hold (ho ▸ Int.le_refl _) hf (by simp) (by simp)
  | word => exact valid_hold (ho ▸ Int.le_refl _) hf (by simp) (by simp)

/-- **A step keeps a scanner valid.** -/
theorem Step.valid (h : Step s t) (hs : s.Valid) (hd : s.done = false) : t.Valid := by
  have hf := hs.fault_eq_none hd
  have ho := hs.owed
  cases h with
  | owed owed => exact valid_hold (show 0 ≤ s.owed - 1 by omega) hf (by simp) (fun _ => rfl)
  | token owed mode read => exact read.valid owed hf
  | bracedList => exact valid_hold ho hf (by simp) (by simp)
  | lineList owed mode rest read => exact read.valid owed hf
  | block => exact valid_hold ho hf (by simp) (by simp)
  | noCommand => exact valid_halt ho
  | openCommand => exact valid_halt ho
  | command =>
    refine valid_hold ?_ hf (by simp) (by simp)
    exact Int.add_nonneg (Int.add_nonneg ho (by decide)) (Int.natCast_nonneg _)
  | openBlock => exact valid_halt ho
  | blockText => exact valid_hold ho hf (by simp) (by simp)
  | terminator owed mode rest read => exact read.valid owed hf
  | lineEnd owed mode rest =>
    refine valid_hold ?_ hf (by simp) (fun _ => rfl)
    simp only [takeLineEnd, newlineMarker, endLine]
    have : s.resume.skipBlanks.owed = 0 := owed
    omega
  | stray => exact valid_halt ho

/-- Reading a token meets no fault. -/
theorem TokenRead.fault_eq {begins : Bool} {token : Token} {after : Scanner}
    (h : TokenRead begins s token after) : after.fault = s.fault := by
  cases h with
  | closeBraces => exact fault_closeBraces _
  | _ => rfl

/-- **A fault that a step meets is lexical**, and the look-ahead ends where it is. -/
theorem Step.of_fault {fault : Fault} (h : Step s t) (hs : s.fault = none)
    (ht : t.fault = some fault) :
    fault.category = .lexical ∧ t.token = Token.endAt fault.position := by
  have sound : ∀ {u : Scanner} {token : Token}, u.fault = s.fault →
      (u.hold token).fault ≠ some fault := by
    intro u token hu hf
    have hf : u.fault = some fault := hf
    rw [hu, hs] at hf
    cases hf
  cases h with
  | noCommand | openCommand | openBlock | stray =>
    cases ht
    exact ⟨rfl, rfl⟩
  | token owed mode read => exact absurd ht (sound read.fault_eq)
  | lineList owed mode rest read => exact absurd ht (sound read.fault_eq)
  | terminator owed mode rest read => exact absurd ht (sound read.fault_eq)
  | _ => exact absurd ht (sound rfl)

/-- A scanner that holds a token is done just when it is the end of input. -/
theorem done_hold_iff {token : Token} :
    (s.hold token).done = true ↔ (s.hold token).token.kind = .endOfInput := decide_eq_true_iff

/-- A scanner that has halted is done, and has the end of input ahead. -/
theorem done_halt_iff {fault : Fault} :
    (s.halt fault).done = true ↔ (s.halt fault).token.kind = .endOfInput :=
  ⟨fun _ => rfl, fun _ => rfl⟩

/-- A scanner is done just when its last look met the end, or a fault. -/
theorem Step.done_iff (h : Step s t) : t.done = true ↔ t.token.kind = .endOfInput := by
  cases h with
  | noCommand | openCommand | openBlock | stray => exact done_halt_iff
  | _ => exact done_hold_iff

/-- A look leaves a scanner done just when it meets the end. -/
theorem done_look_iff (hd : s.done = false) :
    s.look.done = true ↔ s.look.token.kind = .endOfInput := (step_look hd).done_iff

/-- **A scan keeps a scanner valid.** -/
theorem Valid.scan (h : s.Valid) (begins : Bool) : (s.scan begins).Valid := by
  by_cases hd : s.done = true
  · rwa [scan_of_done hd]
  · rw [Bool.not_eq_true] at hd
    rw [← look_ask hd]
    exact (step_look (s := s.ask begins) hd).valid (h.ask begins) hd

/-- A scanner is valid at its first token. -/
theorem valid_start (source filename : String) : (start source filename).Valid :=
  (valid_ofText source filename).scan false

/-- **A scan of a scanner that is not done leaves fewer scans.** -/
theorem Valid.scansLeft_scan_lt (h : s.Valid) (hd : s.done = false) (begins : Bool) :
    (s.scan begins).scansLeft < s.scansLeft := by
  have hlt := (step_look (s := s.ask begins) hd).scansLeft_lt hd h.owed
  rwa [look_ask hd] at hlt

end Scanner
end RcScript
