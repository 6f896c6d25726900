/-
# How scanning ends

The end of a script is read in the normal mode only, and never while a line list is open or
a marker is owed: a scanner that comes to it without a fault is `Finished`, so nothing that
it still had to give is dropped there (`Scanner.Step.finished`).  What a scanner counts is
never negative, and it owes markers in the normal mode only (`Scanner.Balanced`).  Once a
scan has met the end, or a fault, no later scan does anything (`Scanner.scans_finish`).

The three parts do not depend on one another.  The counters are an invariant of every step.
That nothing is owed or open at the end is read off the one step that meets the end of
input without a fault: the scanner tries to end the line first, and only where there is no
line list and no marker is the end left.  That later scans do nothing is a property of the
flag that says whether the scanner is done, and so it holds after a fault too.
-/

import RcScript.Scanner.Action
import RcScript.Proofs.Scanner.Listing
import RcScript.Proofs.Scanner.Onward
import Mathlib

namespace RcScript
namespace Scanner

variable {s t after : Scanner} {begins : Bool} {token : Token}

/-- What a scanner counts is not negative, and while it owes markers any token may follow
them. -/
structure Balanced (s : Scanner) : Prop where
  owed : 0 ≤ s.owed
  lineLists : 0 ≤ s.lineLists
  saved : ∀ outside ∈ s.saved, 0 ≤ outside
  normal : 0 < s.owed → s.mode = .normal

/-- A scanner that has nothing left to read and nothing left to give: no marker, no line
list, and nothing that must follow a colon, a sigil or braces. -/
structure Finished (s : Scanner) : Prop where
  rest : s.rest = []
  owed : s.owed = 0
  lineLists : s.lineLists = 0
  mode : s.mode = .normal

/-! ### What one token leaves -/

/-- Markers come to be owed at the end of a line, where any token may follow. -/
theorem TokenRead.normal_of_owed (read : TokenRead begins s token after) (ho : s.owed = 0)
    (hm : s.mode = .normal) : after.owed ≠ 0 → after.mode = .normal := by
  intro hafter
  cases read with
  | finish | lineEnd | separator | openBraces | word => exact hm
  | closeBraces =>
    rw [owed_closeBraces] at hafter
    exact absurd ho hafter
  | colon | sigil => exact absurd ho hafter

/-- The end is read where nothing is left and no line list is open. -/
theorem TokenRead.finished (read : TokenRead begins s token after) (ho : s.owed = 0)
    (hm : s.mode = .normal) (hk : token.kind = .endOfInput) : (after.hold token).Finished := by
  cases read with
  | finish rest lists => exact ⟨rest, ho, lists, hm⟩
  | lineEnd | separator | openBraces | closeBraces | colon | sigil | word => cases hk

/-- **A step behind which markers are owed leaves the scanner in the normal mode.** -/
theorem Step.normal_of_owed (step : Step s t) (hs : s.owed ≠ 0 → s.mode = .normal) :
    t.owed ≠ 0 → t.mode = .normal := by
  cases step with
  | owed owed => exact fun _ => hs owed
  | token owed mode read => exact read.normal_of_owed owed rfl
  | lineList owed mode rest read => exact read.normal_of_owed owed rfl
  | terminator owed mode rest read => exact read.normal_of_owed owed rfl
  | block owed => exact fun ht => absurd owed ht
  | bracedList | noCommand | openCommand | command | openBlock | blockText | lineEnd | stray =>
    exact fun _ => rfl

/-- **A step to the end that meets no fault finishes the scanner.**  The end is no marker, a
line list that a colon has just opened is closed by a marker first, and what must follow a
sigil or braces is a fault where it is missing. -/
theorem Step.finished (step : Step s t) (hk : t.token.kind = .endOfInput)
    (hf : t.fault = none) : t.Finished := by
  cases step with
  | token owed mode read => exact read.finished owed rfl hk
  | lineList owed mode rest read => exact read.finished owed rfl hk
  | terminator owed mode rest read => exact read.finished owed rfl hk
  | noCommand | openCommand | openBlock | stray => exact absurd hf (Option.some_ne_none _)
  | owed | bracedList | block | command | blockText | lineEnd => cases hk

/-! ### Along a whole run -/

/-- A scanner with nothing left stands at the end of its script. -/
theorem Onward.offset_eq {source filename : String} (h : Onward (ofText source filename) s)
    (hr : s.rest = []) : s.cursor.offset = source.length := by
  obtain ⟨-, k, hk⟩ := h
  have hcursor : s.cursor = (Cursor.ofText source.toList).forward k := hk
  have hlen : source.toList.length ≤ k := by
    rw [rest, hcursor, Cursor.rest_forward] at hr
    exact List.drop_eq_nil_iff.1 hr
  rw [hcursor, Cursor.offset_forward]
  change 0 + min k source.toList.length = source.length
  rw [Nat.zero_add, Nat.min_eq_right hlen, String.length_toList]

/-- **What a run of scans comes to**: a valid scanner further on in the script, done just where
it has met the end, which owes markers in the normal mode only and is finished if it has met
the end without a fault. -/
theorem scans_sound (source filename : String) (flags : List Bool) :
    ((start source filename).scans flags).Valid ∧
      Onward (ofText source filename) ((start source filename).scans flags) ∧
      (((start source filename).scans flags).done = true ↔
        ((start source filename).scans flags).token.kind = .endOfInput) ∧
      (((start source filename).scans flags).owed ≠ 0 →
        ((start source filename).scans flags).mode = .normal) ∧
      (((start source filename).scans flags).token.kind = .endOfInput →
        ((start source filename).scans flags).fault = none →
        ((start source filename).scans flags).Finished) := by
  obtain ⟨s, hs, hd, ⟨honward, howed⟩, hscans⟩ := exists_look_of_scans
    (P := fun s => Onward (ofText source filename) s ∧ (s.owed ≠ 0 → s.mode = .normal))
    ⟨Onward.refl _, fun _ => rfl⟩ (fun s begins h => ⟨⟨h.1.filename, h.1.cursor⟩, h.2⟩)
    (fun s _ hd h _ => ⟨h.1.trans (onward_look s), (step_look hd).normal_of_owed h.2⟩) flags
  rw [hscans]
  have step := step_look hd
  exact ⟨hs.scan false, honward.trans step.onward, step.done_iff, step.normal_of_owed howed,
    step.finished⟩

/-- A scan leaves a scanner done just where it has come to the end. -/
theorem Valid.done_scan (hs : s.Valid) (begins : Bool) :
    (s.scan begins).done = decide ((s.scan begins).token.kind = .endOfInput) := by
  rw [Bool.eq_iff_iff, decide_eq_true_iff]
  refine ⟨fun hd => congrArg Token.kind ((hs.scan begins).ended hd), fun hk => ?_⟩
  cases hd : s.done with
  | true => rwa [scan_of_done hd]
  | false =>
    rw [← look_ask hd] at hk ⊢
    exact (done_look_iff (s := s.ask begins) hd).2 hk

/-- Every scan answers that there is no further token, and changes nothing. -/
def Rests (s : Scanner) : Prop :=
  ∀ later : List Bool, s.performAll (later.map .scan) = (later.map fun _ => .flag false, s)

/-- **A scanner that is done rests.** -/
theorem rests_of_done (hd : s.done = true) : s.Rests := by
  intro later
  induction later with
  | nil => rfl
  | cons begins later ih =>
    have hperform : s.perform (.scan begins) = (.flag false, s) := by
      rw [perform, scan_of_done hd, hd]
      rfl
    rw [List.map_cons, performAll, hperform, List.map_cons]
    exact congrArg (fun rest => (Answer.flag false :: rest.1, rest.2)) ih

/-- A scanner of a script whose end is clean and final. -/
structure EndsCleanly (source : String) (s : Scanner) : Prop where
  balanced : s.Balanced
  /-- at the end without a fault, the whole script is read and nothing is left to give -/
  finished : s.token.kind = .endOfInput → s.fault = none →
    s.cursor.offset = source.length ∧ s.Finished
  /-- a scan answers whether it has come to a token before the end -/
  answer : ∀ begins, s.perform (.scan begins) =
    (.flag (decide ((s.scan begins).token.kind ≠ .endOfInput)), s.scan begins)
  /-- a scan that has come to the end, or to a fault, is the last that does anything -/
  final : ∀ begins, (s.perform (.scan begins)).1 = .flag false → (s.scan begins).Rests
  ended : s.token.kind = .endOfInput → s.Rests

/-- **The end of a script is clean and final**, whatever flags its scans are given.  All along,
nothing that the scanner counts is negative, and it owes markers in the normal mode only.
Where it has come to the end without a fault, it has passed the whole script and dropped
nothing.  Once a scan has said that there is no further token, every later scan says so too
and leaves the scanner as it is, and so it is where the first token of the script, which no
scan is asked for, is the end. -/
theorem scans_finish (source filename : String) (flags : List Bool) :
    EndsCleanly source ((start source filename).scans flags) := by
  obtain ⟨hs, honward, hdone, howed, hfinished⟩ := scans_sound source filename flags
  refine
    { balanced := ⟨hs.owed, Nat.zero_le _, fun _ _ => Nat.zero_le _, fun h => howed h.ne'⟩
      finished := fun hk hf => ⟨honward.offset_eq (hfinished hk hf).rest, hfinished hk hf⟩
      answer := fun begins => ?_
      final := fun begins hflag => ?_
      ended := fun hk => rests_of_done (hdone.2 hk) }
  · refine congrArg (Answer.flag · , scan begins _) ?_
    rw [decide_not, ← hs.done_scan begins]
  · have hnot : (!(scan begins ((start source filename).scans flags)).done) = false :=
      Answer.flag.inj hflag
    exact rests_of_done (by simpa using hnot)

/-- A command that ends with the script, in a line list: the end of its line owes a marker for
each of them. -/
theorem scans_finish_command :
    ((start ":$a" unnamed).scans [false, false]).owed = 2 ∧
      ((start ":$a" unnamed).scans [false, false]).mode = .normal ∧
      ((start ":$a" unnamed).scans [true, false, true, false, true]).cursor.offset = 3 ∧
      ((start ":$a" unnamed).scans [true, false, true, false, true]).Finished ∧
      ((start ":$a" unnamed).scans [true, false, true, false, true]).Rests := by
  have howed : ((start ":$a" unnamed).scans [false, false]).owed = 2 := by cbv
  have hk : ((start ":$a" unnamed).scans [true, false, true, false, true]).token.kind =
      .endOfInput := by cbv
  have hf : ((start ":$a" unnamed).scans [true, false, true, false, true]).fault = none := by cbv
  have hmode := (scans_finish ":$a" unnamed [false, false]).balanced.normal
    (howed ▸ by decide)
  have hend := scans_finish ":$a" unnamed [true, false, true, false, true]
  obtain ⟨hoffset, hfinished⟩ := hend.finished hk hf
  exact ⟨howed, hmode, hoffset, hfinished, hend.ended hk⟩

end Scanner
end RcScript
