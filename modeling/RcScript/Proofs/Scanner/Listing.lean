/-
# Listing the tokens of a script

`Lists s tokens u` says that the tokens come after `s` one by one, each a step further and
asked for with any flag, up to the end of input, where the scanner stands at `u`.  A valid
scanner lists the tokens that it collects, whatever the flags (`Valid.lists_tokens`), so
what a step keeps is carried along a whole run by one induction.  `Leads` is the same seen
from behind: it records the flags of the scans made so far.  A run is no longer than the
scans that are left (`Leads.scansLeft_le`), and these are bounded by the length of the
script (`scansLeft_ofText_le`).

Tokens are collected with a list of flags, and when the flags are used up the scanner is
asked without one.  That no run goes on for ever is part of `Lists`, since it ends with the
end of input.  Looks are easier to reason about than scans, for a scan does two things;
`exists_look_of_scans` says that whatever scans lead to is also led to by some looks.
-/

import RcScript.Proofs.Scanner.Valid
import Mathlib.Data.List.Induction
import Mathlib.Tactic.Ring

namespace RcScript
namespace Scanner

variable {s t u : Scanner} {tokens : List Token} {flags : List Bool}

/-- The tokens that come after a scanner, down to the end of input, and the
scanner that has read the last of them. -/
inductive Lists : Scanner → List Token → Scanner → Prop
  | finish {s t : Scanner} (step : Step s t) (last : t.token.kind = .endOfInput) :
      Lists s [t.token] t
  | next {s t u : Scanner} {tokens : List Token} (begins : Bool) (step : Step s t)
      (more : t.token.kind ≠ .endOfInput) (rest : Lists (t.ask begins) tokens u) :
      Lists s (t.token :: tokens) u

/-- A scanner asked with some flags, the latest first, never at the end of input,
has come to be another one. -/
inductive Leads (s : Scanner) : List Bool → Scanner → Prop
  | start : Leads s [] s
  | scan {flags : List Bool} {t : Scanner} (begins : Bool) (earlier : Leads s flags t)
      (more : t.token.kind ≠ .endOfInput) : Leads s (begins :: flags) (t.scan begins)

/-- The scanner after scans with the given flags. -/
def scans (flags : List Bool) (s : Scanner) : Scanner :=
  flags.foldl (fun s begins => s.scan begins) s

/-- The first flag is for the first scan. -/
theorem scans_cons (begins : Bool) (flags : List Bool) (s : Scanner) :
    s.scans (begins :: flags) = (s.scan begins).scans flags := rfl

/-- A scanner that is done stays as it is, whatever it is asked. -/
theorem scans_of_done (hd : s.done = true) (flags : List Bool) : s.scans flags = s := by
  induction flags with
  | nil => rfl
  | cons begins flags ih => rw [scans_cons, scan_of_done hd, ih]

/-- **A valid scanner lists the tokens that it collects**, whatever the flags. -/
theorem Valid.lists_tokens (hs : s.Valid) (hd : s.done = false) (flags : List Bool) :
    Lists s (s.look.tokens flags).1 (s.look.tokens flags).2 := by
  have step := step_look hd
  induction hn : s.look.scansLeft using Nat.strongRecOn generalizing s flags with
  | _ n ih =>
    rw [tokens]
    split
    · next hk => exact .finish step hk
    · next hk =>
      have hlook : s.look.Valid := hs.scan false
      have hlive : s.look.done = false := hlook.not_done hk
      have hlt := hlook.scansLeft_scan_lt hlive (flags.head?.getD false)
      rw [dif_pos hlt]
      refine .next (flags.head?.getD false) step hk ?_
      rw [← look_ask hlive] at hlt ⊢
      exact ih _ (hn ▸ hlt) (hlook.ask _) hlive flags.tail (step_look hlive) rfl

/-- The tokens of a script are listed from its beginning. -/
theorem lists_start (source filename : String) (flags : List Bool) :
    Lists (ofText source filename) ((start source filename).tokens flags).1
      ((start source filename).tokens flags).2 :=
  (valid_ofText source filename).lists_tokens rfl flags

/-- The last token is the end of input, and the only one. -/
theorem Lists.getLast?_eq (h : Lists s tokens u) :
    tokens.getLast? = some u.token ∧ u.token.kind = .endOfInput := by
  induction h with
  | finish step last => exact ⟨rfl, last⟩
  | @next s t u tokens begins step more rest ih =>
    obtain ⟨hlast, hk⟩ := ih
    cases tokens with
    | nil => cases hlast
    | cons token tokens => exact ⟨by rwa [List.getLast?_cons_cons], hk⟩

/-- The last token was read by a step like any other. -/
theorem Lists.exists_step (h : Lists s tokens u) (hs : s.Valid) (hd : s.done = false) :
    ∃ t : Scanner, t.Valid ∧ t.done = false ∧ Step t u := by
  induction h with
  | finish step last => exact ⟨_, hs, hd, step⟩
  | next begins step more rest ih =>
    have ht := step.valid hs hd
    exact ih (ht.ask begins) (ht.not_done more)

/-- **The scans of a script are bounded by its length.** -/
theorem scansLeft_ofText_le (source filename : String) :
    (ofText source filename).scansLeft ≤ (source.length + 2) ^ 2 := by
  have hlen : (ofText source filename).rest.length = source.length := String.length_toList
  have hw : (ofText source filename).scansLeft =
      0 + source.length * (0 + source.length + 3) + 1 := by
    rw [← hlen]
    exact scansLeft_of_not_done rfl
  rw [hw, Nat.zero_add, Nat.zero_add]
  calc source.length * (source.length + 3) + 1
      ≤ source.length * (source.length + 3) + 1 + (source.length + 3) := Nat.le_add_right ..
    _ = (source.length + 2) ^ 2 := by ring

/-- Scans made after others are made after all of them. -/
theorem Leads.trans {later : List Bool} (h₁ : Leads s flags t) (h₂ : Leads t later u) :
    Leads s (later ++ flags) u := by
  induction h₂ with
  | start => exact h₁
  | scan begins earlier more ih => exact .scan begins ih more

/-- What scans lead to is valid if the scanner was. -/
theorem Leads.valid (h : Leads s flags t) (hs : s.Valid) : t.Valid := by
  induction h with
  | start => exact hs
  | scan begins earlier more ih => exact ih.scan begins

/-- **Every scan that is recorded has cost one of the scans that were left.** -/
theorem Leads.scansLeft_le (h : Leads s flags t) (hs : s.Valid) :
    t.scansLeft + flags.length ≤ s.scansLeft := by
  induction h with
  | start => exact Nat.le_refl _
  | @scan flags t begins earlier more ih =>
    have ht := earlier.valid hs
    have hlt := ht.scansLeft_scan_lt (ht.not_done more) begins
    rw [List.length_cons]
    omega

/-- **Whatever the flags, the scans that are left lead to the end of input.** -/
theorem Valid.exists_scans_end (hs : s.Valid) (flags : Nat → Bool) :
    ∃ k ≤ s.scansLeft, (s.scans ((List.range k).map flags)).token.kind = .endOfInput := by
  induction hn : s.scansLeft using Nat.strongRecOn generalizing s flags with
  | _ n ih =>
    by_cases hk : s.token.kind = .endOfInput
    · exact ⟨0, Nat.zero_le n, hk⟩
    · have hlt := hs.scansLeft_scan_lt (hs.not_done hk) (flags 0)
      rw [hn] at hlt
      obtain ⟨k, hle, hend⟩ := ih _ hlt (hs.scan (flags 0)) (fun i => flags (i + 1)) rfl
      refine ⟨k + 1, by omega, ?_⟩
      rw [List.range_succ_eq_map, List.map_cons, List.map_map]
      exact hend

/-- The scan that begins a script is one of those that are left before it. -/
theorem scansLeft_start_le (source filename : String) :
    (start source filename).scansLeft + 1 ≤ (source.length + 2) ^ 2 := by
  have hlt := (valid_ofText source filename).scansLeft_scan_lt rfl false
  exact Nat.le_trans hlt (scansLeft_ofText_le source filename)

/-- What scans lead to is what they are recorded to lead to. -/
theorem Leads.eq_scans (h : Leads s flags t) : t = s.scans flags.reverse := by
  induction h with
  | start => rfl
  | scan begins earlier more ih =>
    rw [ih, List.reverse_cons, scans, scans, List.foldl_append]
    rfl

/-- **What looks keep holds before the look that scans lead to**, whatever the flags. -/
theorem exists_look_of_scans {P : Scanner → Prop} {source filename : String}
    (hstart : P (ofText source filename)) (hask : ∀ s begins, P s → P (s.ask begins))
    (hlook : ∀ s : Scanner, s.Valid → s.done = false → P s → s.look.done = false → P s.look)
    (flags : List Bool) :
    ∃ s : Scanner, s.Valid ∧ s.done = false ∧ P s ∧
      (start source filename).scans flags = s.look := by
  induction flags using List.reverseRecOn with
  | nil => exact ⟨ofText source filename, valid_ofText source filename, rfl, hstart, rfl⟩
  | append_singleton flags begins ih =>
    obtain ⟨s, hs, hd, hp, hscans⟩ := ih
    have hnext : (start source filename).scans (flags ++ [begins]) = s.look.scan begins := by
      rw [← hscans, scans, List.foldl_append]
      rfl
    rw [hnext]
    cases hlive : s.look.done with
    | true => exact ⟨s, hs, hd, hp, scan_of_done hlive begins⟩
    | false =>
      have hvalid : s.look.Valid := hs.scan false
      exact ⟨s.look.ask begins, hvalid.ask begins, hlive, hask _ _ (hlook s hs hd hp hlive),
        (look_ask hlive begins).symm⟩

/-- Scans of a script lead to where some look does. -/
theorem exists_look_eq_scans (source filename : String) (flags : List Bool) :
    ∃ s : Scanner, s.Valid ∧ s.done = false ∧ (start source filename).scans flags = s.look := by
  obtain ⟨s, hs, hd, -, hscans⟩ := exists_look_of_scans (P := fun _ => True) trivial
    (fun _ _ _ => trivial) (fun _ _ _ _ _ => trivial) flags
  exact ⟨s, hs, hd, hscans⟩

end Scanner
end RcScript
