/-
# Scanning and reading end

The scans that a script can take are bounded by the square of its length
(`Scanner.scansLeft_ofText_le`).  However statements are asked for, all scans are in the
record of the reader, and none of them is made at the end of input, so reading stays
within the same bound; and no loop of reading is ended by anything but its look-ahead
(`scans_bounded`).

The bound on scanning holds for any flags, since a scan that does not move on pays one of
the markers that are owed, and no more of them are owed at one place than the text before
it has opened line lists.  The loops of the reader end for another reason: each turn passes
a token or fails, so the number of scans that are left falls.  That a loop stops just where
its look-ahead says so is part of the statement (`Parse.LoopsEnd`), for otherwise it could
end too early and still end.
-/

import RcScript.Proofs.Session.Between

namespace RcScript

open Scanner

variable {a b : Session} {source filename : String}

/-- A reader whose scans since the beginning of a script are all in its record, none of
them made at the end of input, and are not too many. -/
structure Reader.Bounded (source filename : String) (r : Reader) : Prop where
  leads : (Scanner.start source filename).Leads r.asked r.scanner
  /-- the scan that begins the script is in no record -/
  length_le : r.asked.length + 1 ≤ (source.length + 2) ^ 2

/-- **What is reached from the beginning of a script is bounded.** -/
theorem Reader.Reaches.bounded {r : Reader} (h : (Reader.start source filename).Reaches r) :
    r.Bounded source filename := by
  obtain ⟨flags, hleads, hasked⟩ := h
  have hflags : r.asked = flags := hasked.trans (List.append_nil flags)
  have hle := hleads.scansLeft_le (valid_start source filename)
  have hstart := scansLeft_start_le source filename
  change r.scanner.scansLeft + flags.length ≤ (Scanner.start source filename).scansLeft at hle
  refine ⟨hflags ▸ hleads, ?_⟩
  rw [hflags]
  omega

namespace Session

/-- A call in a run only scans on. -/
theorem Between.reaches {outcome : Except Failure (Option Stmt)} (h : a.Between)
    (hn : a.forgetCompleted.next = (outcome, b)) : b.Between ∧ a.reader.Reaches b.reader := by
  obtain ⟨hbetween, hreaches⟩ := h.forgetCompleted.next
  have hforget : a.reader.Reaches a.forgetCompleted.reader := ⟨[], .start, rfl⟩
  rw [hn] at hbetween hreaches
  exact ⟨hbetween, hforget.trans hreaches⟩

/-- A call that does not fail delivers a statement, for which tokens were passed, or has
found the end of the script. -/
theorem Between.of_next {found : Option Stmt} (h : a.Between) (hn : a.next = (.ok found, b)) :
    (found ≠ none → b.reader.scansLeft < a.reader.scansLeft) ∧
      (found = none → b.reader.token.kind = .endOfInput) := by
  cases hsticky : a.sticky with
  | some fault =>
    rw [next_of_sticky hsticky] at hn
    cases hn
  | none =>
    obtain ⟨s, hs, -⟩ := h hsticky
    obtain ⟨r, hr, rfl⟩ := hs.of_next hn
    have hproceeds := Parse.proceeds_statement Parse.nestingLimit ⟨s, hs.reader⟩
    exact (hproceeds.of_ok hr).2.2

/-- **A run only scans on**, and if it does not fail it ends at the end of the script. -/
theorem Between.run (h : a.Between) : a.reader.Reaches a.run.final.reader ∧
    (a.run.failure = none → a.run.final.reader.token.kind = .endOfInput) := by
  fun_induction Session.run a with
  | case1 a failure b hn => exact ⟨(h.reaches hn).2, fun hf => absurd hf (by simp)⟩
  | case2 a b hn =>
    have hend := (h.forgetCompleted.of_next hn).2 rfl
    exact ⟨(h.reaches hn).2, fun _ => hend⟩
  | case3 a stmt b hn hlt run ih =>
    obtain ⟨hbetween, hreaches⟩ := h.reaches hn
    obtain ⟨hrun, hend⟩ := ih hbetween
    exact ⟨hreaches.trans hrun, hend⟩
  | case4 a stmt b hn hlt =>
    have hlt' := (h.forgetCompleted.of_next hn).1 (Option.some_ne_none stmt)
    exact absurd hlt' hlt

end Session

/-- **Scanning and reading end.**  Whatever the flags, a script of `n` characters is
scanned to its end with `(n + 2) ^ 2` scans at most, the first one included.  Whether
statements are asked for one by one or all at once, no scan is made at the end of input,
and there are no more scans than that.  Wherever reading can stand without a fault, its
loops go on just as long as the look-ahead asks for it. -/
theorem scans_bounded (source filename : String) :
    (∀ flags : Nat → Bool, ∃ k, k + 1 ≤ (source.length + 2) ^ 2 ∧
      ((Scanner.start source filename).scans ((List.range k).map flags)).token.kind =
        .endOfInput) ∧
    (∀ n, ((Session.start source filename).nexts n).reader.Bounded source filename) ∧
    (readScript source filename).final.reader.Bounded source filename ∧
    ((readScript source filename).failure = none →
      (readScript source filename).final.reader.token.kind = .endOfInput) ∧
    ∀ (flags : List Bool) (r : Reader),
      r.scanner = (Scanner.start source filename).scans flags → r.scanner.fault = none →
      Parse.LoopsEnd r := by
  have hstart := Session.between_start source filename
  obtain ⟨hrun, hend⟩ := hstart.run
  refine ⟨fun flags => ?_, fun n => (hstart.nexts n).2.bounded, hrun.bounded, hend, ?_⟩
  · obtain ⟨k, hle, hlast⟩ := (valid_start source filename).exists_scans_end flags
    have hbound := scansLeft_start_le source filename
    exact ⟨k, by omega, hlast⟩
  · intro flags r hr hf
    obtain ⟨s, hv, hd, hlook⟩ := exists_look_eq_scans source filename flags
    have hscanner : r.scanner = s.look := hr.trans hlook
    have hsound : s.look.fault = none := hscanner ▸ hf
    exact Parse.loopsEnd ⟨s, hscanner, hv, hd, hsound⟩

/-- A line list of one command: the end of its line is the end of the script, which pays
a marker for the command and one for the list. -/
theorem scans_bounded_lineList :
    (readScript ": $ls" unnamed).failure = none ∧
      (readScript ": $ls" unnamed).final.reader.token.kind = .endOfInput ∧
      (Reader.start ": $ls" unnamed).scanner = (Scanner.start ": $ls" unnamed).scans [] ∧
      (Reader.start ": $ls" unnamed).scanner.fault = none ∧
      Parse.LoopsEnd (Reader.start ": $ls" unnamed) := by
  have hrun : (readScript ": $ls" unnamed).failure = none := by cbv
  have hf : (Reader.start ": $ls" unnamed).scanner.fault = none := by cbv
  obtain ⟨-, -, -, hend, hloops⟩ := scans_bounded ": $ls" unnamed
  exact ⟨hrun, hend hrun, rfl, hf, hloops [] _ rfl hf⟩

end RcScript
