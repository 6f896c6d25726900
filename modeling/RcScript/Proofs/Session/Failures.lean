/-
# Every failure is a located fault

A run that fails ends where its reader stopped (`Session.Between.stops_run`): halted by the
scanner, or refusing its look-ahead, or as deep as it may stand.  No statement that is read
fails to be built, so the failure is a fault of the script (`exists_fault_of_parse`).  Unless it
is for the depth of the statements, its family is told by the scanner and the look-ahead that
the run leaves, and its place is that of the look-ahead, an offset of the script
(`parse_locates`).

The families are told apart by what the reader has before it when it stops and by nothing
that it did before: a fault of the scanner is lexical, a look-ahead at the end of the
script is incomplete, and any other look-ahead is malformed.  The depth of the statements
is the one exception, for it is counted by the reader and refused at whatever token the
statement begins with.
-/

import RcScript.Proofs.Scanner.Located
import RcScript.Proofs.Session.Between

namespace RcScript

open Scanner

variable {a b : Session} {r : Reader} {source filename : String} {failure : Failure}
  {fault : Fault}

namespace Session

/-- **A run that fails ends where its reader stopped**, after nothing but scans. -/
theorem Between.stops_run (h : a.Between) (hsticky : a.sticky = none)
    (hf : a.run.failure = some failure) :
    a.reader.Reaches a.run.final.reader ∧ Reader.Stops failure a.run.final.reader := by
  fun_induction Session.run a with
  | case1 a failure' b hn =>
    obtain rfl : failure' = failure := Option.some.inj hf
    obtain ⟨s, hs, -⟩ := h.forgetCompleted hsticky
    rcases hs.next_cases with ⟨found, r, -, -, hnext⟩ | ⟨fault, r, reaches, stops, hnext⟩
    · cases hn.symm.trans hnext
    · cases hn.symm.trans hnext
      exact ⟨reaches, stops⟩
  | case2 a b hn => cases hf
  | case3 a stmt b hn hlt run ih =>
    obtain ⟨hbetween, hreaches⟩ := h.forgetCompleted.next
    obtain ⟨s, hs, -⟩ := h.forgetCompleted hsticky
    obtain ⟨r, -, rfl⟩ := hs.of_next hn
    rw [hn] at hbetween hreaches
    obtain ⟨later, stops⟩ := ih hbetween hsticky hf
    have hstart : a.reader.Reaches r := hreaches
    exact ⟨hstart.trans later, stops⟩
  | case4 a stmt b hn hlt => cases hf

end Session

/-- **Reading a script fails with a fault**, if it does. -/
theorem exists_fault_of_parse (h : parse source filename = .error failure) :
    ∃ fault, failure = .fault fault := by
  obtain ⟨-, stops⟩ := (Session.between_start source filename).stops_run rfl
    (parse_eq_error_iff.1 h)
  exact stops.exists_fault

namespace Reader

/-- A fault is told by the reader that has met it: its family by the fault of the scanner and
the look-ahead, and its place by the look-ahead, which stands in the script. -/
structure Locates (source : String) (r : Reader) (fault : Fault) : Prop where
  lexical : fault.category = .lexical ↔ r.scanner.fault ≠ none
  /-- the fault of the scanner is the fault that is met -/
  scanned : ∀ found, r.scanner.fault = some found → fault = found
  incomplete : fault.category = .incomplete ↔
    r.scanner.fault = none ∧ r.token.kind = .endOfInput
  position : fault.position = r.token.position
  offset : ∃ k ≤ source.length, fault.position = Position.after (source.toList.take k)

/-- **Where a reader stops, the fault is told by what it has met**, unless it stops for the
depth of the statements. -/
theorem Stops.locates (h : Stops (.fault fault) r) (hc : fault.cause ≠ .nestedTooDeeply)
    {k : Nat} (hk : r.token.position.offset? source.toList = some k) :
    r.Locates source fault := by
  have hoffset : ∃ k ≤ source.length, r.token.position = Position.after (source.toList.take k) := by
    obtain ⟨hle, hp⟩ := Position.offset?_eq_some_iff.1 hk
    exact ⟨k, String.length_toList ▸ hle, hp.symm⟩
  cases h with
  | halt halts =>
    obtain ⟨found, hfound, hscanner, hlexical, htoken⟩ := halts
    obtain rfl := Failure.fault.inj hfound
    have hposition : fault.position = r.token.position := congrArg Token.position htoken.symm
    exact
      { lexical := by simp [hlexical, hscanner]
        scanned := fun found h => Option.some.inj (hscanner.symm.trans h)
        incomplete := by simp [hlexical, hscanner]
        position := hposition
        offset := hposition ▸ hoffset }
  | refuse live cause =>
    obtain ⟨s, hs⟩ := live
    have hf := hs.fault_eq_none
    refine
      { lexical := ?_
        scanned := fun found h => absurd (hf.symm.trans h) nofun
        incomplete := ?_
        position := rfl
        offset := hoffset }
    all_goals
      by_cases hk : r.token.kind = .endOfInput <;> simp [Fault.atToken, hk, hf]
  | tooDeep => exact absurd rfl hc

/-- The family of a fault that stops reading is one of those that have a label. -/
theorem Stops.mem_labelled (h : Stops (.fault fault) r) : fault.category ∈ Category.labelled := by
  cases h with
  | halt halts =>
    obtain ⟨found, hfound, -, hlexical, -⟩ := halts
    obtain rfl := Failure.fault.inj hfound
    simp [hlexical, Category.labelled]
  | refuse live cause =>
    by_cases hk : r.token.kind = .endOfInput <;> simp [Fault.atToken, hk, Category.labelled]
  | tooDeep => simp [Category.labelled]

end Reader

/-- **Every failure is one located fault.**  A script is read to its end, or reading it fails
with a lexical fault, as malformed or as incomplete; it never fails because a statement cannot be
built.  Unless statements stand in one another too deep, the fault is lexical just when the
scanner has met a fault, which it then is, and incomplete just when the scanner has met none and
the look-ahead is the end of the script.  It stands where the look-ahead does, at an offset of
the script from its beginning up to its end, told by the line feeds before it. -/
theorem parse_locates (source filename : String) :
    (∃ stmts, parse source filename = .ok stmts) ∨
      ∃ fault, parse source filename = .error (.fault fault) ∧
        fault.category ∈ Category.labelled ∧
        (fault.cause ≠ .nestedTooDeeply →
          (readScript source filename).final.reader.Locates source fault) := by
  cases hp : parse source filename with
  | ok stmts => exact .inl ⟨stmts, rfl⟩
  | error failure =>
    obtain ⟨⟨flags, hleads, -⟩, stops⟩ := (Session.between_start source filename).stops_run rfl
      (parse_eq_error_iff.1 hp)
    obtain ⟨fault, rfl⟩ := stops.exists_fault
    obtain ⟨k, hk⟩ := exists_offset_scans source filename flags.reverse
    have hscanner : (readScript source filename).final.reader.scanner =
        (Scanner.start source filename).scans flags.reverse := hleads.eq_scans
    refine .inr ⟨fault, rfl, stops.mem_labelled, fun hc => stops.locates hc (k := k) ?_⟩
    change (readScript source filename).final.reader.scanner.token.position.offset? _ = _
    rw [hscanner, hk]

/-- A binding without its statement, below a call: more text may mend it. -/
theorem parse_locates_binding :
    parse "cd ~;\nmap k" unnamed =
        .error (.fault ⟨.incomplete, .endInside (.keyBinding "k"), unnamed, ⟨2, 6⟩⟩) ∧
      (readScript "cd ~;\nmap k" unnamed).final.reader.scanner.fault = none ∧
      (readScript "cd ~;\nmap k" unnamed).final.reader.token.kind = .endOfInput ∧
      ∃ k ≤ "cd ~;\nmap k".length,
        (⟨2, 6⟩ : Position) = Position.after ("cd ~;\nmap k".toList.take k) := by
  have h : parse "cd ~;\nmap k" unnamed =
      .error (.fault ⟨.incomplete, .endInside (.keyBinding "k"), unnamed, ⟨2, 6⟩⟩) := by cbv
  rcases parse_locates "cd ~;\nmap k" unnamed with ⟨stmts, hok⟩ | ⟨fault, hfault, -, hlocates⟩
  · cases h.symm.trans hok
  · cases h.symm.trans hfault
    have hl := hlocates (by simp)
    obtain ⟨hscanner, hend⟩ := hl.incomplete.1 rfl
    exact ⟨h, hscanner, hend, hl.offset⟩

end RcScript
