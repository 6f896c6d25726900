/-
# Malformed scripts are not mended

A script that fails as malformed fails whatever text follows it, so a caller that reads a
script as it is typed in need not wait for more (`parse_append_of_malformed`).  The end of
a script is read as a line break where a line list is open, and after the keyword of a
setting, a binding or a definition this line break is refused like one that is there:
such a failure is one of a malformed script, and more text may still mend it.

A longer script is followed side by side with the shorter one
(`RcScript.Proofs.Reader.Extended`).  The two runs are tied until one of them meets the end
of the shorter script; a failure before this place is the same in both, for neither
scanning nor reading has looked beyond it.  Near the end the failure may be for want of
what follows.  This is asked for by the family for incomplete scripts, except in the one
situation named above, and it is that situation which the theorem has to exclude.
-/

import RcScript.Proofs.Reader.Final
import RcScript.Proofs.Session.Between

namespace RcScript

open Scanner Reader

variable {s t : Scanner} {a b : Session} {more : List Char} {place : Position}

namespace Session

/-- How a run goes on is decided by the statement that is read next. -/
theorem failure_run (hl : a.reader.Live) (hsticky : a.sticky = none) :
    (∃ failure r, Parse.statement Parse.nestingLimit a.forgetCompleted.reader = .error failure r ∧
        a.run.failure = some failure) ∨
      (∃ r, Parse.statement Parse.nestingLimit a.forgetCompleted.reader = .ok none r ∧
        a.run.failure = none) ∨
      ∃ stmt r, Parse.statement Parse.nestingLimit a.forgetCompleted.reader = .ok (some stmt) r ∧
        r.scansLeft < a.reader.scansLeft ∧
        a.run.failure = ({ a.forgetCompleted with reader := r } : Session).run.failure := by
  obtain ⟨s, hs⟩ := hl
  have h : a.forgetCompleted.At s := At.forgetCompleted ⟨hs, hsticky⟩
  cases hr : Parse.statement Parse.nestingLimit a.forgetCompleted.reader with
  | error failure r =>
    obtain ⟨b, hn⟩ := h.next_of_error hr
    exact .inl ⟨failure, r, rfl, by rw [run_of_next_error hn]⟩
  | ok found r =>
    have hn := h.next_of_ok hr
    cases found with
    | none => exact .inr (.inl ⟨r, rfl, by rw [run_of_next_none hn]⟩)
    | some stmt =>
      have hlt := h.scansLeft_lt hr
      exact .inr (.inr ⟨stmt, r, rfl, hlt, by rw [run_of_next_some hn hlt]⟩)

/-- A run from the end of a script fails as may be near the end, if at all. -/
theorem nearEnd_of_over {failure : Failure} (h : a.reader.Over place) (hsticky : a.sticky = none)
    (hf : a.run.failure = some failure) : failure.NearEnd place := by
  induction hn : a.reader.scansLeft using Nat.strong_induction_on generalizing a with
  | _ n ih =>
    have hconsumes := Parse.consumes_statement Parse.nestingLimit ([] : List Char) place
    have hstep := hconsumes.atEnd (r := a.forgetCompleted.reader) (h.congr rfl) trivial
    rcases failure_run h.live hsticky with ⟨failure', r, hr, hf'⟩ | ⟨r, -, hf'⟩ |
      ⟨stmt, r, hr, hlt, hf'⟩
    · rw [hr] at hstep
      cases hstep with
      | error nearEnd =>
        obtain rfl := Option.some.inj (hf'.symm.trans hf)
        exact nearEnd
    · cases hf'.symm.trans hf
    · rw [hr] at hstep
      cases hstep with
      | ok atEnd =>
        exact ih _ (hn ▸ hlt) (a := { a.forgetCompleted with reader := r }) atEnd hsticky
          (hf'.symm.trans hf) rfl

/-- **A run that fails fails on the longer script too**, or as may be near the end. -/
theorem nearEnd_or_fails {failure : Failure}
    (h : Tied more place a.reader b.reader ∨ Touching place a.reader b.reader)
    (hsticky : a.sticky = none) (hsticky' : b.sticky = none)
    (hf : a.run.failure = some failure) :
    failure.NearEnd place ∨ ∃ failure', b.run.failure = some failure' := by
  induction hn : a.reader.scansLeft using Nat.strong_induction_on generalizing a b with
  | _ n ih =>
    have hconsumes := Parse.consumes_statement Parse.nestingLimit more place
    have hstep : Parse.Tracks more place (fun found t => found = none → t.kind = .endOfInput)
        (Parse.statement Parse.nestingLimit a.forgetCompleted.reader)
        (Parse.statement Parse.nestingLimit b.forgetCompleted.reader) :=
      h.elim (fun tied => hconsumes.tied (tied.congr rfl rfl) trivial)
        (fun touching => hconsumes.touching (touching.congr rfl rfl) trivial)
    have hlive : a.reader.Live := h.elim (·.live) (·.late.live)
    have hlive' : b.reader.Live := h.elim (·.live') (·.live')
    rcases failure_run hlive' hsticky' with ⟨failure', r', -, hf'⟩ | hb
    · exact .inr ⟨failure', hf'⟩
    rcases failure_run hlive hsticky with ⟨failure', r, hr, hfa⟩ | ⟨r, -, hfa⟩ |
      ⟨stmt, r, hr, hlt, hfa⟩
    · obtain rfl := Option.some.inj (hfa.symm.trans hf)
      obtain ⟨r', hr', -⟩ | ⟨stmt, r', hr', -⟩ := hb <;> rw [hr, hr'] at hstep <;>
        cases hstep with
        | ceases ceases =>
          cases ceases with
          | error nearEnd => exact .inl nearEnd
    · cases hfa.symm.trans hf
    · have hover : r.Over place → failure.NearEnd place := fun atEnd =>
        nearEnd_of_over (a := { a.forgetCompleted with reader := r }) atEnd hsticky
          (hfa.symm.trans hf)
      obtain ⟨r', hr', -⟩ | ⟨stmt', r', hr', -, hfb⟩ := hb
      · rw [hr, hr'] at hstep
        cases hstep with
        | ceases ceases =>
          cases ceases with
          | ok atEnd => exact .inl (hover atEnd)
      · have hgoes : Tied more place r r' ∨ Touching place r r' →
            failure.NearEnd place ∨ ∃ failure', b.run.failure = some failure' := fun h => by
          rw [hfb]
          exact ih _ (hn ▸ hlt) (a := { a.forgetCompleted with reader := r })
            (b := { b.forgetCompleted with reader := r' }) h hsticky hsticky'
            (hfa.symm.trans hf) rfl
        rw [hr, hr'] at hstep
        cases hstep with
        | tied tied => exact hgoes (.inl tied)
        | touching touching => exact hgoes (.inr touching)
        | ceases ceases =>
          cases ceases with
          | ok atEnd => exact .inl (hover atEnd)

/-- At the beginning of a script a longer one is read side by side with it, or the script
is at its end. -/
theorem tied_start (source more filename : String) :
    (Tied more.toList (Position.start.stepAll source.toList) (start source filename).reader
        (start (source ++ more) filename).reader ∨
      Touching (Position.start.stepAll source.toList) (start source filename).reader
        (start (source ++ more) filename).reader) ∨
      (start source filename).reader.Over (Position.start.stepAll source.toList) := by
  have h := (at_start source filename).reader
  have h' := (at_start (source ++ more) filename).reader
  rw [← extend_ofText] at h'
  rcases h.extended h' rfl with ⟨coupled, plain⟩ | atEnd | touching | ⟨-, hm⟩
  · exact .inl (.inl ⟨coupled, plain nofun⟩)
  · exact .inr atEnd
  · exact .inl (.inr touching)
  · cases hm

end Session

variable {source filename : String} {fault : Fault}

/-- **A script that is malformed stays so.**  If a script fails as malformed, and not for
the depth of its statements, it fails whatever text follows it; unless it ends with the
keyword of a setting, a binding or a definition inside a line list, where the end of the
line that was refused is the end of the script. -/
theorem parse_append_of_malformed (h : parse source filename = .error (.fault fault))
    (hc : fault.category = .malformed) (hn : fault.cause ≠ .nestedTooDeeply) :
    (∀ more, ∃ failure, parse (source ++ more) filename = .error failure) ∨
      fault.position = Position.start.stepAll source.toList ∧
        ∃ what : Expectation, what.AfterKeyword ∧
          fault.cause = .expected what (Token.newlineAt fault.position) := by
  have hf := parse_eq_error_iff.1 h
  by_cases hnear : (Failure.fault fault).NearEnd (Position.start.stepAll source.toList)
  · obtain ⟨hposition, what, hw, hcause⟩ := hnear fault rfl hc hn
    exact .inr ⟨hposition, what, hw, hposition ▸ hcause⟩
  · refine .inl fun more => ?_
    rcases Session.tied_start source more filename with h | atEnd
    · obtain ⟨failure, hf'⟩ := (Session.nearEnd_or_fails h rfl rfl hf).resolve_left hnear
      exact ⟨failure, parse_eq_error_iff.2 hf'⟩
    · exact absurd (Session.nearEnd_of_over atEnd rfl hf) hnear

/-- A second value for an option: no text that follows makes the setting one. -/
theorem parse_append_of_malformed_setting :
    parse "set a b c" unnamed = .error (.fault ⟨.malformed,
        .expected (.endOfSetting "a") ⟨.word, "c", ⟨1, 9⟩⟩, unnamed, ⟨1, 9⟩⟩) ∧
      ∀ more, ∃ failure, parse ("set a b c" ++ more) unnamed = .error failure := by
  have h : parse "set a b c" unnamed = .error (.fault ⟨.malformed,
      .expected (.endOfSetting "a") ⟨.word, "c", ⟨1, 9⟩⟩, unnamed, ⟨1, 9⟩⟩) := by cbv
  refine ⟨h, (parse_append_of_malformed h rfl (by simp)).resolve_right ?_⟩
  rintro ⟨-, what, -, hcause⟩
  cases hcause

/-- A line list that ends with the keyword of a setting is refused as malformed, although
an option after it makes a script of it. -/
theorem parse_append_setting :
    parse ": set" unnamed = .error (.fault ⟨.malformed,
        .expected .optionName (Token.newlineAt ⟨1, 6⟩), unnamed, ⟨1, 6⟩⟩) ∧
      parse (": set" ++ " hidden;") unnamed = .ok [.list (.set "hidden" "") []] := by
  constructor <;> cbv

end RcScript
