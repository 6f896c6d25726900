/-
# Scripts one after the other

A script that is accepted leaves nothing behind: below it, after a line break,
another script is read as it is read alone (`parse_append`).  The first half is that
both together are read as the first one up to its end, where the scanner stands at
the second one (`Scanner.exists_below_of_reads`); the other, that a session some
lines further down delivers the same statements and meets the same failure there
(`Session.Below.run`).

Two things could go wrong below a script: something of it might still be owed or open, and
positions are counted from the beginning of the whole text.  The first is excluded at the
end of a script that is accepted, where all lists have been closed.  The second is why a
failure is moved and not merely repeated; its line is further down, its column is the
same, and so are its family and what caused it.
-/

import RcScript.Proofs.Reader.Below
import RcScript.Proofs.Scanner.Longer
import RcScript.Proofs.Scanner.Onward
import RcScript.Proofs.Session.Script
import Mathlib

namespace RcScript

open Terminal Scanner

variable {n : Nat}

namespace Session

/-- A session some lines below another one. -/
structure Below (n : Nat) (a a' : Session) : Prop where
  reader : a.reader.Below n a'.reader
  sticky : a'.sticky = a.sticky.map (Fault.down n)

variable {a a' b : Session}

/-- A session that forgets what was completed stays below. -/
theorem Below.forgetCompleted (h : Below n a a') :
    Below n a.forgetCompleted a'.forgetCompleted :=
  ⟨⟨h.reader.scanner, h.reader.token⟩, h.sticky⟩

/-- A request below is answered as it is above, or fails as it fails there. -/
theorem Below.next (h : Below n a a') :
    (∃ found b b', a.next = (.ok found, b) ∧ a'.next = (.ok found, b') ∧ Below n b b') ∨
      ∃ failure b b', a.next = (.error failure, b) ∧ a'.next = (.error (failure.down n), b') := by
  cases hs : a.sticky with
  | some fault =>
    have hs' : a'.sticky = some (fault.down n) := by rw [h.sticky, hs]; rfl
    exact .inr ⟨.fault fault, a, a', next_of_sticky hs, next_of_sticky hs'⟩
  | none =>
    have hs' : a'.sticky = none := by rw [h.sticky, hs]; rfl
    have hf' := h.reader.scanner.fault
    have hread := Parse.stays_statement Parse.nestingLimit h.reader
    simp only [Session.next, hs, hs', read]
    cases hf : a.reader.scanner.fault with
    | some fault =>
      rw [hf] at hf'
      simp only [hf', Option.map_some]
      exact .inr ⟨_, _, _, rfl, rfl⟩
    | none =>
      rw [hf] at hf'
      simp only [hf', Option.map_none]
      cases hr : Parse.statement Parse.nestingLimit a.reader with
      | ok found r =>
        obtain ⟨r', hr', below⟩ := (hr ▸ hread).of_ok
        rw [hr']
        exact .inl ⟨_, _, _, rfl, rfl, below, rfl⟩
      | error failure r =>
        obtain ⟨r', hr'⟩ := (hr ▸ hread).of_error
        rw [hr']
        cases failure <;> exact .inr ⟨_, _, _, rfl, rfl⟩

/-- **A run below delivers what the run above delivers**, and fails as it fails. -/
theorem Below.run (h : Below n a a') :
    a'.run.statements = a.run.statements ∧ a'.run.failure = a.run.failure.map (Failure.down n) := by
  fun_induction Session.run a generalizing a' with
  | case1 a failure b hn =>
    rcases h.forgetCompleted.next with ⟨_, _, _, he, -⟩ | ⟨_, _, b', he, hn'⟩
    · cases he.symm.trans hn
    · cases he.symm.trans hn
      rw [run_of_next_error hn']
      exact ⟨rfl, rfl⟩
  | case2 a b hn =>
    rcases h.forgetCompleted.next with ⟨_, _, b', he, hn', -⟩ | ⟨_, _, _, he, -⟩
    · cases he.symm.trans hn
      rw [run_of_next_none hn']
      exact ⟨rfl, rfl⟩
    · cases he.symm.trans hn
  | case3 a stmt b hn hlt run =>
    rename_i ih
    rcases h.forgetCompleted.next with ⟨_, _, b', he, hn', hb⟩ | ⟨_, _, _, he, -⟩
    · cases he.symm.trans hn
      obtain ⟨hstmts, hfail⟩ := ih hb
      rw [run_of_next_some hn' (hb.reader.scansLeft_lt h.reader hlt)]
      exact ⟨congrArg (stmt :: ·) hstmts, hfail⟩
    · cases he.symm.trans hn
  | case4 a stmt b hn hlt =>
    rcases h.forgetCompleted.next with ⟨_, _, b', he, hn', hb⟩ | ⟨_, _, _, he, -⟩
    · cases he.symm.trans hn
      rw [Session.run, hn']
      simp only [hb.reader.scansLeft, h.reader.scansLeft, hlt, dite_false]
      exact ⟨rfl, rfl⟩
    · cases he.symm.trans hn

end Session

namespace Scanner

/-- **Where a script ends a longer one goes on like a script of its own**, as many
lines further down as the first one has line breaks, and one more. -/
theorem exists_below_of_reads {first second filename : String} {xs : List Terminal} {t : Scanner}
    (hr : Reads (ofText first filename) xs t) (hx : ∀ x ∈ xs, x.kind ≠ .endOfInput)
    (ht : Ready 0 [] t) (hk : t.look.token.kind = .endOfInput) :
    ∃ t' u, Reads (ofText (first ++ "\n" ++ second) filename) xs t' ∧ t'.look = u.look ∧
      t'.look.fault = none ∧ Below (1 + first.toList.count '\n') (ofText second filename) u := by
  have htext : (first ++ "\n" ++ second).toList = (first.toList ++ ['\n']) ++ second.toList := by
    simp
  have hlonger : Longer second.toList (ofText first filename)
      (ofText (first ++ "\n" ++ second) filename) :=
    ⟨⟨rfl, rfl, rfl, rfl, rfl, rfl⟩, rfl, htext.trans (List.append_assoc ..)⟩
  obtain ⟨t', hr', hcont⟩ := hr.continues (valid_ofText _ _) rfl hx hlonger.continues
  obtain ⟨owed, lists, ho, hdues, hp⟩ := ht.owing
  obtain ⟨rfl, rfl⟩ : owed = 0 ∧ lists = 0 := by omega
  have hp' := hcont.poised hp
  obtain ⟨k, hrest, hlook⟩ := hcont.exists_forward hp hk
  have honward := hr'.onward.trans (onward_forward k t')
  refine ⟨t', t'.forward k, hr', hlook.symm, hp'.fault_look, ?_⟩
  exact {
    level := ⟨hp'.mode, hcont.level.begins.trans ht.begins, hp'.lists, hp'.saved, hp'.owed,
      hp'.live⟩
    rest := hrest
    position := (honward.position_eq htext hrest).trans (Position.stepAll_lineBreak _)
    filename := honward.filename
    marker := fun h => absurd rfl h
    fault := hp'.sound }

end Scanner

variable {first filename : String} {stmts : List Stmt}

/-- After a script that is accepted the run of another one goes on as it does alone:
it delivers the same statements, and its failure, if it has one, is met that many
lines further down. -/
theorem readScript_append (h : parse first filename = .ok stmts) (second : String) :
    (readScript (first ++ "\n" ++ second) filename).statements =
        stmts ++ (readScript second filename).statements ∧
      (readScript (first ++ "\n" ++ second) filename).failure =
        (readScript second filename).failure.map
          (Failure.down (1 + first.toList.count '\n')) := by
  obtain ⟨xs, t, hd, hr, hk, -, ht, -, hle⟩ := derives_of_parse h
  obtain ⟨t', u, hr', hlook, hf, hbelow⟩ :=
    exists_below_of_reads hr (hd.kind_ne fun _ => IsSeparator.kind_eq) ht hk
  obtain ⟨b, hb, hstmts, hfail⟩ := (Session.at_start _ _).run_of_script hd hr' hf hle
  obtain ⟨hs, htoken⟩ := hbelow.look rfl
  have hscanner : b.reader.scanner = u.look := hb.reader.scanner.trans hlook
  have hsession : (Session.start second filename).Below (1 + first.toList.count '\n') b :=
    ⟨⟨hscanner ▸ hs, (congrArg Scanner.token hscanner).trans htoken⟩, hb.sticky⟩
  exact ⟨hstmts.trans (congrArg (stmts ++ ·) hsession.run.1), hfail.trans hsession.run.2⟩

/-- **Scripts compose.**  Below a script that is accepted another one is read as it is
read alone.  If it is accepted too, both are, with the statements of the one before
those of the other.  If it fails, the statements of the first are delivered, then those
that the second delivers before its failure, and then this failure is met: of the same
category and cause and in the same column, but as many lines further down as the first
script has line breaks, and one more. -/
theorem parse_append (h : parse first filename = .ok stmts) (second : String) :
    (∀ stmts', parse second filename = .ok stmts' →
      parse (first ++ "\n" ++ second) filename = .ok (stmts ++ stmts')) ∧
    ∀ failure, parse second filename = .error failure →
      (readScript (first ++ "\n" ++ second) filename).statements =
          stmts ++ (readScript second filename).statements ∧
        (readScript (first ++ "\n" ++ second) filename).failure =
          some (failure.down (1 + first.toList.count '\n')) := by
  obtain ⟨hstmts, hfail⟩ := readScript_append h second
  refine ⟨fun stmts' hs => ?_, fun failure hf => ⟨hstmts, ?_⟩⟩
  · obtain ⟨hnone, rfl⟩ := parse_eq_ok_iff.1 hs
    refine parse_eq_ok_iff.2 ⟨?_, hstmts⟩
    rw [hfail, hnone, Option.map_none]
  · rw [hfail, parse_eq_error_iff.1 hf, Option.map_some]

/-- A command that the end of its script has ended, and below it a script that fails
on its second line. -/
theorem parse_append_shell :
    parse "$ls" unnamed = .ok [.exec .shell "ls"] ∧
      (readScript ("$ls" ++ "\n" ++ "cd ~;\nset") unnamed).statements =
          [.exec .shell "ls", .call "cd" ["~"]] ∧
        (readScript ("$ls" ++ "\n" ++ "cd ~;\nset") unnamed).failure =
          some (.fault ⟨.incomplete, .expected .optionName ⟨.endOfInput, "", ⟨3, 4⟩⟩, unnamed,
            ⟨3, 4⟩⟩) := by
  have h : parse "$ls" unnamed = .ok [.exec .shell "ls"] := by cbv
  have hf : parse "cd ~;\nset" unnamed = .error (.fault ⟨.incomplete,
      .expected .optionName ⟨.endOfInput, "", ⟨2, 4⟩⟩, unnamed, ⟨2, 4⟩⟩) := by cbv
  have hs : (readScript "cd ~;\nset" unnamed).statements = [.call "cd" ["~"]] := by cbv
  obtain ⟨hstmts, hfail⟩ := (parse_append h _).2 _ hf
  rw [hs] at hstmts
  exact ⟨h, hstmts, hfail⟩

end RcScript
