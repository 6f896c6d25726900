/-
# What a run completes

Who follows a run sees each statement when it is complete, nested ones too.  What is seen with
a delivery is the postorder of the statement that is delivered
(`Session.completed_of_next`), whatever was delivered before it and whether or not the script
has a fault further down.  So what is seen of a script that is accepted can be told from its
statements, and it is what walks over them list and what their summary counts
(`completed_readScript`).

The trace is a list that the reader adds to when it has finished a statement, so it holds
the statements in the order in which they are complete, a body before the statement around
it.  `RcScript.Proofs.Reader.Completes` proves this of one statement by following the
reader.  Here the trace is cut where statements are delivered, and at a fault: what the
trace holds behind the last delivery are the statements that were completed inside of the
one that could not be.
-/

import RcScript.Proofs.Reader.Completes
import RcScript.Proofs.Session.Drivers

namespace RcScript

variable {a b : Session} {source filename : String} {stmts : List Stmt}

namespace Session

/-- **What is completed on the way to a statement is its postorder**, and nothing is on the way
to the end of the script. -/
theorem completed_of_next {found : Option Stmt} (h : a.forgetCompleted.next = (.ok found, b)) :
    b.completed = found.toList.flatMap Tree.postorder := by
  obtain ⟨-, r, hr, rfl⟩ := of_next_eq_ok h
  have hnotes : r.completed = (found.toList.flatMap Tree.postorder).reverse ++ [] :=
    Parse.completes_statement Parse.nestingLimit hr
  change r.completed.reverse = _
  rw [hnotes, List.append_nil, List.reverse_reverse]

/-- **Each delivery of a run completes the postorder of its statement.** -/
theorem completed_of_mem_run (a : Session) :
    ∀ delivery ∈ a.run.deliveries, delivery.completed = delivery.statement.postorder := by
  have hfound : ∀ {a b : Session} {stmt : Stmt}, a.forgetCompleted.next = (.ok (some stmt), b) →
      b.completed = stmt.postorder := fun h =>
    (completed_of_next h).trans (List.flatMap_singleton ..)
  fun_induction Session.run a with
  | case1 | case2 => exact List.forall_mem_nil _
  | case3 a stmt b hn hlt run ih => exact List.forall_mem_cons.2 ⟨hfound hn, ih⟩
  | case4 a stmt b hn hlt => exact List.forall_mem_singleton.2 (hfound hn)

/-- Nothing is completed behind the last statement of a run that does not fail. -/
theorem unfinished_of_run (hf : a.run.failure = none) : a.run.unfinished = [] := by
  fun_induction Session.run a with
  | case1 => cases hf
  | case2 a b hn => exact completed_of_next hn
  | case3 a stmt b hn hlt run ih => exact ih hf
  | case4 => rfl

end Session

/-- A run completes the postorders of the statements that it delivers, one after the other, and
then what it leaves unfinished. -/
theorem Run.completed_eq (a : Session) :
    a.run.completed = a.run.statements.flatMap Tree.postorder ++ a.run.unfinished := by
  rw [Run.completed, Run.statements, List.flatMap_map]
  refine congrArg (· ++ a.run.unfinished) ?_
  exact List.flatMap_congr a.completed_of_mem_run

/-- **What is followed, walked and counted is the same.**  The statements that are completed
while a script is read begin with the postorders of the statements that are delivered, one after
the other, also where the script has a fault further down.  If it is accepted there are no
others.  Then they are the statements that walks over the script list, each as often, and its
summary gives for each kind the number of statements of that kind that were completed. -/
theorem completed_readScript (source filename : String) :
    (readScript source filename).statements.flatMap Tree.postorder <+:
        (readScript source filename).completed ∧
      ∀ stmts, parse source filename = .ok stmts →
        (readScript source filename).completed = stmts.flatMap Tree.postorder ∧
        (readScript source filename).completed.Perm (stmts.flatMap Tree.walk) ∧
        summary stmts = StmtKind.tally fun kind =>
          Tree.count kind (readScript source filename).completed := by
  have hcompleted := Run.completed_eq (Session.start source filename)
  refine ⟨⟨_, hcompleted.symm⟩, fun stmts h => ?_⟩
  obtain ⟨hf, rfl⟩ := parse_eq_ok_iff.1 h
  have hall : (readScript source filename).completed =
      (readScript source filename).statements.flatMap Tree.postorder := by
    have hnone : (readScript source filename).unfinished = [] := Session.unfinished_of_run hf
    rw [readScript, hcompleted, ← readScript, hnone, List.append_nil]
  have hperm : (readScript source filename).completed.Perm
      ((readScript source filename).statements.flatMap Tree.walk) := by
    rw [hall]
    exact List.Perm.flatMap_left _ fun stmt _ => stmt.postorder_perm_walk
  refine ⟨hall, hperm, ?_⟩
  rw [summary_eq_tally]
  exact congrArg StmtKind.tally (funext fun kind => (Tree.count_of_perm hperm kind).symm)

/-- A binding to a list is complete after the definition and the call in it, and that after its
own command.  Without its end the list is not delivered, and what comes before it is. -/
theorem completed_readScript_list :
    parse "set icons;\nmap a :\x7b\x7b cmd b $ls\n cd ~; \x7d\x7d;" unnamed =
        .ok [.set "icons" "", .map "a" (.list (.cmd "b" (.exec .shell "ls")) [.call "cd" ["~"]])] ∧
      (readScript "set icons;\nmap a :\x7b\x7b cmd b $ls\n cd ~; \x7d\x7d;" unnamed).completed =
        [.set "icons" "", .exec .shell "ls", .cmd "b" (.exec .shell "ls"), .call "cd" ["~"],
          .list (.cmd "b" (.exec .shell "ls")) [.call "cd" ["~"]],
          .map "a" (.list (.cmd "b" (.exec .shell "ls")) [.call "cd" ["~"]])] ∧
      summary [.set "icons" "",
          .map "a" (.list (.cmd "b" (.exec .shell "ls")) [.call "cd" ["~"]])] =
        "1 set, 1 map, 1 cmd, 1 call, 1 exec, 1 list" ∧
      [.set "icons" ""] <+:
        (readScript "set icons;\nmap a :\x7b\x7b cmd b $ls\n" unnamed).completed := by
  have hparse : parse "set icons;\nmap a :\x7b\x7b cmd b $ls\n cd ~; \x7d\x7d;" unnamed =
      .ok [.set "icons" "", .map "a" (.list (.cmd "b" (.exec .shell "ls")) [.call "cd" ["~"]])] := by
    cbv
  obtain ⟨hcompleted, -, hsummary⟩ := (completed_readScript _ _).2 _ hparse
  have hprefix := (completed_readScript "set icons;\nmap a :\x7b\x7b cmd b $ls\n" unnamed).1
  have hdelivered : (readScript "set icons;\nmap a :\x7b\x7b cmd b $ls\n" unnamed).statements =
      [.set "icons" ""] := by cbv
  rw [hdelivered] at hprefix
  rw [hcompleted] at hsummary ⊢
  exact ⟨hparse, rfl, hsummary.trans (by decide +kernel), hprefix⟩

end RcScript
