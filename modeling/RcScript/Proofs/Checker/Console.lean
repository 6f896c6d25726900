/-
# Checking and showing

A check is shown as it goes on: what is read is traced, a warning is written when it is
raised, and a statement is dumped when it has been taken note of.  A `Console` is a checker
that does so.  It drives a session by `Session.step`, writes after every step what its
display asks for, and takes note of the statement that the step has left behind.  Writing
makes no difference to checking: a console comes to the result and to the checker that
`Checker.checkText` comes to, and has written just what the display shows of the events of
that check (`Console.checkText_eq`).  So whatever is shown, a run over any scripts leaves
what can be told from the statements that were met in them (`Checker.checkTexts_tells`).

The two descriptions differ in shape.  A console steps, looks at what the session has left
in `current` and in `sticky`, and writes as it goes; a checker is given the deliveries of
a whole run.  They are brought together by one induction over the run
(`Console.checkRest_eq`), in which the session that is stepped and the one that is run are
only alike: a step keeps its statement in `current`, and the run does not.  What a console
does at each point is first put in the form of the events that it shows
(`Console.record_eq` and its neighbours), and events that are shown one after the other
are shown together (`Console.tell_tell`).
-/

import RcScript.Proofs.Checker.Records
import RcScript.Proofs.Session.Traced

namespace RcScript

variable {filename : String} {stmt : Stmt} {stmts : List Stmt} {events events' : List Event}

namespace Session

variable {a b b' : Session}

/-- Sessions that are alike step where they go on. -/
theorem Alike.step_of_ok {found : Option Stmt} (h : a.Alike b) (hn : b.next = (.ok found, b')) :
    ∃ a', a.step = (.ok found.isSome, a') ∧ a'.current = found ∧ a'.Alike b' := by
  obtain ⟨hout, hafter⟩ := h.next
  rw [hn] at hout hafter
  refine ⟨{ a.next.2 with current := found }, ?_, rfl, hafter.reader, hafter.sticky⟩
  rw [step, ← Prod.mk.eta (p := a.next), hout]

/-- A step that meets a fault keeps it and finds nothing. -/
theorem Alike.step_of_fault {fault : Fault} (h : a.Alike b)
    (hn : b.next = (.error (.fault fault), b')) :
    ∃ a', a.step = (.ok false, a') ∧ a'.current = none ∧ a'.Alike b' := by
  obtain ⟨hout, hafter⟩ := h.next
  rw [hn] at hout hafter
  refine ⟨{ a.next.2 with current := none }, ?_, rfl, hafter.reader, hafter.sticky⟩
  rw [step, ← Prod.mk.eta (p := a.next), hout]

/-- A step that meets a statement that cannot be built raises it. -/
theorem Alike.step_of_build {error : BuildError} (h : a.Alike b)
    (hn : b.next = (.error (.build error), b')) :
    ∃ a', a.step = (.error error, a') ∧ a'.Alike b' := by
  obtain ⟨hout, hafter⟩ := h.next
  rw [hn] at hout hafter
  refine ⟨a.next.2, ?_, hafter⟩
  rw [step, ← Prod.mk.eta (p := a.next), hout]

/-- Sessions that are alike have completed the same statements. -/
theorem Alike.completed_eq (h : a.Alike b) : a.completed = b.completed := by
  rw [completed, completed, h.reader]

end Session

/-! ### A checker that writes -/

/-- A checker and the lines that have been written on the two channels. -/
structure Console where
  checker : Checker
  out : List String
  err : List String

namespace Console

variable {display : Display} {k : Console}

/-- Nothing has been checked or written. -/
def fresh : Console := ⟨Checker.fresh, [], []⟩

/-- Writes about the work, if it is followed. -/
def log (display : Display) (text : String) (k : Console) : Console :=
  if display.verbose then { k with err := k.err ++ ["[lfrc] " ++ text] } else k

/-- Remembers a warning and writes it, if the work is followed. -/
def warn (display : Display) (warning : Warning) (k : Console) : Console :=
  ({ k with checker := k.checker.warn warning } : Console).log display
    ("Warning: " ++ warning.text)

/-- Writes which statements were completed.  Only who follows the work is called for each
of them. -/
def trace (display : Display) (stmts : List Stmt) (k : Console) : Console :=
  if display.verbose then
    stmts.foldl (fun k stmt => k.log display ("parsed: " ++ Stmt.text stmt)) k
  else k

/-- Takes note of a statement of a script. -/
def record (display : Display) (filename : String) (stmt : Stmt) (k : Console) : Console :=
  let warned := match k.checker.objection filename stmt with
    | some warning => k.warn display warning
    | none => k
  { warned with checker := warned.checker.define filename stmt }

/-- Dumps a statement, if this is asked for. -/
def dump (display : Display) (stmt : Stmt) (k : Console) : Console :=
  if display.dump then { k with out := k.out ++ [dumpLine stmt] } else k

/-- Writes that a script has been read to its end. -/
def finish (display : Display) (filename : String) (stmts : List Stmt) (k : Console) : Console :=
  k.log display (filename ++ ": " ++ toString stmts.length ++ " statements ("
    ++ summary stmts ++ ")")

/-- Checks what remains of a script, statement by statement.  The statements before are
given. -/
def checkRest (display : Display) (filename : String) (a : Session) (stmts : List Stmt)
    (k : Console) : Except Failure (List Stmt) × Console :=
  match a.forgetCompleted.step with
  | (.error error, after) => (.error (.build error), k.trace display after.completed)
  | (.ok more, after) =>
    let traced := k.trace display after.completed
    match more, after.current with
    | true, some stmt =>
      let dumped := (traced.record display filename stmt).dump display stmt
      if _ : after.reader.scansLeft < a.reader.scansLeft then
        checkRest display filename after (stmts ++ [stmt]) dumped
      else (.ok (stmts ++ [stmt]), dumped.finish display filename (stmts ++ [stmt]))
    | _, _ =>
      match after.sticky with
      | some fault => (.error (.fault fault), traced)
      | none => (.ok stmts, traced.finish display filename stmts)
termination_by a.reader.scansLeft

/-- Checks a text under a name. -/
def checkText (display : Display) (k : Console) (source filename : String) :
    Except Failure (List Stmt) × Console :=
  checkRest display filename (Session.start source filename) [] k

/-- Checks texts under their names, one after the other. -/
def checkTexts (display : Display) : List (String × String) → Console →
    List (Except Failure (List Stmt)) × Console
  | [], k => ([], k)
  | (source, filename) :: calls, k =>
    let (result, after) := k.checkText display source filename
    let (results, final) := after.checkTexts display calls
    (result :: results, final)

/-! ### What is written is what the display shows -/

/-- Events are shown, and the checker is another one then. -/
def tell (display : Display) (events : List Event) (checker : Checker) (k : Console) : Console :=
  ⟨checker, k.out ++ display.outLines events, k.err ++ display.errLines events⟩

/-- To show no events is to do nothing. -/
theorem tell_nil : k.tell display [] k.checker = k := by
  rw [tell, Display.outLines, Display.errLines, List.filterMap_nil, List.filterMap_nil,
    List.append_nil, List.append_nil]

/-- Events that are shown one after the other are shown together. -/
theorem tell_tell {c c' : Checker} :
    (k.tell display events c).tell display events' c' = k.tell display (events ++ events') c' := by
  simp only [tell, Display.outLines, Display.errLines, List.filterMap_append, List.append_assoc]

/-- A line about the work is written where its event is shown. -/
theorem log_eq {text : String} (event : Event) (hout : event.out display = none)
    (herr : event.err display = Event.progress display text) :
    k.log display text = k.tell display [event] k.checker := by
  simp only [log, tell, Display.outLines, Display.errLines, List.filterMap_cons, hout, herr,
    Event.progress]
  split <;> simp

/-- What is traced of completed statements is what is shown of their events. -/
theorem trace_eq : k.trace display stmts = k.tell display (stmts.map .completed) k.checker := by
  cases hv : display.verbose with
  | false =>
    have hquiet : display.errLines (stmts.map .completed) = [] := by
      rw [Display.errLines, List.filterMap_map]
      exact List.filterMap_eq_nil_iff.2 fun stmt _ => by simp [Event.err, Event.progress, hv]
    have hout : display.outLines (stmts.map .completed) = [] := by
      rw [Display.outLines, List.filterMap_map]
      exact List.filterMap_eq_nil_iff.2 fun _ _ => rfl
    rw [trace, hv, if_neg Bool.false_ne_true, tell, hquiet, hout, List.append_nil,
      List.append_nil]
  | true =>
    rw [trace, hv, if_pos rfl]
    induction stmts generalizing k with
    | nil => exact tell_nil.symm
    | cons stmt stmts ih =>
      rw [List.foldl_cons, ih, log_eq (.completed stmt) rfl rfl, tell_tell]
      rfl

/-- **To take note of a statement is to show what there is to say of it.** -/
theorem record_eq : k.record display filename stmt =
    k.tell display (k.checker.record filename stmt).events
      (k.checker.record filename stmt).checker := by
  rw [record, Checker.record]
  cases k.checker.objection filename stmt with
  | none => simp [tell, Display.outLines, Display.errLines]
  | some warning =>
    dsimp only
    rw [warn, log_eq (.warned warning) rfl rfl]
    rfl

/-- To dump a statement is to show that it was delivered. -/
theorem dump_eq : k.dump display stmt = k.tell display [.delivered stmt] k.checker := by
  simp only [dump, tell, Display.outLines, Display.errLines, List.filterMap_cons, Event.out,
    Event.err]
  split <;> simp

/-- To sum a script up is to show that it was read to its end. -/
theorem finish_eq :
    k.finish display filename stmts = k.tell display [.finished filename stmts] k.checker :=
  log_eq (.finished filename stmts) rfl rfl

/-- What is written on the way to a statement and about it. -/
theorem dump_record_trace_eq {completed : List Stmt} :
    ((k.trace display completed).record display filename stmt).dump display stmt =
      k.tell display
        (completed.map .completed ++ ((k.checker.record filename stmt).events ++
          [.delivered stmt]))
        (k.checker.record filename stmt).checker := by
  rw [dump_eq, record_eq, trace_eq, tell_tell, tell_tell]
  rfl

/-- **What remains of a script is checked as it is read.**  The session that is stepped may
differ from the one that is run by what its last step has left behind. -/
theorem checkRest_eq {a b : Session} (h : a.Alike b) :
    checkRest display filename a stmts k =
      let recorded := Checker.recordAll filename b.run.deliveries k.checker
      match b.run.failure with
      | some failure => (.error failure,
          k.tell display (recorded.events ++ b.run.unfinished.map .completed) recorded.checker)
      | none => (.ok (stmts ++ b.run.statements),
          k.tell display (recorded.events ++ [.finished filename (stmts ++ b.run.statements)])
            recorded.checker) := by
  have hscans : a.reader.scansLeft = b.reader.scansLeft := by rw [h.reader]
  fun_induction Session.run b generalizing a stmts k with
  | case1 b failure b' hn =>
    cases failure with
    | fault fault =>
      obtain ⟨a', hstep, hcurrent, halike⟩ := h.forgetCompleted.step_of_fault hn
      obtain ⟨r, rfl⟩ := Session.of_next_eq_fault hn
      rw [checkRest, hstep]
      simp only [halike.sticky, trace_eq, halike.completed_eq]
      rfl
    | build error =>
      obtain ⟨a', hstep, halike⟩ := h.forgetCompleted.step_of_build hn
      rw [checkRest, hstep]
      simp only [trace_eq, halike.completed_eq]
      rfl
  | case2 b b' hn =>
    obtain ⟨a', hstep, hcurrent, halike⟩ := h.forgetCompleted.step_of_ok hn
    have hquiet : k.trace display a'.completed = k := by
      rw [trace_eq, halike.completed_eq, Session.completed_of_next hn]
      exact tell_nil
    have hsticky : a'.sticky = none := by
      obtain ⟨hs, r, -, rfl⟩ := Session.of_next_eq_ok hn
      exact halike.sticky.trans hs
    rw [checkRest, hstep]
    simp only [hquiet, hcurrent, hsticky, finish_eq, Run.statements, List.map_nil, List.append_nil]
    rfl
  | case3 b stmt b' hn hlt run =>
    rename_i ih
    obtain ⟨a', hstep, hcurrent, halike⟩ := h.forgetCompleted.step_of_ok hn
    have hlt' : a'.reader.scansLeft < a.reader.scansLeft := by rwa [halike.reader, hscans]
    rw [checkRest, hstep]
    simp only [hcurrent, Option.isSome_some, hlt', dite_true]
    -- the rest is checked on what this statement has left
    rw [ih halike (by rw [halike.reader]), dump_record_trace_eq, halike.completed_eq]
    cases hfail : b'.run.failure with
    | none =>
      simp only [run, tell_tell, Checker.recordAll, Run.statements, List.map_cons,
        List.append_assoc, List.cons_append, List.nil_append]
      rfl
    | some failure =>
      simp only [run, tell_tell, Checker.recordAll, List.append_assoc, List.cons_append,
        List.nil_append]
      rfl
  | case4 b stmt b' hn hlt =>
    obtain ⟨a', hstep, hcurrent, halike⟩ := h.forgetCompleted.step_of_ok hn
    have hlt' : ¬ a'.reader.scansLeft < a.reader.scansLeft := by rwa [halike.reader, hscans]
    rw [checkRest, hstep]
    simp only [hcurrent, Option.isSome_some, hlt', dite_false]
    rw [finish_eq, dump_record_trace_eq, halike.completed_eq, tell_tell]
    simp only [Checker.recordAll, Run.statements, List.map_cons, List.map_nil,
      List.append_assoc, List.cons_append, List.nil_append]
    rfl

/-- **A console checks a text like the checker that it has**, and writes what its display
shows of the events. -/
theorem checkText_eq (source filename : String) : k.checkText display source filename =
    ((k.checker.checkText source filename).result,
      k.tell display (k.checker.checkText source filename).events
        (k.checker.checkText source filename).checker) := by
  rw [checkText, checkRest_eq ⟨rfl, rfl⟩, Checker.checkText, readScript]
  simp only [Run.outcome, List.nil_append]
  cases (Session.start source filename).run.failure <;> rfl

end Console

namespace Checker

variable {met : List Met} {c : Checker} {display : Display} {k : Console}

/-- Checks texts under their names, one after the other. -/
def checkTexts : List (String × String) → Checker → Report (List (Except Failure (List Stmt)))
  | [], c => ⟨[], [], c⟩
  | (source, filename) :: calls, c =>
    let first := c.checkText source filename
    let others := checkTexts calls first.checker
    ⟨first.result :: others.result, first.events ++ others.events, others.checker⟩

/-- Each text is read on its own. -/
theorem result_checkTexts (calls : List (String × String)) (c : Checker) :
    (c.checkTexts calls).result = calls.map fun (source, filename) => parse source filename := by
  induction calls generalizing c with
  | nil => rfl
  | cons call calls ih => exact congrArg (_ :: ·) (ih _)

/-- **A checker remembers the statements of all texts**, in the order in which they are checked.
-/
theorem Remembers.checkTexts (h : Remembers met c) (calls : List (String × String)) :
    Remembers (met ++ calls.flatMap fun (source, filename) => Met.ofScript source filename)
      (c.checkTexts calls).checker := by
  induction calls generalizing met c with
  | nil => rwa [List.flatMap_nil, List.append_nil]
  | cons call calls ih =>
    obtain ⟨source, filename⟩ := call
    rw [List.flatMap_cons, ← List.append_assoc]
    exact ih (h.checkText source filename)

/-- A console checks texts like the checker that it has. -/
theorem console_checkTexts (calls : List (String × String)) : k.checkTexts display calls =
    ((k.checker.checkTexts calls).result,
      k.tell display (k.checker.checkTexts calls).events (k.checker.checkTexts calls).checker) := by
  induction calls generalizing k with
  | nil => exact Prod.ext rfl Console.tell_nil.symm
  | cons call calls ih =>
    obtain ⟨source, filename⟩ := call
    rw [Console.checkTexts, Console.checkText_eq]
    dsimp only
    rw [ih, Console.tell_tell]
    rfl

/-- **What checks leave behind can be told from the statements met**, whatever is shown of
them.  Let any texts be checked one after the other, with faults or without.  Each check
comes to what reading its text comes to.  A warning was raised by every statement that
claims the name of a command, or keys, that a statement before it had claimed, and by no
other; it names the script of the last one that did.  The registries hold what was claimed,
each name in the place of its first claim and with the script of its last one.  And a
console that shows the work or the statements, or neither, comes to the same results and to
the same checker. -/
theorem checkTexts_tells (calls : List (String × String)) :
    let met := calls.flatMap fun (source, filename) => Met.ofScript source filename
    let report := fresh.checkTexts calls
    report.result = (calls.map fun (source, filename) => parse source filename) ∧
      report.checker.warnings = Met.warnings met ∧
      report.checker.warnings.map Warning.text = Met.warningTexts met ∧
      report.checker.commands.Tells Tree.command? met ∧
      report.checker.bindings.Tells Tree.keys? met ∧
      ∀ display, Console.fresh.checkTexts display calls =
        (report.result, Console.fresh.tell display report.events report.checker) := by
  have h := remembers_fresh.checkTexts calls
  have htexts := (congrArg (List.map Warning.text) h.warnings).trans (Met.map_text_warnings _)
  exact ⟨result_checkTexts calls fresh, h.warnings, htexts, h.commands, h.bindings,
    fun _ => console_checkTexts calls⟩

/-- Three scripts, the first of which ends within its third statement.  What it defines before
that is defined all the same: the second script is warned of for the command and for the keys,
and the third one for the command again, which by then is from the second script.  This is so
whatever is shown. -/
theorem checkTexts_tells_partway :
    let calls := [("cmd a cd ~;\nmap x a;\nset", "first"),
      ("cmd a cd;\nmap x b;\nmap y b;\n", "second"), ("cmd a cd /;", "third")]
    let report := fresh.checkTexts calls
    report.result = [.error (.fault ⟨.incomplete, .expected .optionName
          ⟨.endOfInput, "", ⟨3, 4⟩⟩, "first", ⟨3, 4⟩⟩),
        .ok [.cmd "a" (.call "cd" []), .map "x" (.call "b" []), .map "y" (.call "b" [])],
        .ok [.cmd "a" (.call "cd" ["/"])]] ∧
      report.checker.warnings.map Warning.text =
        ["LFRC001: second: command 'a' redefines the one from first",
          "LFRC002: second: key 'x' is already mapped in first",
          "LFRC001: third: command 'a' redefines the one from second"] ∧
      report.checker.commands.names = ["a"] ∧
      report.checker.commands.find? "a" = some "third" ∧
      report.checker.bindings.names = ["x", "y"] ∧
      report.checker.bindings.find? "x" = some "second" ∧
      ∀ display, (Console.fresh.checkTexts display calls).2.checker = report.checker := by
  intro calls report
  have hmet : calls.flatMap (fun (source, filename) => Met.ofScript source filename) =
      [⟨.cmd "a" (.call "cd" ["~"]), "first"⟩, ⟨.map "x" (.call "a" []), "first"⟩,
        ⟨.cmd "a" (.call "cd" []), "second"⟩, ⟨.map "x" (.call "b" []), "second"⟩,
        ⟨.map "y" (.call "b" []), "second"⟩, ⟨.cmd "a" (.call "cd" ["/"]), "third"⟩] := by
    cbv
  obtain ⟨hresult, -, htexts, hcommands, hbindings, hconsole⟩ := checkTexts_tells calls
  rw [hmet] at htexts hcommands hbindings
  refine ⟨hresult.trans (by cbv), htexts.trans (by decide +kernel), hcommands.names.trans ?_,
    (hcommands.find? "a").trans ?_, hbindings.names.trans ?_, (hbindings.find? "x").trans ?_,
    fun display => ?_⟩
  · decide +kernel
  · decide +kernel
  · decide +kernel
  · decide +kernel
  · rw [hconsole]
    rfl

end Checker
end RcScript
