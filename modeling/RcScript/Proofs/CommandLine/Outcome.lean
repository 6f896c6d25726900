/-
# What a run of the command line leaves behind

The events of a run are known (`transcript`), and so are the lines that it writes about its
work (`lines`).  Here both channels are settled.  A dump shows the statements that were met,
each on a line (`outLines_transcript`), and nothing else is written on that channel.  On the
other one, who follows the work is shown the lines as they stand, and who does not is shown
the complaints among them and, at the end, all warnings together.

`run_eq` ties the run itself to its transcript, for every command line whose paths lead to
texts or to nothing: no check stops the run, so the transcript is that of all inputs.
`run_tells` puts the parts together and says in full what the status is and what stands on the
two channels, as text.

The text of a dump is written with `Stmt.text`, and what ends it is dropped by
`List.rdropWhile`; the lines about the work are joined from `Line.shown`.  None of these
mentions an event or a display, so what `run_tells` says of the channels does not lean on
the definitions by which the run writes them.
-/

import RcScript.Proofs.CommandLine.Lines
import RcScript.Proofs.RoundTrip.Dump
import Mathlib

namespace RcScript

variable {source filename : String} {display : Display} {earlier : List Met}

namespace Met

/-! ### What is dumped of a script -/

/-- The statements of a script are dumped as these are delivered. -/
theorem outLines_deliveryEvents (hd : display.dump = true) (deliveries : List Delivery) :
    display.outLines (deliveryEvents filename earlier deliveries) =
      deliveries.map fun delivery => dumpLine delivery.statement := by
  induction deliveries generalizing earlier with
  | nil => rfl
  | cons delivery deliveries ih =>
    have hwarned : ∀ w : Option Warning, display.outLines (w.toList.map .warned) = [] := fun w => by
      cases w <;> rfl
    rw [deliveryEvents, outLines_append, outLines_append, outLines_completed, hwarned,
      outLines_delivered hd, ih]
    rfl

/-- The end of a script is not dumped. -/
theorem outLines_endingEvents (filename : String) (run : Run) :
    display.outLines (endingEvents filename run) = [] := by
  rw [endingEvents]
  split
  · rfl
  · rw [outLines_append, outLines_completed]
    rfl
  · exact outLines_completed

/-- **The statements of a script are dumped**, those before a fault too. -/
theorem outLines_scriptEvents (hd : display.dump = true) :
    display.outLines (scriptEvents earlier source filename) =
      (ofScript source filename).map fun m => dumpLine m.statement := by
  rw [scriptEvents, outLines_append, outLines_deliveryEvents hd, outLines_endingEvents,
    List.append_nil, ofScript, Run.statements, List.map_map, List.map_map]
  rfl

end Met

namespace CommandLine

/-! ### What is shown of a run -/

/-- The statements of an input are dumped. -/
theorem Input.outLines_events (hd : display.dump = true) (input : Input) :
    display.outLines (input.events earlier) = input.met.map fun m => dumpLine m.statement := by
  cases input with
  | missing path => rfl
  | file path source => exact Met.outLines_scriptEvents hd
  | inline name source => exact Met.outLines_scriptEvents hd

/-- **A dump shows the statements that were met.** -/
theorem outLines_transcript (hd : display.dump = true) (inputs : List Input) :
    display.outLines (transcript earlier inputs) =
      (inputs.flatMap Input.met).map fun m => dumpLine m.statement := by
  induction inputs generalizing earlier with
  | nil => rfl
  | cons input inputs ih =>
    rw [transcript, outLines_append, input.outLines_events hd, ih, List.flatMap_cons,
      List.map_append]

variable {files : Files} {argv scripts : List String} {options : Options}

/-- What is repeated at the end is not dumped. -/
theorem outLines_reminders (warnings : List Warning) :
    display.outLines (warnings.map .reminder) = [] := by
  rw [Display.outLines, List.filterMap_map]
  exact List.filterMap_eq_nil_iff.2 fun _ _ => rfl

/-- Where no dump is asked for nothing is dumped. -/
theorem outLines_of_not_dump (hd : display.dump = false) (events : List Event) :
    display.outLines events = [] :=
  List.filterMap_eq_nil_iff.2 fun event _ => by cases event <;> simp [Event.out, hd]

/-- **A run is its transcript**, with all warnings repeated at the end. -/
theorem run_eq (hparse : Options.parse argv = .ok options)
    (hpaths : ∀ path ∈ options.paths, Readable files path)
    (hscripts : options.scripts = scripts.map some) :
    let inputs := Input.all files options.paths scripts
    let display : Display := ⟨options.verbose, options.dump⟩
    let events := transcript [] inputs ++ (Met.warnings (inputs.flatMap Input.met)).map .reminder
    ∃ approved, (approved = true ↔ ∀ input ∈ inputs, input.Passes) ∧
      run files argv = ⟨.ok (status approved), unlines (display.outLines events),
        unlines (display.errLines events)⟩ := by
  obtain ⟨⟨approved, hresult, hall⟩, hevents, hremembers⟩ :=
    checks_checkAll (Input.checks_all hpaths hscripts) Checker.remembers_fresh
  refine ⟨approved, hall, ?_⟩
  simp only [run, hparse, check, hresult, hevents, hremembers.warnings, List.nil_append]
  rfl

/-- **A run checks everything and tells the truth.**  Let every path of a command line lead
to a file with a text, or to nothing.  Then the inputs are checked one after the other on one
checker, the paths first and the inline scripts after them.  The status is zero if every
input is there and is accepted, and one if not.  A dump shows every statement that was met,
in order and on a line of its own, those before a fault too: its canonical text with one line
break in the place of those at its end.  Without the option to follow the work there is a
complaint for each input that does not pass, and after them each warning of the run.  With it
the lines of the run are written and no more.  Among them each warning of the run stands once,
where it is raised, and each complaint. -/
theorem run_tells (hparse : Options.parse argv = .ok options)
    (hpaths : ∀ path ∈ options.paths, Readable files path)
    (hscripts : options.scripts = scripts.map some) :
    let inputs := Input.all files options.paths scripts
    let met := inputs.flatMap Input.met
    let outcome := run files argv
    (outcome.status = .ok 0 ∨ outcome.status = .ok 1) ∧
      (outcome.status = .ok 0 ↔ ∀ input ∈ inputs, input.Passes) ∧
      (outcome.out = if options.dump then String.join (met.map fun m =>
          String.ofList ((Stmt.text m.statement).toList.rdropWhile (· = '\n')) ++ "\n") else "") ∧
      (options.verbose = false → outcome.err = String.join
        ((inputs.filterMap Input.complaint?).map (fun complaint => complaint ++ "\n") ++
          (Met.warningTexts met).map fun warning => "Warning: " ++ warning ++ "\n")) ∧
      (options.verbose = true →
        outcome.err = String.join ((lines [] inputs).map fun line => line.text ++ "\n")) ∧
      (lines [] inputs).filterMap Line.warning? = Met.warningTexts met ∧
      (lines [] inputs).filterMap Line.complaint? = inputs.filterMap Input.complaint? := by
  intro inputs met outcome
  obtain ⟨approved, hall, hrun⟩ := run_eq hparse hpaths hscripts
  have hstatus : outcome.status = .ok (status approved) := congrArg Outcome.status hrun
  have hout := congrArg Outcome.out hrun
  have herr := congrArg Outcome.err hrun
  refine ⟨?_, ?_, hout.trans ?_, fun hv => herr.trans ?_, fun hv => herr.trans ?_,
    @filterMap_warning_lines [] inputs, filterMap_complaint_lines inputs⟩
  · rw [hstatus]
    cases approved
    · exact .inr rfl
    · exact .inl rfl
  · rw [hstatus, ← hall]
    cases approved <;> simp [status]
  · dsimp only
    rw [outLines_append, outLines_reminders, List.append_nil]
    split
    · next hd =>
      rw [outLines_transcript hd, unlines, List.map_map]
      rfl
    · next hd =>
      rw [outLines_of_not_dump (by simpa using hd)]
      rfl
  · dsimp only
    rw [errLines_of_not_verbose hv, Met.map_text_warnings, unlines, List.map_append, List.map_map]
    rfl
  · dsimp only
    rw [errLines_of_verbose hv, unlines, List.map_map]
    rfl

/-! ### A run -/

/-- Files with a script that has a fault and one that defines a command twice. -/
def sampleFiles : Files := fun path =>
  if path = "bad" then .ok "cd ~;\ncd".toUTF8
  else if path = "good" then .ok "cmd a cd ~;\ncmd a cd;".toUTF8
  else .error .missing

/-- The files, a path behind which there is none, and an inline script. -/
def sampleInputs : List Input :=
  [.file "bad" "cd ~;\ncd", .missing "none", .file "good" "cmd a cd ~;\ncmd a cd;",
    .inline "<command 1>" "cmd a cd /;"]

/-- Every path leads to a text or to nothing. -/
theorem readable_sampleFiles : ∀ path ∈ ["bad", "none", "good"], Readable sampleFiles path := by
  simp only [List.forall_mem_cons, List.not_mem_nil, false_imp_iff, implies_true, and_true]
  exact ⟨.inr ⟨_, "cd ~;\ncd", rfl, by cbv⟩, .inl rfl,
    .inr ⟨_, "cmd a cd ~;\ncmd a cd;", rfl, by cbv⟩⟩

/-- The statement before the fault is met too. -/
theorem met_sampleInputs : sampleInputs.flatMap Input.met =
    [⟨.call "cd" ["~"], "bad"⟩, ⟨.cmd "a" (.call "cd" ["~"]), "good"⟩,
      ⟨.cmd "a" (.call "cd" []), "good"⟩, ⟨.cmd "a" (.call "cd" ["/"]), "<command 1>"⟩] := by
  cbv

/-- Two of the inputs do not pass. -/
theorem complaints_sampleInputs : sampleInputs.filterMap Input.complaint? =
    ["Syntax error: bad:2:3: Expected argument or ';' after 'cd', got end of input",
      "Error: File not found: none"] := by
  have hbad : parse "cd ~;\ncd" "bad" = .error (.fault ⟨.incomplete,
      .expected (.argumentOrEnd "cd") ⟨.endOfInput, "", ⟨2, 3⟩⟩, "bad", ⟨2, 3⟩⟩) := by cbv
  have hgood : Input.refusal? "cmd a cd ~;\ncmd a cd;" "good" = none := by cbv
  have hinline : Input.refusal? "cmd a cd /;" "<command 1>" = none := by cbv
  have hrefusal : Input.refusal? "cd ~;\ncd" "bad" =
      some "Syntax error: bad:2:3: Expected argument or ';' after 'cd', got end of input" := by
    rw [Input.refusal?, hbad]
    decide +kernel
  simp only [sampleInputs, List.filterMap_cons, List.filterMap_nil, Input.complaint?, hrefusal,
    hgood, hinline]
  decide +kernel

/-- A definition is written behind the call in it, and a warning behind its definition. -/
theorem lines_sampleInputs : lines [] sampleInputs =
    [.work "Reading bad...", .work "parsed: cd ~;",
      .complaint "Syntax error: bad:2:3: Expected argument or ';' after 'cd', got end of input",
      .work "Reading none...", .complaint "Error: File not found: none",
      .work "Reading good...", .work "parsed: cd ~;", .work "parsed: cmd a cd ~;",
      .work "parsed: cd;", .work "parsed: cmd a cd;",
      .warning "LFRC001: good: command 'a' redefines the one from good",
      .work "good: 2 statements (2 cmd, 2 call)",
      .work "parsed: cd /;", .work "parsed: cmd a cd /;",
      .warning "LFRC001: <command 1>: command 'a' redefines the one from good",
      .work "<command 1>: 1 statements (1 cmd, 1 call)"] := by
  have hfault : (readScript "cd ~;\ncd" "bad").failure = some (.fault ⟨.incomplete,
      .expected (.argumentOrEnd "cd") ⟨.endOfInput, "", ⟨2, 3⟩⟩, "bad", ⟨2, 3⟩⟩) := by cbv
  have hgood : (readScript "cmd a cd ~;\ncmd a cd;" "good").failure = none := by cbv
  have hinline : (readScript "cmd a cd /;" "<command 1>").failure = none := by cbv
  have hunfinished : (readScript "cd ~;\ncd" "bad").unfinished = [] := by cbv
  have hfirst : (readScript "cd ~;\ncd" "bad").deliveries =
      [⟨[.call "cd" ["~"]], .call "cd" ["~"]⟩] := by cbv
  have hsecond : (readScript "cmd a cd ~;\ncmd a cd;" "good").deliveries =
      [⟨[.call "cd" ["~"], .cmd "a" (.call "cd" ["~"])], .cmd "a" (.call "cd" ["~"])⟩,
        ⟨[.call "cd" [], .cmd "a" (.call "cd" [])], .cmd "a" (.call "cd" [])⟩] := by cbv
  have hthird : (readScript "cmd a cd /;" "<command 1>").deliveries =
      [⟨[.call "cd" ["/"], .cmd "a" (.call "cd" ["/"])], .cmd "a" (.call "cd" ["/"])⟩] := by cbv
  simp only [sampleInputs, lines, Input.lines, Input.met, Input.script?, Met.ofScript,
    Met.scriptLines, Met.endingLines, Run.statements, hfault, hgood, hinline, hunfinished, hfirst,
    hsecond, hthird]
  decide +kernel

/-- A fault and a missing file are complained about and fail the run, and the rest is checked
all the same.  Run quietly, the warnings come last.  Run verbosely, each of them stands behind
the statement that calls for it, and nothing comes after the last script. -/
theorem run_tells_mixed :
    let argv := ["--dump", "bad", "none", "good", "-c", "cmd a cd /;"]
    Options.parse argv = .ok ⟨false, true, ["bad", "none", "good"], [some "cmd a cd /;"]⟩ ∧
      Options.parse ("--verbose" :: argv) =
        .ok ⟨true, true, ["bad", "none", "good"], [some "cmd a cd /;"]⟩ ∧
      (∀ path ∈ ["bad", "none", "good"], Readable sampleFiles path) ∧
      (run sampleFiles argv).status = .ok 1 ∧
      (run sampleFiles argv).out = "cd ~;\ncmd a cd ~;\ncmd a cd;\ncmd a cd /;\n" ∧
      (run sampleFiles argv).err = String.join
        ["Syntax error: bad:2:3: Expected argument or ';' after 'cd', got end of input\n",
          "Error: File not found: none\n",
          "Warning: LFRC001: good: command 'a' redefines the one from good\n",
          "Warning: LFRC001: <command 1>: command 'a' redefines the one from good\n"] ∧
      (run sampleFiles ("--verbose" :: argv)).err = String.join
        ["[lfrc] Reading bad...\n",
          "[lfrc] parsed: cd ~;\n",
          "Syntax error: bad:2:3: Expected argument or ';' after 'cd', got end of input\n",
          "[lfrc] Reading none...\n",
          "Error: File not found: none\n",
          "[lfrc] Reading good...\n",
          "[lfrc] parsed: cd ~;\n",
          "[lfrc] parsed: cmd a cd ~;\n",
          "[lfrc] parsed: cd;\n",
          "[lfrc] parsed: cmd a cd;\n",
          "[lfrc] Warning: LFRC001: good: command 'a' redefines the one from good\n",
          "[lfrc] good: 2 statements (2 cmd, 2 call)\n",
          "[lfrc] parsed: cd /;\n",
          "[lfrc] parsed: cmd a cd /;\n",
          "[lfrc] Warning: LFRC001: <command 1>: command 'a' redefines the one from good\n",
          "[lfrc] <command 1>: 1 statements (1 cmd, 1 call)\n"] := by
  have hquiet : Options.parse ["--dump", "bad", "none", "good", "-c", "cmd a cd /;"] =
      .ok ⟨false, true, ["bad", "none", "good"], [some "cmd a cd /;"]⟩ := by cbv
  have hverbose : Options.parse
      ["--verbose", "--dump", "bad", "none", "good", "-c", "cmd a cd /;"] =
        .ok ⟨true, true, ["bad", "none", "good"], [some "cmd a cd /;"]⟩ := by cbv
  have hscripts : [some "cmd a cd /;"] = ["cmd a cd /;"].map some := rfl
  have hinputs : Input.all sampleFiles ["bad", "none", "good"] ["cmd a cd /;"] = sampleInputs := by
    cbv
  obtain ⟨hstatus, hzero, hout, herr, -⟩ := run_tells hquiet readable_sampleFiles hscripts
  obtain ⟨-, -, -, -, hlog, -⟩ := run_tells hverbose readable_sampleFiles hscripts
  rw [hinputs] at hzero hout herr hlog
  rw [met_sampleInputs] at hout herr
  rw [complaints_sampleInputs] at herr
  rw [lines_sampleInputs] at hlog
  refine ⟨hquiet, hverbose, readable_sampleFiles, hstatus.resolve_left fun h => ?_,
    hout.trans ?_, (herr rfl).trans ?_, (hlog rfl).trans ?_⟩
  · obtain ⟨source, name, stmts, hs, -⟩ := hzero.1 h (.missing "none") (by simp [sampleInputs])
    cases hs
  · decide +kernel
  · decide +kernel
  · decide +kernel

end CommandLine
end RcScript
