/-
# The lines that a run writes

What a run writes about its work can be written down without its events, from the inputs
alone.  `Line` says which lines there are: about the work, about a warning, and complaints.
`CommandLine.lines` puts them in order.  A path is announced before it is read; each statement
of a script is written as it is completed, and behind it the warning that it calls for, if it
calls for one; a script that is read to its end is summed up, and a fault is complained about
where the script breaks off.

Two views of the lines are counted against the inputs.  The warnings among them are those that
can be told from the statements met, each of them once (`filterMap_warning_lines`), and the
complaints are those about the inputs that do not pass (`filterMap_complaint_lines`).  That
the lines are what a display shows of the transcript is said by `errLines_transcript`: who
follows the work is shown all of them, and who does not is shown the complaints.

A line carries its words, and `Line.text` puts before them the sign under which lines of
its kind are written.  Words and signs are written out here once more, apart from the
program, so that what the program shows can be compared with them.  The inputs come in the
order in which they are checked, and what was met before an input decides which of its
definitions and bindings are warned about.
-/

import RcScript.Proofs.CommandLine.Transcript

namespace RcScript

/-- A line on the second channel. -/
inductive Line
  /-- a line about the work -/
  | work (text : String)
  /-- a warning, where it is raised -/
  | warning (text : String)
  /-- an input does not pass -/
  | complaint (text : String)
deriving DecidableEq, Repr, Inhabited

namespace Line

/-- A line as it is written. -/
def text : Line → String
  | work text => "[lfrc] " ++ text
  | warning text => "[lfrc] Warning: " ++ text
  | complaint text => text

/-- The warning that a line is about. -/
def warning? : Line → Option String
  | warning text => some text
  | _ => none

/-- The complaint that a line is. -/
def complaint? : Line → Option String
  | complaint text => some text
  | _ => none

/-- What is shown of a line: all of it to those who follow the work, and complaints to
everyone. -/
def shown (verbose : Bool) (line : Line) : Option String :=
  if verbose then some line.text else line.complaint?

/-- A complaint is shown to everyone. -/
theorem shown_complaint (verbose : Bool) (text : String) :
    shown verbose (.complaint text) = some text := by
  cases verbose <;> rfl

/-- The line about a statement that is complete. -/
def parsed (stmt : Stmt) : Line := .work ("parsed: " ++ Stmt.text stmt)

end Line

variable {source filename : String} {display : Display} {earlier : List Met}

namespace Met

/-! ### The lines of a script -/

/-- The lines about statements as a script delivers them, when others have been met before. -/
def deliveryLines (filename : String) : List Met → List Delivery → List Line
  | _, [] => []
  | earlier, delivery :: deliveries =>
    let m : Met := ⟨delivery.statement, filename⟩
    delivery.completed.map Line.parsed ++ (warningText earlier m).toList.map .warning ++
      deliveryLines filename (earlier ++ [m]) deliveries

/-- The lines at the end of a script. -/
def endingLines (filename : String) (run : Run) : List Line :=
  match run.failure with
  | none => [.work (filename ++ ": " ++ toString run.statements.length ++ " statements ("
      ++ summary run.statements ++ ")")]
  | some (.fault fault) =>
    run.unfinished.map Line.parsed ++ [.complaint ("Syntax error: " ++ fault.text)]
  | some (.build _) => run.unfinished.map Line.parsed

/-- The lines about a script, when statements have been met before. -/
def scriptLines (earlier : List Met) (source filename : String) : List Line :=
  let run := readScript source filename
  deliveryLines filename earlier run.deliveries ++ endingLines filename run

/-- The line about a statement that is complete is neither a warning nor a complaint. -/
theorem filterMap_parsed {α : Type} {view : Line → Option α}
    (hview : ∀ text, view (.work text) = none) (stmts : List Stmt) :
    (stmts.map Line.parsed).filterMap view = [] := by
  rw [List.filterMap_map]
  exact List.filterMap_eq_nil_iff.2 fun stmt _ => hview _

/-- The warnings of statements are written as these are delivered. -/
theorem filterMap_warning_deliveryLines (deliveries : List Delivery) :
    warningTexts earlier ++ (deliveryLines filename earlier deliveries).filterMap Line.warning? =
      warningTexts (earlier ++ deliveries.map fun delivery => ⟨delivery.statement, filename⟩) := by
  induction deliveries generalizing earlier with
  | nil => rw [deliveryLines, List.filterMap_nil, List.map_nil, List.append_nil, List.append_nil]
  | cons delivery deliveries ih =>
    rw [List.map_cons, List.append_cons, ← ih, warningTexts_concat, List.append_assoc,
      deliveryLines, List.filterMap_append, List.filterMap_append, filterMap_parsed fun _ => rfl]
    cases warningText earlier ⟨delivery.statement, filename⟩ <;> rfl

/-- No statement that is delivered is complained about. -/
theorem filterMap_complaint_deliveryLines (deliveries : List Delivery) :
    (deliveryLines filename earlier deliveries).filterMap Line.complaint? = [] := by
  induction deliveries generalizing earlier with
  | nil => rfl
  | cons delivery deliveries ih =>
    rw [deliveryLines, List.filterMap_append, List.filterMap_append, ih,
      filterMap_parsed fun _ => rfl]
    cases warningText earlier ⟨delivery.statement, filename⟩ <;> rfl

/-- **The warnings of a script are those that its statements call for.** -/
theorem filterMap_warning_scriptLines : warningTexts earlier ++
    (scriptLines earlier source filename).filterMap Line.warning? =
      warningTexts (earlier ++ ofScript source filename) := by
  -- nothing is warned of where a script ends
  have hending : (endingLines filename (readScript source filename)).filterMap Line.warning? =
      [] := by
    rw [endingLines]
    split
    · rfl
    · rw [List.filterMap_append, filterMap_parsed fun _ => rfl]
      rfl
    · exact filterMap_parsed (fun _ => rfl) _
  rw [scriptLines, List.filterMap_append, hending, List.append_nil,
    filterMap_warning_deliveryLines, ofScript, Run.statements, List.map_map]
  rfl

/-- **A script is complained about just when it has a fault**, and then once. -/
theorem filterMap_complaint_scriptLines :
    (scriptLines earlier source filename).filterMap Line.complaint? =
      (CommandLine.Input.refusal? source filename).toList := by
  rw [scriptLines, List.filterMap_append, filterMap_complaint_deliveryLines, List.nil_append,
    endingLines, CommandLine.Input.refusal?, parse, Run.outcome]
  cases (readScript source filename).failure with
  | none => rfl
  | some failure =>
    cases failure with
    | build error => exact filterMap_parsed (fun _ => rfl) _
    | fault fault =>
      rw [List.filterMap_append, filterMap_parsed fun _ => rfl]
      rfl

/-! ### What is shown of a script -/

/-- An event that is shown as a line leaves what is shown of the line. -/
theorem filterMap_err_cons {event : Event} {line : Line} {events : List Event}
    {lines : List Line} (h : event.err display = line.shown display.verbose)
    (hs : events.filterMap (Event.err display) = lines.filterMap (Line.shown display.verbose)) :
    (event :: events).filterMap (Event.err display) =
      (line :: lines).filterMap (Line.shown display.verbose) := by
  rw [List.filterMap_cons, List.filterMap_cons, h, hs]

/-- Of statements that were completed it is shown that they were. -/
theorem filterMap_err_completed (stmts : List Stmt) :
    (stmts.map .completed).filterMap (Event.err display) =
      (stmts.map Line.parsed).filterMap (Line.shown display.verbose) := by
  rw [List.filterMap_map, List.filterMap_map]
  rfl

/-- Of a statement that has been met the warning is shown that it calls for. -/
theorem filterMap_err_warning (earlier : List Met) (m : Met) :
    ((warning earlier m).toList.map .warned).filterMap (Event.err display) =
      ((warningText earlier m).toList.map .warning).filterMap (Line.shown display.verbose) := by
  rw [← map_text_warning]
  cases warning earlier m with
  | none => rfl
  | some warning =>
    refine filterMap_err_cons ?_ rfl
    rw [Event.err, Event.progress, Line.shown, Line.text, ← String.append_assoc]
    rfl

/-- **The lines about deliveries are what is shown of them.** -/
theorem filterMap_err_deliveryEvents (deliveries : List Delivery) :
    (deliveryEvents filename earlier deliveries).filterMap (Event.err display) =
      (deliveryLines filename earlier deliveries).filterMap (Line.shown display.verbose) := by
  induction deliveries generalizing earlier with
  | nil => rfl
  | cons delivery deliveries ih =>
    rw [deliveryEvents, deliveryLines, List.filterMap_append, List.filterMap_append,
      List.filterMap_append, List.filterMap_append, filterMap_err_completed, filterMap_err_warning,
      List.filterMap_cons_none rfl, ih]

/-- The lines at the end of a script are what is shown of it. -/
theorem filterMap_err_endingEvents (filename : String) (run : Run) :
    (endingEvents filename run).filterMap (Event.err display) =
      (endingLines filename run).filterMap (Line.shown display.verbose) := by
  rw [endingEvents, endingLines]
  cases run.failure with
  | none => rfl
  | some failure =>
    cases failure with
    | build error => exact filterMap_err_completed run.unfinished
    | fault fault =>
      dsimp only
      rw [List.filterMap_append, List.filterMap_append, filterMap_err_completed]
      refine congrArg (_ ++ ·) (filterMap_err_cons ?_ rfl)
      exact (Line.shown_complaint _ _).symm

/-- **The lines about a script are what is shown of it.** -/
theorem filterMap_err_scriptEvents :
    (scriptEvents earlier source filename).filterMap (Event.err display) =
      (scriptLines earlier source filename).filterMap (Line.shown display.verbose) := by
  rw [scriptEvents, scriptLines, List.filterMap_append, List.filterMap_append,
    filterMap_err_deliveryEvents, filterMap_err_endingEvents]

end Met

namespace CommandLine

/-! ### The lines of a run -/

/-- The lines about an input, when statements have been met before. -/
def Input.lines (earlier : List Met) : Input → List Line
  | missing path =>
    [.work ("Reading " ++ path ++ "..."), .complaint ("Error: File not found: " ++ path)]
  | file path source =>
    .work ("Reading " ++ path ++ "...") :: Met.scriptLines earlier source path
  | inline name source => Met.scriptLines earlier source name

/-- The lines about inputs one after the other, when statements have been met before. -/
def lines : List Met → List Input → List Line
  | _, [] => []
  | earlier, input :: inputs => input.lines earlier ++ lines (earlier ++ input.met) inputs

/-- The warnings of an input are those that its statements call for. -/
theorem Input.filterMap_warning_lines (input : Input) : Met.warningTexts earlier ++
    (input.lines earlier).filterMap Line.warning? = Met.warningTexts (earlier ++ input.met) := by
  cases input with
  | missing path =>
    exact (List.append_nil _).trans (congrArg Met.warningTexts (List.append_nil _)).symm
  | file path source => exact Met.filterMap_warning_scriptLines
  | inline name source => exact Met.filterMap_warning_scriptLines

/-- An input is complained about if it does not pass, and then once. -/
theorem Input.filterMap_complaint_lines (input : Input) :
    (input.lines earlier).filterMap Line.complaint? = input.complaint?.toList := by
  cases input with
  | missing path => rfl
  | file path source => exact Met.filterMap_complaint_scriptLines
  | inline name source => exact Met.filterMap_complaint_scriptLines

/-- The lines about an input are what is shown of it. -/
theorem Input.filterMap_err_events (input : Input) :
    (input.events earlier).filterMap (Event.err display) =
      (input.lines earlier).filterMap (Line.shown display.verbose) := by
  cases input with
  | missing path =>
    exact Met.filterMap_err_cons rfl (Met.filterMap_err_cons (Line.shown_complaint _ _).symm rfl)
  | file path source => exact Met.filterMap_err_cons rfl Met.filterMap_err_scriptEvents
  | inline name source => exact Met.filterMap_err_scriptEvents

/-- **Each warning is written once**, where it is raised, and they are written in order. -/
theorem filterMap_warning_lines (inputs : List Input) :
    Met.warningTexts earlier ++ (lines earlier inputs).filterMap Line.warning? =
      Met.warningTexts (earlier ++ inputs.flatMap Input.met) := by
  induction inputs generalizing earlier with
  | nil => rw [lines, List.filterMap_nil, List.flatMap_nil, List.append_nil, List.append_nil]
  | cons input inputs ih =>
    rw [lines, List.filterMap_append, ← List.append_assoc, input.filterMap_warning_lines, ih,
      List.append_assoc, List.flatMap_cons]

/-- **There is one complaint for each input that does not pass.** -/
theorem filterMap_complaint_lines (inputs : List Input) :
    (lines earlier inputs).filterMap Line.complaint? = inputs.filterMap Input.complaint? := by
  induction inputs generalizing earlier with
  | nil => rfl
  | cons input inputs ih =>
    rw [lines, List.filterMap_append, input.filterMap_complaint_lines, ih, List.filterMap_cons]
    cases input.complaint? <;> rfl

/-- **The lines of a run are what is shown of its transcript.** -/
theorem errLines_transcript (inputs : List Input) :
    display.errLines (transcript earlier inputs) =
      (lines earlier inputs).filterMap (Line.shown display.verbose) := by
  induction inputs generalizing earlier with
  | nil => rfl
  | cons input inputs ih =>
    rw [transcript, lines, Display.errLines, List.filterMap_append, List.filterMap_append,
      input.filterMap_err_events, ← ih]
    rfl

/-! ### What is repeated at the end -/

/-- What is shown of events one after the other is shown in that order. -/
theorem errLines_append (events events' : List Event) :
    display.errLines (events ++ events') = display.errLines events ++ display.errLines events' :=
  List.filterMap_append

/-- **Who follows the work is shown the lines of the run**, and nothing is repeated. -/
theorem errLines_of_verbose (hv : display.verbose = true) (inputs : List Input)
    (warnings : List Warning) :
    display.errLines (transcript earlier inputs ++ warnings.map .reminder) =
      (lines earlier inputs).map Line.text := by
  have hreminders : display.errLines (warnings.map .reminder) = [] := by
    rw [Display.errLines, List.filterMap_map]
    exact List.filterMap_eq_nil_iff.2 fun warning _ => if_pos hv
  rw [errLines_append, errLines_transcript, hreminders, List.append_nil, hv]
  exact congrFun List.filterMap_eq_map _

/-- **Who does not is shown the complaints**, and the warnings at the end. -/
theorem errLines_of_not_verbose (hv : display.verbose = false) (inputs : List Input)
    (warnings : List Warning) :
    display.errLines (transcript earlier inputs ++ warnings.map .reminder) =
      inputs.filterMap Input.complaint? ++
        (warnings.map Warning.text).map fun text => "Warning: " ++ text := by
  have hreminders : display.errLines (warnings.map .reminder) =
      (warnings.map Warning.text).map fun text => "Warning: " ++ text := by
    rw [Display.errLines, List.filterMap_map, List.map_map, ← List.filterMap_eq_map]
    refine List.filterMap_congr fun warning _ => if_neg ?_
    rw [hv]
    exact Bool.false_ne_true
  rw [errLines_append, errLines_transcript, hreminders, hv, ← filterMap_complaint_lines]
  rfl

end CommandLine
end RcScript
