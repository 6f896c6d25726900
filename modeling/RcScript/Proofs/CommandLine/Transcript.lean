/-
# The transcript of a run

What a run of the command line does can be told in advance from its inputs, the paths and
the inline scripts in the order in which they are checked.  `transcript` is the sequence of
events that they give rise to: a warning stands right before the event that says that the
statement which calls for it has been checked, and it is seen from the statements met so far,
in this script or in one before it.  One input gives rise to its part of the transcript,
whatever came of the inputs before it (`Input.Checks`), so all of them do (`checks_checkAll`).
The status of a run is settled here, and what stands on its two channels is read off the
transcript in the modules that follow.

The transcript speaks of statements that have been met and not of registries.  That these
come to the same is known from `RcScript.Proofs.Checker.Records`, for a checker that
remembers what was met; so the induction over the inputs carries that the checker
remembers all inputs so far, and nothing else is needed of it.  An input that fails is no
exception: its statements before the fault are met, and the next input is checked on the
checker that it has left.
-/

import RcScript.CommandLine.Run
import RcScript.Proofs.Checker.Records
import RcScript.Proofs.RoundTrip.Dump
import RcScript.Proofs.Session.Failures

namespace RcScript

variable {source filename : String} {display : Display} {earlier : List Met} {c : Checker}

/-! ### What a script gives rise to -/

namespace Met

/-- What there is to say of statements as a script delivers them, when others have been met
before. -/
def deliveryEvents (filename : String) : List Met → List Delivery → List Event
  | _, [] => []
  | earlier, delivery :: deliveries =>
    let m : Met := ⟨delivery.statement, filename⟩
    delivery.completed.map .completed ++ (warning earlier m).toList.map .warned ++
      .delivered delivery.statement :: deliveryEvents filename (earlier ++ [m]) deliveries

/-- What there is to say at the end of a script. -/
def endingEvents (filename : String) (run : Run) : List Event :=
  match run.failure with
  | none => [.finished filename run.statements]
  | some (.fault fault) => run.unfinished.map .completed ++ [.refused fault]
  | some (.build _) => run.unfinished.map .completed

/-- What there is to say of a script, when statements have been met before. -/
def scriptEvents (earlier : List Met) (source filename : String) : List Event :=
  let run := readScript source filename
  deliveryEvents filename earlier run.deliveries ++ endingEvents filename run

end Met

namespace Checker

/-- A checker says of statements what can be told from those that it has met. -/
theorem Remembers.events_recordAll (h : Remembers earlier c) (filename : String)
    (deliveries : List Delivery) :
    (Checker.recordAll filename deliveries c).events =
      Met.deliveryEvents filename earlier deliveries := by
  induction deliveries generalizing earlier c with
  | nil => rfl
  | cons delivery deliveries ih =>
    obtain ⟨hremembers, hevents⟩ := h.record ⟨delivery.statement, filename⟩
    rw [Checker.recordAll, Met.deliveryEvents, hevents, ih hremembers]

/-- **A script is approved just when it is accepted.** -/
theorem exists_result_approve (c : Checker) (source filename : String) :
    ∃ approved, (c.approve source filename).result = .ok approved ∧
      (approved = true ↔ ∃ stmts, parse source filename = .ok stmts) := by
  have hresult : (c.checkText source filename).result = parse source filename := rfl
  cases hp : parse source filename with
  | ok stmts => exact ⟨true, by simp only [Checker.approve, hresult, hp], by simp⟩
  | error failure =>
    obtain ⟨fault, rfl⟩ := exists_fault_of_parse hp
    exact ⟨false, by simp only [Checker.approve, hresult, hp], by simp⟩

/-- **What there is to say of a script can be told from the statements met before.** -/
theorem Remembers.approve (h : Remembers earlier c) (source filename : String) :
    (c.approve source filename).events = Met.scriptEvents earlier source filename ∧
      Remembers (earlier ++ Met.ofScript source filename) (c.approve source filename).checker := by
  have hevents := h.events_recordAll filename (readScript source filename).deliveries
  have hremembers := h.checkText source filename
  have hresult : (c.checkText source filename).result = parse source filename := rfl
  cases hp : parse source filename with
  | ok stmts =>
    obtain ⟨hfail, -⟩ := parse_eq_ok_iff.1 hp
    simp only [Checker.approve, hresult, hp]
    refine ⟨?_, hremembers⟩
    simp only [Checker.checkText, hevents, hfail, Met.scriptEvents, Met.endingEvents]
  | error failure =>
    obtain ⟨fault, rfl⟩ := exists_fault_of_parse hp
    have hfail := parse_eq_error_iff.1 hp
    simp only [Checker.approve, hresult, hp]
    refine ⟨?_, hremembers⟩
    simp only [Checker.checkText, hevents, hfail, Met.scriptEvents, Met.endingEvents,
      List.append_assoc]

end Checker

namespace CommandLine

/-- What a command line asks to check. -/
inductive Input
  /-- a path behind which there is no file -/
  | missing (path : String)
  /-- a path and the text behind it -/
  | file (path source : String)
  /-- an inline script and the name that it goes by -/
  | inline (name source : String)

namespace Input

/-- The text of an input and its name, if there is one. -/
def script? : Input → Option (String × String)
  | missing _ => none
  | file path source => some (source, path)
  | inline name source => some (source, name)

/-- The statements that are met in an input, those before a fault if it has one. -/
def met (input : Input) : List Met :=
  match input.script? with
  | some (source, name) => Met.ofScript source name
  | none => []

/-- An input passes if it is there and is accepted. -/
def Passes (input : Input) : Prop :=
  ∃ source name stmts, input.script? = some (source, name) ∧ parse source name = .ok stmts

/-- What is written about a script that has a fault. -/
def refusal? (source name : String) : Option String :=
  match parse source name with
  | .error (.fault fault) => some ("Syntax error: " ++ fault.text)
  | _ => none

/-- What is written about an input that does not pass. -/
def complaint? : Input → Option String
  | missing path => some ("Error: File not found: " ++ path)
  | file name source | inline name source => refusal? source name

/-- What there is to say of an input, when statements have been met before. -/
def events (earlier : List Met) : Input → List Event
  | missing path => [.reading path, .missing path]
  | file path source => .reading path :: Met.scriptEvents earlier source path
  | inline name source => Met.scriptEvents earlier source name

/-- What is behind a path.  A file that cannot be read for its text is not told from one
that is missing. -/
def ofPath (files : Files) (path : String) : Input :=
  match files path with
  | .error _ => missing path
  | .ok bytes =>
    match Files.decodeText bytes with
    | some source => file path source
    | none => missing path

/-- The inputs of a run: what is behind the paths, and then the inline scripts, which go by
their number. -/
def all (files : Files) (paths scripts : List String) : List Input :=
  paths.map (ofPath files) ++ scripts.mapIdx fun index source => inline (inlineName index) source

end Input

/-- What there is to say of inputs one after the other, when statements have been met
before. -/
def transcript : List Met → List Input → List Event
  | _, [] => []
  | earlier, input :: inputs =>
    input.events earlier ++ transcript (earlier ++ input.met) inputs

/-- A path behind which there is a file with a text, or nothing. -/
def Readable (files : Files) (path : String) : Prop :=
  files path = .error .missing ∨
    ∃ bytes source, files path = .ok bytes ∧ Files.decodeText bytes = some source

/-! ### Checking the inputs -/

/-- A check of an input comes to what can be told of it in advance, whatever statements have
been met before. -/
structure Input.Checks (input : Input) (check : Checker → Report (Except Crash Bool)) : Prop where
  result : ∀ c, ∃ approved, (check c).result = .ok approved ∧ (approved = true ↔ input.Passes)
  told : ∀ {earlier c}, Checker.Remembers earlier c →
    (check c).events = input.events earlier ∧
      Checker.Remembers (earlier ++ input.met) (check c).checker

namespace Input

/-- An input with a text passes just when its text is accepted. -/
theorem passes_iff {input : Input} (h : input.script? = some (source, filename)) :
    input.Passes ↔ ∃ stmts, parse source filename = .ok stmts := by
  constructor
  · rintro ⟨source', name, stmts, hs, hp⟩
    cases h.symm.trans hs
    exact ⟨stmts, hp⟩
  · rintro ⟨stmts, hp⟩
    exact ⟨source, filename, stmts, h, hp⟩

/-- An inline script is checked under its name. -/
theorem checks_inline (name source : String) :
    (inline name source).Checks fun c => c.approve? (some source) name where
  result c := by
    rw [passes_iff rfl]
    exact c.exists_result_approve source name
  told h := h.approve source name

/-- A path that can be read is checked. -/
theorem checks_ofPath {files : Files} {path : String} (h : Readable files path) :
    (ofPath files path).Checks fun c => c.checkFile files path := by
  rcases h with hmissing | ⟨bytes, source, hbytes, hsource⟩
  · simp only [ofPath, Checker.checkFile, hmissing]
    refine ⟨fun c => ⟨false, rfl, ?_⟩, fun h => ⟨rfl, ?_⟩⟩
    · exact ⟨nofun, fun ⟨_, _, _, hs, _⟩ => nomatch hs⟩
    · exact (List.append_nil _).symm ▸ h
  · simp only [ofPath, Checker.checkFile, hbytes, hsource]
    refine ⟨fun c => ?_, fun h => ?_⟩
    · rw [passes_iff rfl]
      exact c.exists_result_approve source path
    · obtain ⟨hevents, hremembers⟩ := h.approve source path
      exact ⟨congrArg (.reading path :: ·) hevents, hremembers⟩

/-- Paths that can be read are checked, one by one. -/
theorem checks_paths {files : Files} {paths : List String}
    (hpaths : ∀ path ∈ paths, Readable files path) :
    List.Forall₂ Checks (paths.map (ofPath files))
      (paths.map fun path c => c.checkFile files path) := by
  rw [List.forall₂_map_left_iff, List.forall₂_map_right_iff, List.forall₂_same]
  exact fun path hp => checks_ofPath (hpaths path hp)

/-- **Everything that a command line asks for is checked.** -/
theorem checks_all {files : Files} {options : Options} {scripts : List String}
    (hpaths : ∀ path ∈ options.paths, Readable files path)
    (hscripts : options.scripts = scripts.map some) :
    List.Forall₂ Checks (all files options.paths scripts) (checks files options) := by
  refine List.rel_append (checks_paths hpaths) ?_
  refine List.forall₂_of_length_eq_of_get (by simp [hscripts]) fun index _ _ => ?_
  simpa [hscripts] using checks_inline _ _

end Input

/-- **The checks of inputs give rise to their transcript.**  All of them approve just when
every input passes, and none of them stops the run. -/
theorem checks_checkAll {inputs : List Input}
    {checks : List (Checker → Report (Except Crash Bool))}
    (hc : List.Forall₂ Input.Checks inputs checks) (h : Checker.Remembers earlier c) :
    (∃ approved, (checkAll checks c).result = .ok approved ∧
        (approved = true ↔ ∀ input ∈ inputs, input.Passes)) ∧
      (checkAll checks c).events = transcript earlier inputs ∧
      Checker.Remembers (earlier ++ inputs.flatMap Input.met) (checkAll checks c).checker := by
  induction hc generalizing earlier c with
  | nil => exact ⟨⟨true, rfl, by simp⟩, rfl, by rwa [List.flatMap_nil, List.append_nil]⟩
  | @cons input check inputs checks hfirst _ ih =>
    obtain ⟨approved, hresult, hpasses⟩ := hfirst.result c
    obtain ⟨hevents, hremembers⟩ := hfirst.told h
    obtain ⟨⟨others, hothers, hall⟩, hrest, hfinal⟩ := ih hremembers
    rw [List.append_assoc, ← List.flatMap_cons] at hfinal
    simp only [checkAll, hresult, hothers, hevents, hrest]
    refine ⟨⟨approved && others, rfl, ?_⟩, rfl, hfinal⟩
    rw [Bool.and_eq_true, hpasses, hall, List.forall_mem_cons]

end CommandLine
end RcScript
