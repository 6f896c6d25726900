/-
# Paths that cannot be read

A path may lead to nothing, to a directory, below a file, or to a file that holds no UTF-8.
Only the first of these is refused like a script that has a fault; any other ends the whole
run (`exists_crash`).  What comes before such a path has been checked and shown, and
nothing after it is: no other script is checked, no warning is repeated and there is no status
(`run_of_crash`).  So a run in which something cannot be read goes on just when whatever cannot
be read is missing (`run_carriesOn_iff`).

The first path that ends the run is the one that counts, so a list of paths that cannot
all be read is split there (`exists_first_unreadable`).  The checks before it all come to a
result, and checks that do so can be run first and the others after them
(`checkAll_append`); what is known of a run in which everything can be read then holds of
its first part as it stands.

What has been written by the time of a crash is on its channels: lines that were dumped
and lines about the work stay, and so do complaints.  The warnings are only repeated when
all inputs have been checked, so a run that is not followed loses them.  The crash itself
is no line of the program; it is in the status, and the outer layer writes it down.
-/

import RcScript.Proofs.CommandLine.Outcome

namespace RcScript

variable {files : Files} {path : String} {c : Checker}

namespace CommandLine

/-- A path that leads to no text: to nothing, to a directory, below a file, or to a file that
is not UTF-8. -/
def Unreadable (files : Files) (path : String) : Prop :=
  files path = .error .missing ∨ files path = .error .isDirectory ∨
    files path = .error .notDirectory ∨
    ∃ bytes, files path = .ok bytes ∧ Files.decodeText bytes = none

/-- What can be read cannot be unreadable, unless it is missing. -/
theorem Readable.missing (h : Readable files path) (hu : Unreadable files path) :
    files path = .error .missing := by
  rcases h with h | ⟨bytes, source, hbytes, hsource⟩
  · exact h
  · rcases hu with hu | hu | hu | ⟨bytes', hu, hnone⟩
    · exact hu
    · cases hu.symm.trans hbytes
    · cases hu.symm.trans hbytes
    · cases hu.symm.trans hbytes
      cases hnone.symm.trans hsource

/-- **A path behind which there is neither a text nor nothing is a crash**, whatever has been
checked before it. -/
theorem exists_crash (h : ¬Readable files path) :
    ∃ crash, ∀ c : Checker, c.checkFile files path = ⟨.error crash, [.reading path], c⟩ := by
  cases hf : files path with
  | error error =>
    cases error with
    | missing => exact absurd (.inl hf) h
    | isDirectory => exact ⟨.isDirectory path, fun c => by rw [Checker.checkFile, hf]⟩
    | notDirectory => exact ⟨.notDirectory path, fun c => by rw [Checker.checkFile, hf]⟩
    | nameTooLong => exact ⟨.nameTooLong path, fun c => by rw [Checker.checkFile, hf]⟩
    | nullCharacter => exact ⟨.nullCharacter, fun c => by rw [Checker.checkFile, hf]⟩
  | ok bytes =>
    cases hd : Files.decodeText bytes with
    | none => exact ⟨.notText path, fun c => by rw [Checker.checkFile, hf]; simp only [hd]⟩
    | some source => exact absurd (.inr ⟨bytes, source, hf, hd⟩) h

/-- A path that leads to nothing is refused. -/
theorem result_checkFile_missing (h : files path = .error .missing) :
    (c.checkFile files path).result = .ok false := by
  rw [Checker.checkFile, h]

variable {argv scripts before after : List String} {options : Options}

/-- Of the paths that cannot be read one comes first. -/
theorem exists_first_unreadable {paths : List String}
    (h : ¬∀ path ∈ paths, Readable files path) :
    ∃ before path after, paths = before ++ path :: after ∧
      (∀ earlier ∈ before, Readable files earlier) ∧ ¬Readable files path := by
  induction paths with
  | nil => exact absurd nofun h
  | cons path paths ih =>
    by_cases hp : Readable files path
    · obtain ⟨before, first, after, rfl, hbefore, hfirst⟩ := ih fun hpaths =>
        h (List.forall_mem_cons.2 ⟨hp, hpaths⟩)
      exact ⟨path :: before, first, after, rfl, List.forall_mem_cons.2 ⟨hp, hbefore⟩, hfirst⟩
    · exact ⟨[], path, paths, rfl, nofun, hp⟩

/-- Checks that all come to a result are followed by the others. -/
theorem checkAll_append {checks others : List (Checker → Report (Except Crash Bool))}
    {approved : Bool} (h : (checkAll checks c).result = .ok approved) :
    let first := checkAll checks c
    let rest := checkAll others first.checker
    checkAll (checks ++ others) c =
      ⟨rest.result.map (approved && ·), first.events ++ rest.events, rest.checker⟩ := by
  induction checks generalizing c approved with
  | nil =>
    obtain rfl : true = approved := Except.ok.inj h
    have hsame : ∀ result : Except Crash Bool, result.map (true && ·) = result := fun result => by
      cases result <;> rfl
    simp only [List.nil_append, checkAll, hsame]
  | cons check checks ih =>
    simp only [checkAll] at h ⊢
    cases hfirst : (check c).result with
    | error crash =>
      simp only [hfirst] at h
      cases h
    | ok one =>
      simp only [hfirst] at h
      cases hothers : (checkAll checks (check c).checker).result with
      | error crash =>
        rw [hothers] at h
        cases h
      | ok all =>
        rw [hothers] at h
        obtain rfl : (one && all) = approved := Except.ok.inj h
        have htail := ih hothers
        simp only [List.cons_append, checkAll, hfirst, htail]
        cases (checkAll others (checkAll checks (check c).checker).checker).result <;>
          simp [Except.map, Bool.and_assoc]

/-- The checks that a command line asks for, seen from one of its paths. -/
theorem exists_checks_eq (files : Files) (hpaths : options.paths = before ++ path :: after) :
    ∃ others, checks files options =
      (before.map fun path (c : Checker) => c.checkFile files path) ++
        (fun c : Checker => c.checkFile files path) :: others :=
  ⟨_, by rw [checks, hpaths, List.map_append, List.map_cons, List.append_assoc, List.cons_append]⟩

/-- **A path that cannot be read and is not missing ends the run.**  What has been told by then
is what there is to say of the paths before it, and that it is about to be read. -/
theorem run_of_crash (hparse : Options.parse argv = .ok options)
    (hpaths : options.paths = before ++ path :: after)
    (hbefore : ∀ earlier ∈ before, Readable files earlier) (hpath : ¬Readable files path) :
    let display : Display := ⟨options.verbose, options.dump⟩
    let events := transcript [] (before.map (Input.ofPath files)) ++ [Event.reading path]
    ∃ crash, (∀ c : Checker, (c.checkFile files path).result = .error crash) ∧
      run files argv = ⟨.error crash, unlines (display.outLines events),
        unlines (display.errLines events)⟩ := by
  obtain ⟨crash, hcrash⟩ := exists_crash hpath
  refine ⟨crash, fun c => by rw [hcrash], ?_⟩
  obtain ⟨⟨approved, hresult, -⟩, hevents, -⟩ :=
    checks_checkAll (Input.checks_paths hbefore) Checker.remembers_fresh
  obtain ⟨others, hchecks⟩ := exists_checks_eq files hpaths
  simp only [run, hparse, check, hchecks, checkAll_append hresult, checkAll, hcrash, hevents,
    Except.map]

/-- A run that goes on where something cannot be read: such a path is refused, the status says
that not all was approved, every other script is checked and shown, and the warnings of all of
them are repeated at the end. -/
structure CarriesOn (files : Files) (options : Options) (scripts : List String)
    (outcome : Outcome) : Prop where
  refused : ∀ path ∈ options.paths, Unreadable files path →
    ∀ c : Checker, (c.checkFile files path).result = .ok false
  status : outcome.status = .ok 1
  out : outcome.out = unlines ((Display.mk options.verbose options.dump).outLines
    (transcript [] (Input.all files options.paths scripts)))
  err : outcome.err = unlines ((Display.mk options.verbose options.dump).errLines
    (transcript [] (Input.all files options.paths scripts) ++
      (Met.warnings ((Input.all files options.paths scripts).flatMap Input.met)).map .reminder))

/-- **A run goes on just when whatever cannot be read is missing.**  Let some path of a command
line be missing, a directory, below a file, or no UTF-8, whatever the others are.  If every path
leads to a text or to nothing, the run goes on.  The first one that does not ends it: checking
that path comes to no result, nothing after it is checked, and no warning is repeated. -/
theorem run_carriesOn_iff (hparse : Options.parse argv = .ok options)
    (hscripts : options.scripts = scripts.map some)
    (hsome : ∃ path ∈ options.paths, Unreadable files path) :
    (CarriesOn files options scripts (run files argv) ↔
        ∀ path ∈ options.paths, Readable files path) ∧
      ∀ before path after, options.paths = before ++ path :: after →
        (∀ earlier ∈ before, Readable files earlier) → ¬Readable files path →
        let display : Display := ⟨options.verbose, options.dump⟩
        let events := transcript [] (before.map (Input.ofPath files)) ++ [Event.reading path]
        ∃ crash, (∀ c : Checker, (c.checkFile files path).result = .error crash) ∧
          run files argv = ⟨.error crash, unlines (display.outLines events),
            unlines (display.errLines events)⟩ := by
  refine ⟨⟨fun h => ?_, fun hpaths => ?_⟩, fun before path after hpaths hbefore hpath =>
    run_of_crash hparse hpaths hbefore hpath⟩
  · by_contra hnot
    obtain ⟨before, path, after, hpaths, hbefore, hpath⟩ := exists_first_unreadable hnot
    obtain ⟨crash, -, hrun⟩ := run_of_crash hparse hpaths hbefore hpath
    have hstatus := h.status
    rw [hrun] at hstatus
    cases hstatus
  · obtain ⟨approved, hall, hrun⟩ := run_eq hparse hpaths hscripts
    obtain ⟨path, hp, hu⟩ := hsome
    have hmissing := (hpaths path hp).missing hu
    have hnot : approved = false := by
      refine Bool.eq_false_of_not_eq_true fun happroved => ?_
      have hmem : Input.missing path ∈ Input.all files options.paths scripts :=
        List.mem_append_left _ (List.mem_map.2 ⟨path, hp, by rw [Input.ofPath, hmissing]⟩)
      obtain ⟨source, name, stmts, hs, -⟩ := hall.1 happroved _ hmem
      cases hs
    rw [hrun, hnot]
    refine ⟨fun path hp hu c => result_checkFile_missing ((hpaths path hp).missing hu),
      rfl, ?_, rfl⟩
    simp only [outLines_append, outLines_reminders, List.append_nil]

/-- A script that defines a command twice, and a directory. -/
def directoryFiles : Files := fun path =>
  if path = "good" then .ok "cmd a cd ~;\ncmd a cd;".toUTF8
  else if path = "conf" then .error .isDirectory
  else .error .missing

/-- A path that is missing is refused, and the script after it is dumped.  A directory ends the
run: of the scripts on both sides of it only the first one is dumped, and the warning that it
calls for is lost. -/
theorem run_carriesOn_iff_directory :
    CarriesOn directoryFiles ⟨false, true, ["none", "good"], [some "cd /;"]⟩ ["cd /;"]
        (run directoryFiles ["--dump", "none", "good", "-c", "cd /;"]) ∧
      (∀ c : Checker, (c.checkFile directoryFiles "none").result = .ok false) ∧
      ∃ crash, (∀ c : Checker, (c.checkFile directoryFiles "conf").result = .error crash) ∧
        run directoryFiles ["--dump", "good", "conf", "-c", "cd /;"] =
          ⟨.error crash, unlines ["cmd a cd ~;", "cmd a cd;"], ""⟩ := by
  have hgood : Readable directoryFiles "good" := .inr ⟨_, "cmd a cd ~;\ncmd a cd;", rfl, by cbv⟩
  have hnone : Unreadable directoryFiles "none" := .inl rfl
  have hconf : Unreadable directoryFiles "conf" := .inr (.inl rfl)
  have hnot : ¬Readable directoryFiles "conf" := by
    rintro (h | ⟨bytes, source, h, -⟩) <;> cases h
  have hscripts : [some "cd /;"] = ["cd /;"].map some := rfl
  have hmissing : Options.parse ["--dump", "none", "good", "-c", "cd /;"] =
      .ok ⟨false, true, ["none", "good"], [some "cd /;"]⟩ := by cbv
  have hstray : Options.parse ["--dump", "good", "conf", "-c", "cd /;"] =
      .ok ⟨false, true, ["good", "conf"], [some "cd /;"]⟩ := by cbv
  have hcarries := (run_carriesOn_iff hmissing hscripts ⟨"none", List.mem_cons_self, hnone⟩).1.2
    (List.forall_mem_cons.2 ⟨.inl rfl, List.forall_mem_singleton.2 hgood⟩)
  obtain ⟨crash, hcrash, hrun⟩ := (run_carriesOn_iff hstray hscripts
    ⟨"conf", List.mem_cons_of_mem _ List.mem_cons_self, hconf⟩).2 ["good"] "conf" [] rfl
      (List.forall_mem_singleton.2 hgood) hnot
  refine ⟨hcarries, hcarries.refused "none" List.mem_cons_self hnone, crash, hcrash, hrun.trans ?_⟩
  have hout : unlines ((Display.mk false true).outLines
      (transcript [] [Input.ofPath directoryFiles "good"] ++ [.reading "conf"])) =
        unlines ["cmd a cd ~;", "cmd a cd;"] := by cbv
  have herr : unlines ((Display.mk false true).errLines
      (transcript [] [Input.ofPath directoryFiles "good"] ++ [.reading "conf"])) = "" := by cbv
  exact congrArg₂ (Outcome.mk (.error crash)) hout herr

/-- A directory before an inline script: the script is not checked, and there is no status. -/
theorem run_directory_crashes :
    Options.parse ["--dump", "conf", "-c", "cd ~;"] = .ok ⟨false, true, ["conf"], [some "cd ~;"]⟩ ∧
      Unreadable directoryFiles "conf" ∧
      run directoryFiles ["--dump", "conf", "-c", "cd ~;"] = ⟨.error (.isDirectory "conf"), "", ""⟩ ∧
      ¬CarriesOn directoryFiles ⟨false, true, ["conf"], [some "cd ~;"]⟩ ["cd ~;"]
        (run directoryFiles ["--dump", "conf", "-c", "cd ~;"]) := by
  have hrun : run directoryFiles ["--dump", "conf", "-c", "cd ~;"] =
      ⟨.error (.isDirectory "conf"), "", ""⟩ := by cbv
  refine ⟨by cbv, .inr (.inl rfl), hrun, fun h => ?_⟩
  have hstatus := h.status
  rw [hrun] at hstatus
  cases hstatus

end CommandLine
end RcScript
