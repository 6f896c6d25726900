/-
# The command line

`CommandLine.run` is the whole program, apart from the files it reads and the
channels it writes: it checks every path in order and then every inline script,
also after one has failed, and repeats the warnings at the end.  Its status is
zero exactly if every script was there and had no fault, and two if the command
line itself is wrong.

The checks are a list of functions from checkers to reports, and `checkAll` runs them on
one checker after the other, until one crashes.  So the order of what is told is the order
of the checks, and what one script has defined is known to all scripts after it.  The
display comes in at the very end: the events of the run are turned into the text of the
two channels, and into nothing else.  `RcScript.Proofs.CommandLine.Outcome` says in full
what a run leaves behind.
-/

import RcScript.Checker.File
import RcScript.CommandLine.Options
import RcScript.Version

namespace RcScript
namespace CommandLine

/-- What a run leaves behind: its status, or what it crashed on, and the text on
the two channels. -/
structure Outcome where
  status : Except Crash Nat
  out : String
  err : String
deriving Inhabited

/-- Runs checks one after the other, as long as none crashes.  The result tells
whether all approved. -/
def checkAll : List (Checker → Report (Except Crash Bool)) → Checker → Report (Except Crash Bool)
  | [], c => ⟨.ok true, [], c⟩
  | check :: checks, c =>
    let first := check c
    match first.result with
    | .error crash => ⟨.error crash, first.events, first.checker⟩
    | .ok approved =>
      let others := checkAll checks first.checker
      ⟨others.result.map (approved && ·), first.events ++ others.events, others.checker⟩

/-- The name that an inline script goes by. -/
def inlineName (index : Nat) : String := "<command " ++ toString (index + 1) ++ ">"

/-- The checks that a command line asks for. -/
def checks (files : Files) (options : Options) : List (Checker → Report (Except Crash Bool)) :=
  options.paths.map (fun path c => c.checkFile files path) ++
    options.scripts.mapIdx (fun index source c => c.approve? source (inlineName index))

/-- Checks everything that is asked for, and repeats the warnings at the end. -/
def check (files : Files) (options : Options) : Report (Except Crash Bool) :=
  let report := checkAll (checks files options) Checker.fresh
  match report.result with
  | .error crash => ⟨.error crash, report.events, report.checker⟩
  | .ok approved =>
    ⟨.ok approved, report.events ++ report.checker.warnings.map .reminder, report.checker⟩

/-- The status that says whether all scripts were approved. -/
def status (approved : Bool) : Nat := if approved then 0 else 1

/-- Runs the program on a command line. -/
def run (files : Files) (argv : List String) : Outcome :=
  match Options.parse argv with
  | .error .help => ⟨.ok 0, unlines help, ""⟩
  | .error (.usage error) =>
    ⟨.ok 2, "", unlines [usage, program ++ ": error: " ++ error.message]⟩
  | .ok options =>
    let report := check files options
    let display : Display := ⟨options.verbose, options.dump⟩
    ⟨report.result.map status, unlines (display.outLines report.events),
      unlines (display.errLines report.events)⟩

end CommandLine
end RcScript
