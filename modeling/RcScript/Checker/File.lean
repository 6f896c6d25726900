/-
# Checking files

A file that is not there, or that holds a script with a fault, fails the check
and is reported.  Any other trouble with a path is a `Crash`: it ends the whole
run.

The difference matters: a script that is refused is one result among others, and the next
one is checked after it, while a crash is the last thing that happens.  Which paths lead
where is up to the `Files` that are given; a path that has no text behind it is told from
one whose text has a fault by the events alone, since both fail the check.  The wording of
a crash quotes the path, where there is one.
-/

import RcScript.Checker.Basic
import RcScript.Files.Basic
import RcScript.Text.Characters

namespace RcScript

/-- What ends a run before its end. -/
inductive Crash
  /-- a path leads to a directory -/
  | isDirectory (path : String)
  /-- a path goes on below a file -/
  | notDirectory (path : String)
  /-- a path, or a name in it, is too long -/
  | nameTooLong (path : String)
  /-- a path holds a null character -/
  | nullCharacter
  /-- there is no text to check -/
  | noText
  /-- a file does not hold UTF-8 -/
  | notText (path : String)
  /-- a statement cannot be built -/
  | build (error : BuildError)
deriving DecidableEq, Repr, Inhabited

namespace Crash

/-- The wording of a crash, where there is one that depends on the path alone. -/
def message? : Crash → Option String
  | isDirectory path => some ("[Errno 21] Is a directory: " ++ Text.quoted path)
  | notDirectory path => some ("[Errno 20] Not a directory: " ++ Text.quoted path)
  | nameTooLong path => some ("[Errno 36] File name too long: " ++ Text.quoted path)
  | nullCharacter => some "embedded null byte"
  | noText => some "\x27list\x27 object has no attribute \x27read\x27"
  | notText _ => none
  | build error => some error.message

end Crash

namespace Checker

/-- Checks a text and reports its fault, if it has one.  The result tells whether
it has none. -/
def approve (c : Checker) (source filename : String) : Report (Except Crash Bool) :=
  let report := c.checkText source filename
  match report.result with
  | .ok _ => ⟨.ok true, report.events, report.checker⟩
  | .error (.fault fault) => ⟨.ok false, report.events ++ [.refused fault], report.checker⟩
  | .error (.build error) => ⟨.error (.build error), report.events, report.checker⟩

/-- Checks a text, or finds that there is none. -/
def approve? (c : Checker) (source : Option String) (filename : String) :
    Report (Except Crash Bool) :=
  match source with
  | some source => c.approve source filename
  | none => ⟨.error .noText, [], c⟩

/-- Checks the file behind a path.  The result tells whether it is there and has
no fault. -/
def checkFile (files : Files) (c : Checker) (path : String) : Report (Except Crash Bool) :=
  match files path with
  | .error .missing => ⟨.ok false, [.reading path, .missing path], c⟩
  | .error .isDirectory => ⟨.error (.isDirectory path), [.reading path], c⟩
  | .error .notDirectory => ⟨.error (.notDirectory path), [.reading path], c⟩
  | .error .nameTooLong => ⟨.error (.nameTooLong path), [.reading path], c⟩
  | .error .nullCharacter => ⟨.error .nullCharacter, [.reading path], c⟩
  | .ok bytes =>
    match Files.decodeText bytes with
    | none => ⟨.error (.notText path), [.reading path], c⟩
    | some source =>
      let report := c.approve source path
      { report with events := .reading path :: report.events }

end Checker
end RcScript
