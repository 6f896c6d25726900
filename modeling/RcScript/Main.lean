/-
# The program

The outer layer of the command line: it reads the files that the command line
names, lets `CommandLine.run` do the work, and writes what that leaves behind.

Nothing is decided here.  The files are read before the run, since `CommandLine.run` asks
for them by a function; a trouble that it does not know of is thrown, as it would be by
reading the file in the middle of the run.  A crash is written to the second channel and
ends the program with status one.
-/

import RcScript.CommandLine.Run

namespace RcScript
namespace CommandLine

/-- The code by which the system says that a path leads to a directory. -/
def directoryCode : UInt32 := 21

/-- Reads a file, and tells the troubles apart that a check knows of. -/
def load (path : String) : IO (Except FileError ByteArray) := do
  match Files.pathError? path with
  | some error => return .error error
  | none =>
    try
      return .ok (← IO.FS.readBinFile path)
    catch
      | .noFileOrDirectory _ _ _ => return .error .missing
      | .inappropriateType _ code _ =>
        return .error (if code = directoryCode then .isDirectory else .notDirectory)
      | .invalidArgument _ _ _ => return .error .nameTooLong
      | error => throw error

/-- Reads the files that a command line names. -/
def loadAll (argv : List String) : IO Files := do
  let paths := match Options.parse argv with
    | .ok options => options.paths
    | .error _ => []
  let loaded ← paths.mapM fun path => do return (path, ← load path)
  return fun path => (loaded.lookup path).getD (.error .missing)

end CommandLine
end RcScript

/-- Checks what the command line asks for; the status of a crash is one. -/
def main (argv : List String) : IO UInt32 := do
  let outcome := RcScript.CommandLine.run (← RcScript.CommandLine.loadAll argv) argv
  IO.print outcome.out
  IO.eprint outcome.err
  match outcome.status with
  | .ok status => return status.toUInt32
  | .error crash =>
    IO.eprintln (crash.message?.getD "not UTF-8")
    return 1
