/-
# What the program says of itself

The texts by which the program presents itself: the version that the language of scripts
has reached, the name of the program, how it is called, and what it tells when it is asked
for help.  They are data, and `CommandLine.run` shows them as they stand: the help on the
first channel with status zero, and the line that says how the program is called on the
second one, before the complaint about a command line that cannot be understood.

Nothing else depends on them, and no statement of the theory is about their wording.
-/

namespace RcScript

/-- The version of the script language. -/
def version : String := "0.1.0"

namespace CommandLine

/-- The name of the program. -/
def program : String := "lfrc-check"

/-- How the program is called. -/
def usage : String :=
  "usage: " ++ program ++ " [-h] [-c COMMAND] [--dump] [--verbose] [input ...]"

/-- What the program tells about itself. -/
def help : List String :=
  [usage,
    "",
    "lfrc checker - Parse lf command scripts and report errors",
    "",
    "positional arguments:",
    "  input                 lfrc script files",
    "",
    "options:",
    "  -h, --help            show this help message and exit",
    "  -c COMMAND, --command COMMAND",
    "                        Check an inline script (can be used multiple times)",
    "  --dump                Print the canonical form of each statement",
    "  --verbose             Verbose output"]

end CommandLine
end RcScript
