/-
# What a check has to say

Checking produces a sequence of events.  What is shown of them, and on which of
the two channels, is the business of a `Display`: only `Event.out` and
`Event.err` know the options `verbose` and `dump`, so what is checked cannot
depend on what is shown.

An event is data, and the wording of a line is decided by `Event.err` and `Event.out`
alone.  A warning is shown twice at most: where it is raised, to those who follow the work,
and at the end, to all others.  A statement is dumped in its canonical form without the
line breaks at its end, since a line of its own ends with one anyway.  What these choices
come to over a whole run is written out, line by line and without events, in
`RcScript.Proofs.CommandLine.Lines`.
-/

import RcScript.Stmt.Draft
import RcScript.Fault

namespace RcScript

/-- A remark about a script that is no fault. -/
inductive Warning
  /-- a script defines a command that another definition has claimed -/
  | commandRedefined (filename name earlier : String)
  /-- a script binds keys that are bound already -/
  | keysRebound (filename keys earlier : String)
  /-- anything else, with a code of its own -/
  | remark (code message : String)
deriving DecidableEq, Repr, Inhabited

namespace Warning

/-- The code that a warning begins with. -/
def code : Warning → String
  | commandRedefined _ _ _ => "LFRC001"
  | keysRebound _ _ _ => "LFRC002"
  | remark code _ => code

/-- The wording of a warning, without its code. -/
def message : Warning → String
  | commandRedefined filename name earlier =>
    filename ++ ": command '" ++ name ++ "' redefines the one from " ++ earlier
  | keysRebound filename keys earlier =>
    filename ++ ": key '" ++ keys ++ "' is already mapped in " ++ earlier
  | remark _ message => message

/-- A warning as it is shown. -/
def text (w : Warning) : String := w.code ++ ": " ++ w.message

end Warning

/-- How many statements of each kind there are in scripts, nested ones included. -/
def summary (stmts : List Stmt) : String :=
  let kinds := (Tree.walkAll stmts).filterMap Tree.kind?
  let counted := StmtKind.all.filterMap fun kind =>
    let count := kinds.count kind
    if count = 0 then none else some (toString count ++ " " ++ kind.word)
  ", ".intercalate counted

/-- Something that a check has to say. -/
inductive Event
  /-- a file is about to be read -/
  | reading (path : String)
  /-- a statement, nested or not, is complete -/
  | completed (stmt : Stmt)
  /-- a warning is raised -/
  | warned (warning : Warning)
  /-- a statement of a script has been checked -/
  | delivered (stmt : Stmt)
  /-- a script has been read to its end -/
  | finished (filename : String) (stmts : List Stmt)
  /-- a remark on the work -/
  | note (text : String)
  /-- there is no such file -/
  | missing (path : String)
  /-- a script has a fault -/
  | refused (fault : Fault)
  /-- a warning raised earlier, repeated at the end -/
  | reminder (warning : Warning)
deriving Inhabited

/-- What is shown. -/
structure Display where
  /-- show the work as it goes on -/
  verbose : Bool
  /-- show the canonical text of each statement -/
  dump : Bool
deriving DecidableEq, Repr, Inhabited

/-- A text without the line breaks at its end. -/
def trimLineBreaks (text : String) : String :=
  String.ofList (Text.trimEnd (· = Text.lineBreak) text.toList)

/-- The canonical text of a statement as it is dumped, on a line of its own. -/
def dumpLine (stmt : Stmt) : String := trimLineBreaks (Stmt.text stmt)

namespace Event

/-- The event of a draft's completion.  A hole on its own shows as it is; there is
no event if a hole stands anywhere else. -/
def ofDraft : Draft → Except Hole Event
  | .hole hole => .ok (.note ("parsed: " ++ hole.raw))
  | draft => draft.close.map .completed

/-- The line that an event leaves on the first channel. -/
def out (display : Display) : Event → Option String
  | delivered stmt => if display.dump then some (dumpLine stmt) else none
  | _ => none

/-- A line about the work, shown only to those who want to follow it. -/
def progress (display : Display) (text : String) : Option String :=
  if display.verbose then some ("[lfrc] " ++ text) else none

/-- The line that an event leaves on the second channel. -/
def err (display : Display) : Event → Option String
  | reading path => progress display ("Reading " ++ path ++ "...")
  | completed stmt => progress display ("parsed: " ++ Stmt.text stmt)
  | warned warning => progress display ("Warning: " ++ warning.text)
  | delivered _ => none
  | finished filename stmts =>
    progress display (filename ++ ": " ++ toString stmts.length ++ " statements ("
      ++ summary stmts ++ ")")
  | note text => progress display text
  | missing path => some ("Error: File not found: " ++ path)
  | refused fault => some ("Syntax error: " ++ fault.text)
  | reminder warning => if display.verbose then none else some ("Warning: " ++ warning.text)

end Event

/-- Lines as text. -/
def unlines (lines : List String) : String := String.join (lines.map (· ++ "\n"))

namespace Display

/-- The lines that events leave on the first channel. -/
def outLines (display : Display) (events : List Event) : List String :=
  events.filterMap (Event.out display)

/-- The lines that events leave on the second channel. -/
def errLines (display : Display) (events : List Event) : List String :=
  events.filterMap (Event.err display)

end Display
end RcScript
