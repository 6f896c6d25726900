/-
# Command-line options

A command line is a list of words.  Each is sorted first, by `Word.sort`: an
option, a path, or the two dashes after which every word is a path.  Then
`Arguments.take` goes through them from left to right.  Paths must stand
together: those after the first group are left over, and so are unknown options.
A request for help wins over everything to its right, and a complaint over
everything to *its* right; what is left over is only complained about at the end.

Every function here is a fold or a recursion over the words, with the state of the walk in
one record (`Arguments`), so that the order in which complaints win is the order of the
walk and nothing else.  Spellings may be abbreviated as long as they stay unambiguous,
short spellings may be run together, and a value may follow in the same word or in the
next one.  The rules are those of a well-known library for command lines in one of its
versions; the few places where a word is taken for something unexpected, a value of two
dashes above all, are kept as they are.
-/

import RcScript.Text.Characters

namespace RcScript

/-- What can be asked for on the command line. -/
inductive Switch
  | help
  | command
  | dump
  | verbose
deriving DecidableEq, Repr, Inhabited

namespace Switch

/-- All switches, in the order in which they are documented. -/
def all : List Switch := [help, command, dump, verbose]

/-- The long spelling. -/
def long : Switch → String
  | help => "--help"
  | command => "--command"
  | dump => "--dump"
  | verbose => "--verbose"

/-- The short spelling, if there is one. -/
def short? : Switch → Option String
  | help => some "-h"
  | command => some "-c"
  | dump | verbose => none

/-- A switch as complaints call it, by all its spellings. -/
def name (s : Switch) : String :=
  match s.short? with
  | some short => short ++ "/" ++ s.long
  | none => s.long

end Switch

/-- What is wrong with a command line. -/
inductive UsageError
  /-- an abbreviation fits several switches -/
  | ambiguous (word : String) (candidates : List Switch)
  /-- the switch that needs a value has none -/
  | missingValue (switch : Switch)
  /-- a switch that takes no value has one -/
  | ignoredValue (switch : Switch) (value : String)
  /-- words that mean nothing -/
  | unrecognized (words : List String)
  /-- neither a path nor an inline script -/
  | noScripts
deriving DecidableEq, Repr, Inhabited

namespace UsageError

/-- The wording of a complaint. -/
def message : UsageError → String
  | ambiguous word candidates =>
    "ambiguous option: " ++ word ++ " could match " ++ ", ".intercalate (candidates.map Switch.long)
  | missingValue switch => "argument " ++ switch.name ++ ": expected one argument"
  | ignoredValue switch value =>
    "argument " ++ switch.name ++ ": ignored explicit argument " ++ Text.quoted value
  | unrecognized words => "unrecognized arguments: " ++ " ".intercalate words
  | noScripts => "no scripts given"

end UsageError

/-- A word of a command line, sorted. -/
inductive Word
  /-- a path, or the value of a switch before it -/
  | plain
  /-- two dashes: only paths follow -/
  | separator
  /-- a switch on its own -/
  | switch (switch : Switch)
  /-- a switch with a value in the same word -/
  | valued (switch : Switch) (value : String)
  /-- the short spelling of help with letters behind it, which may be short
  spellings too -/
  | cluster (letters : List Char)
  /-- an option that there is not -/
  | unknown
deriving DecidableEq, Repr, Inhabited

namespace Word

/-- A number below zero: a dash, digits and at most one point, which has a digit
behind it.  A line break at the end does not count. -/
def isNegativeNumber (word : List Char) : Bool :=
  match word with
  | '-' :: number =>
    let number := if number.getLast? = some '\n' then number.dropLast else number
    match number.dropWhile Text.isDigit with
    | [] => !number.isEmpty
    | '.' :: fraction => !fraction.isEmpty && fraction.all Text.isDigit
    | _ => false
  | _ => false

/-- A word that begins with a dash and is no known option: a number, or anything
with a space in it, is a plain word all the same. -/
def sortOther (word : List Char) : Word :=
  if isNegativeNumber word || word.contains ' ' then plain else unknown

/-- Sorts a word that begins with two dashes.  Long spellings may be abbreviated,
and a value may follow an equals sign. -/
def sortLong (word : String) : Except UsageError Word :=
  let chars := word.toList
  let stem := chars.takeWhile (· ≠ '=')
  let value := chars.drop (stem.length + 1)
  match Switch.all.filter (fun s => stem.isPrefixOf s.long.toList) with
  | [] => .ok (sortOther chars)
  | [s] => .ok (if stem.length = chars.length then switch s else valued s (String.ofList value))
  | candidates => .error (.ambiguous word candidates)

/-- Sorts a word, if no separator has come before it. -/
def sort (word : String) : Except UsageError Word :=
  match word.toList with
  | ['-', '-'] => .ok separator
  | '-' :: '-' :: _ => sortLong word
  | ['-'] => .ok plain
  | ['-', 'h'] => .ok (switch .help)
  | ['-', 'c'] => .ok (switch .command)
  | '-' :: 'h' :: '=' :: letters => .ok (cluster letters)
  | '-' :: 'h' :: letters => .ok (cluster letters)
  | '-' :: 'c' :: '=' :: value => .ok (valued .command (String.ofList value))
  | '-' :: 'c' :: value => .ok (valued .command (String.ofList value))
  | '-' :: other => .ok (sortOther ('-' :: other))
  | _ => .ok plain

/-- Sorts the words of a command line.  The first word that cannot be sorted is
complained about; words after a separator are plain. -/
def sortAll : List String → Except UsageError (List (Word × String))
  | [] => .ok []
  | text :: texts =>
    match sort text with
    | .error error => .error error
    | .ok separator => .ok ((separator, text) :: texts.map (fun t => (plain, t)))
    | .ok word => (sortAll texts).map ((word, text) :: ·)

end Word

/-- What a command line asks for. -/
structure Options where
  verbose : Bool
  dump : Bool
  /-- the files to check -/
  paths : List String
  /-- the inline scripts to check; two dashes in place of one are no script -/
  scripts : List (Option String)
deriving DecidableEq, Repr, Inhabited

/-- Why there is nothing to do. -/
inductive Refusal
  /-- help was asked for -/
  | help
  /-- the command line is wrong -/
  | usage (error : UsageError)
deriving DecidableEq, Repr, Inhabited

/-- How far the one group of paths has got. -/
inductive PathGroup
  | unopened
  | opened
  | closed
deriving DecidableEq, Repr, Inhabited

/-- What the words so far have asked for, and what they have left over. -/
structure Arguments where
  options : Options
  group : PathGroup
  leftOver : List String
deriving DecidableEq, Repr, Inhabited

namespace Arguments

/-- Before the first word. -/
def start : Arguments := ⟨⟨false, false, [], []⟩, .unopened, []⟩

/-- An option closes the group of paths. -/
def closeGroup (a : Arguments) : Arguments :=
  if a.group = .opened then { a with group := .closed } else a

/-- Takes a word of the group of paths; the separator opens the group and is no
path itself. -/
def takePlain (a : Arguments) (isSeparator : Bool) (text : String) : Arguments :=
  if a.group = .closed then { a with leftOver := a.leftOver ++ [text] }
  else
    { a with
      group := .opened
      options :=
        if isSeparator then a.options
        else { a.options with paths := a.options.paths ++ [text] } }

/-- The inline script that a value is.  Two dashes are never a value: they leave
their place empty. -/
def scriptOf (value : String) : Option String := if value = "--" then none else some value

/-- Takes an inline script. -/
def takeScript (a : Arguments) (value : String) : Arguments :=
  { a.closeGroup with
    options := { a.options with scripts := a.options.scripts ++ [scriptOf value] } }

/-- What the letters behind the short spelling of help amount to, once it stands
for itself: help if each letter is a short spelling again.  The last of them may
need a value, in the rest of the word or in the next; at any other letter, what is
left of the word is a value that help does not take. -/
def helpCluster (valueFollows : Bool) : List Char → Refusal
  | ['h'] => .help
  | 'h' :: rest => helpCluster valueFollows rest
  | ['c'] => if valueFollows then .help else .usage (.missingValue .command)
  | 'c' :: _ => .help
  | rest => .usage (.ignoredValue .help (String.ofList rest))

/-- Whether the next word can be the value of a switch. -/
def valueFollows : List (Word × String) → Bool
  | (.plain, _) :: _ => true
  | _ => false

/-- Takes the words from left to right. -/
def take : List (Word × String) → Arguments → Except Refusal Arguments
  | [], a => .ok a
  | (.plain, text) :: words, a => take words (a.takePlain false text)
  | (.separator, text) :: words, a => take words (a.takePlain true text)
  | (.unknown, text) :: words, a =>
    take words { a.closeGroup with leftOver := a.leftOver ++ [text] }
  | (.switch .help, _) :: _, _ => .error .help
  | (.switch .dump, _) :: words, a =>
    take words { a.closeGroup with options := { a.options with dump := true } }
  | (.switch .verbose, _) :: words, a =>
    take words { a.closeGroup with options := { a.options with verbose := true } }
  | (.switch .command, _) :: (.plain, value) :: words, a => take words (a.takeScript value)
  | (.switch .command, _) :: _, _ => .error (.usage (.missingValue .command))
  | (.valued .command value, _) :: words, a => take words (a.takeScript value)
  | (.valued s value, _) :: _, _ => .error (.usage (.ignoredValue s value))
  | (.cluster letters, _) :: words, _ => .error (helpCluster (valueFollows words) letters)

end Arguments

namespace Options

/-- The options that a command line asks for. -/
def parse (argv : List String) : Except Refusal Options :=
  match Word.sortAll argv with
  | .error error => .error (.usage error)
  | .ok words =>
    match Arguments.take words Arguments.start with
    | .error refusal => .error refusal
    | .ok arguments =>
      if arguments.leftOver ≠ [] then .error (.usage (.unrecognized arguments.leftOver))
      else if arguments.options.paths = [] ∧ arguments.options.scripts = [] then
        .error (.usage .noScripts)
      else .ok arguments.options

end Options
end RcScript
