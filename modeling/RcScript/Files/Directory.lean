/-
# Directories held in memory

A `Directory` is the simplest source of files: paths with what stands at each, a
file or a directory.  `Directory.files` follows a path through it, name by name,
as a file system does.

Following a path goes one name at a time from the directory that the program runs in, and
a path that begins with a slash leads out of it, to where nothing is known.  Two dots in
the topmost directory lead there as well, and from there every name is missing.  The steps
are made in the order of the names, so the first name that cannot be followed decides what
is wrong.
-/

import RcScript.Files.Basic

namespace RcScript

/-- What stands at a path. -/
inductive Entry
  | file (content : ByteArray)
  | directory
deriving Inhabited

/-- What stands below a directory.  Each entry has the names that lead to it, one
below the other; the directories on the way need no entry of their own. -/
structure Directory where
  entries : List (List String × Entry)
deriving Inhabited

namespace Directory

/-- The names in a path. -/
def names (path : String) : List String := path.splitOn "/"

/-- The directory that holds the given paths. -/
def ofList (entries : List (String × Entry)) : Directory :=
  ⟨entries.map (fun (path, entry) => (names path, entry))⟩

/-- Where a path has led so far. -/
inductive Place
  /-- the directory that these names lead to -/
  | inside (names : List String)
  /-- a directory around it, of which nothing else is known -/
  | outside
  | file (content : ByteArray)

/-- What stands at the end of some names, if anything does. -/
def find? (directory : Directory) (names : List String) : Option Place :=
  match directory.entries.find? (fun entry => entry.1 = names) with
  | some (_, .file content) => some (.file content)
  | some (_, .directory) => some (.inside names)
  | none =>
    if directory.entries.any (fun entry => names.isPrefixOf entry.1) then some (.inside names)
    else none

/-- Follows one name of a path.  An empty name and a dot lead nowhere else, two
dots lead up, and nothing leads on from a file. -/
def follow (directory : Directory) : Place → String → Except FileError Place
  | .file _, _ => .error .notDirectory
  | place, "" => .ok place
  | place, "." => .ok place
  | .inside [], ".." => .ok .outside
  | .inside names, ".." => .ok (.inside names.dropLast)
  | .outside, ".." => .ok .outside
  | .inside names, name =>
    if Files.longestName < name.utf8ByteSize then .error .nameTooLong
    else match directory.find? (names ++ [name]) with
      | some place => .ok place
      | none => .error .missing
  | .outside, name =>
    .error (if Files.longestName < name.utf8ByteSize then .nameTooLong else .missing)

/-- The bytes behind a path. -/
def files (directory : Directory) : Files := fun path =>
  match Files.pathError? path with
  | some error => .error error
  | none => do
    let start : Place := if path.startsWith "/" then .outside else .inside []
    match ← (names path).foldlM directory.follow start with
    | .file content => .ok content
    | _ => .error .isDirectory

end Directory
end RcScript
