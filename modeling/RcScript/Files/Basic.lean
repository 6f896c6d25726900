/-
# Files

A checker asks for a file by its path and gets its bytes, or learns why it cannot
have them; where files come from is left open.  Bytes are read as UTF-8, and the
line breaks of other systems become line feeds: `decodeText` is that reading.

What is wrong with a path is found in an order of its own: a null character first, then
the empty path, then a path that is too long, and only then is anything looked up
(`pathError?`).  A carriage return is a line break by itself unless a line feed follows,
with which it is one; so a text that has been decoded holds no carriage return, and a
script that is read from a file differs in that from one that is given on the command
line.
-/

import RcScript.Text.Characters

namespace RcScript

/-- Why a file cannot be read. -/
inductive FileError
  /-- nothing is there -/
  | missing
  /-- the path leads to a directory -/
  | isDirectory
  /-- the path goes on below a file -/
  | notDirectory
  /-- the path, or a name in it, is longer than any can be -/
  | nameTooLong
  /-- the path holds a null character, which no path can -/
  | nullCharacter
deriving DecidableEq, Repr, Inhabited

/-- Where files come from: the bytes behind a path. -/
abbrev Files := String → Except FileError ByteArray

namespace Files

/-- The number of bytes of the longest name. -/
def longestName : Nat := 255

/-- The number of bytes of the longest path. -/
def longestPath : Nat := 4095

/-- What is wrong with a path as it stands, whatever files there are. -/
def pathError? (path : String) : Option FileError :=
  if path.toList.contains '\x00' then some .nullCharacter
  else if path = "" then some .missing
  else if longestPath < path.utf8ByteSize then some .nameTooLong
  else none

/-- One line feed for every line break: a carriage return, a line feed, or the
two in this order. -/
def unifyLineBreaks : List Char → List Char
  | [] => []
  | '\r' :: '\n' :: rest => Text.lineBreak :: unifyLineBreaks rest
  | '\r' :: rest => Text.lineBreak :: unifyLineBreaks rest
  | c :: rest => c :: unifyLineBreaks rest

/-- The text that some bytes hold, if they are UTF-8 at all. -/
def decodeText (bytes : ByteArray) : Option String :=
  (String.fromUTF8? bytes).map (fun text => String.ofList (unifyLineBreaks text.toList))

end Files
end RcScript
