/-
# Lexemes

Three runs of characters are taken from a script as they stand: a word, the text
of a command up to the end of its line, and the text of a block up to its closing
braces.  Each is a function of the characters that are left, and each is a front
part of them: `word_append_drop`, `commandText_append_drop` and
`blockText_append_drop` say that the run and what follows it are the whole.

All three go by the first characters of what is left and recurse on the rest, and a pair of
characters, two closing braces or a backslash and what it escapes, is one step.  The proofs
below follow these steps by functional induction, and so do those of
`RcScript.Proofs.Scanner.Lexeme`, where it is said what the lexemes are.  Trimming comes
after the cut: the carriage returns at the end of a command text are dropped from it, but
they have been passed.
-/

import RcScript.Text.Characters

namespace RcScript
namespace Lexeme

/-- A word ends before a space, a semicolon or closing braces. -/
def word : List Char → List Char
  | [] => []
  | '}' :: '}' :: _ => []
  | c :: rest => if Text.isSpace c || c = ';' then [] else c :: word rest

/-- A command text ends before a line break; a backslash takes the character
after it along, a line break too.  There is none if the script ends after a
backslash that escapes nothing. -/
def commandText : List Char → Option (List Char)
  | [] => some []
  | '\n' :: _ => some []
  | ['\\'] => none
  | '\\' :: c :: rest => (commandText rest).map (fun text => '\\' :: c :: text)
  | c :: rest => (commandText rest).map (c :: ·)

/-- A block ends before the first closing braces, and there is none without
them. -/
def blockText : List Char → Option (List Char)
  | [] => none
  | '}' :: '}' :: _ => some []
  | c :: rest => (blockText rest).map (c :: ·)

/-- A text without the carriage returns at its end. -/
def trimReturns (text : List Char) : List Char := Text.trimEnd (· = '\r') text

/-- **A word is a front part of what is left**, and what follows it is the rest. -/
theorem word_append_drop (cs : List Char) : word cs ++ cs.drop (word cs).length = cs := by
  fun_induction word cs with
  | case1 => rfl
  | case2 => rfl
  | case3 => rfl
  | case4 c rest _ _ ih => simpa using ih

/-- **So is a command text**, where there is one. -/
theorem commandText_append_drop {cs text : List Char} (h : commandText cs = some text) :
    text ++ cs.drop text.length = cs := by
  fun_induction commandText cs generalizing text with
  | case1 => cases h; rfl
  | case2 => cases h; rfl
  | case3 => cases h
  | case4 c rest ih =>
    obtain ⟨t, ht, rfl⟩ := Option.map_eq_some_iff.1 h
    simpa using ih ht
  | case5 c rest _ _ _ ih =>
    obtain ⟨t, ht, rfl⟩ := Option.map_eq_some_iff.1 h
    simpa using ih ht

/-- **And so is the text of a block**, where it is closed. -/
theorem blockText_append_drop {cs text : List Char} (h : blockText cs = some text) :
    text ++ cs.drop text.length = cs := by
  fun_induction blockText cs generalizing text with
  | case1 => cases h
  | case2 => cases h; rfl
  | case3 c rest _ ih =>
    obtain ⟨t, ht, rfl⟩ := Option.map_eq_some_iff.1 h
    simpa using ih ht

end Lexeme
end RcScript
