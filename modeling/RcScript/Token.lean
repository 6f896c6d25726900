/-
# Tokens and sigils

A script is read as a sequence of tokens.  Besides words, braces and separators there is the
*newline marker*, a separator that stands for a line break where a line break matters; it is
told from a literal semicolon by its text, which is the line feed.

A command that leaves the script starts with one of five characters, its *sigil*, which says
how the text after it is run.  The character determines the sigil (`Sigil.ofChar?_char`) and
the other way round (`Sigil.ofChar?_eq_some`), so a token that begins a command needs no
more than its text.

Tokens are compared, shown in messages (`Token.describe`) and shown with all that is known
of them (`Token.inspect`); the wording is decided here and nowhere else.
-/

import RcScript.Cursor

namespace RcScript

/-- How a command text is run. -/
inductive Sigil
  /-- in the shell -/
  | shell
  /-- in the shell, then wait for a key -/
  | wait
  /-- in the shell, without waiting for its end -/
  | async
  /-- search forward -/
  | search
  /-- search backward -/
  | searchBack
deriving DecidableEq, Repr, Inhabited

namespace Sigil

/-- The character that stands for a sigil. -/
def char : Sigil → Char
  | shell => '$'
  | wait => '!'
  | async => '&'
  | search => '/'
  | searchBack => '?'

/-- All sigils, in the order in which they are documented. -/
def all : List Sigil := [shell, wait, async, search, searchBack]

/-- The sigil of a character. -/
def ofChar? (c : Char) : Option Sigil := all.find? (fun sigil => sigil.char = c)

/-- A sigil is found under its character. -/
theorem ofChar?_char (g : Sigil) : ofChar? g.char = some g := by
  cases g <;> decide

/-- A character stands for the sigil that is found under it, and for no other. -/
theorem ofChar?_eq_some {c : Char} {g : Sigil} (h : ofChar? c = some g) : c = g.char := by
  have found := List.find?_some h
  exact (of_decide_eq_true found).symm

/-- A sigil as text. -/
def text (g : Sigil) : String := g.char.toString

/-- The sigil that a text of exactly one character stands for. -/
def ofText? (s : String) : Option Sigil :=
  match s.toList with
  | [c] => ofChar? c
  | _ => none

/-- A sigil is found under its text. -/
theorem ofText?_text (g : Sigil) : ofText? g.text = some g := by
  rw [ofText?, text, Char.toString, String.toList_singleton]
  exact ofChar?_char g

end Sigil

/-- What a token is. -/
inductive TokenKind
  /-- nothing is left, or nothing that can be read -/
  | endOfInput
  /-- a semicolon, or a newline marker -/
  | semicolon
  /-- an option, a key sequence, a command name or an argument -/
  | word
  /-- the head of a list -/
  | colon
  /-- two opening braces -/
  | openBraces
  /-- two closing braces -/
  | closeBraces
  /-- the character that introduces a command text -/
  | sigil
  /-- a command text, verbatim -/
  | command
deriving DecidableEq, Repr, Inhabited

namespace TokenKind

/-- The name that a kind has in output. -/
def label : TokenKind → String
  | endOfInput => "EOF"
  | semicolon => "SEMICOLON"
  | word => "IDENT"
  | colon => "COLON"
  | openBraces => "LBRACES"
  | closeBraces => "RBRACES"
  | sigil => "PREFIX"
  | command => "COMMAND"

/-- All kinds, in the order in which they are documented. -/
def all : List TokenKind :=
  [endOfInput, semicolon, word, colon, openBraces, closeBraces, sigil, command]

end TokenKind

/-- A token: its kind, its text and where it begins. -/
structure Token where
  kind : TokenKind
  text : String
  position : Position
deriving DecidableEq, Repr, Inhabited

namespace Token

/-- The token that stands at the end of a script. -/
def endAt (p : Position) : Token := ⟨.endOfInput, "", p⟩

/-- The separator that stands for a line break. -/
def newlineAt (p : Position) : Token := ⟨.semicolon, "\n", p⟩

/-- Whether a token is a newline marker. -/
def isNewline (t : Token) : Bool := t.kind = .semicolon && t.text = "\n"

/-- A token as error messages call it. -/
def describe (t : Token) : String :=
  if t.kind = .endOfInput then "end of input"
  else if t.isNewline then "end of line"
  else Text.quoted t.text

/-- A token with all that is known of it, on one line. -/
def inspect (t : Token) : String :=
  "Token(" ++ t.kind.label ++ ", " ++ Text.quoted t.text ++ ", " ++ t.position.text ++ ")"

/-- The token at the end of a script is the end of input. -/
@[simp] theorem kind_endAt (p : Position) : (endAt p).kind = .endOfInput := rfl

/-- A newline marker is a separator. -/
@[simp] theorem kind_newlineAt (p : Position) : (newlineAt p).kind = .semicolon := rfl

end Token

end RcScript
