/-
# Positions and cursors

A character of a script is found by its line and its column, both counted from one.
`Position.step` is the whole rule: a line feed begins a new line, and any other character is
one column wide.

A cursor stands between two characters of a script.  It keeps both sides, what it has passed
(nearest first) and what is left, and the position it has reached.  It moves by
`Cursor.forward` alone, and what a move does to each of its parts is said once, right below:
`text_forward` says that it changes neither the script nor the order of its characters,
`rest_forward`, `past_forward` and `position_forward` what becomes of the two sides and of
the position, and `offset_forward` how far it gets.  Later proofs cite these and never open
a move.

Looking around (`Cursor.peek`) goes by an index into the whole script, which may be
negative: then it counts from the end, and a look before the beginning is told from one
beyond the end.
-/

import RcScript.Text.Characters

namespace RcScript

/-- A line and a column.  Positions met in a script count from one; a caller
that builds a fault of its own may give any two integers. -/
structure Position where
  line : Int
  column : Int
deriving DecidableEq, Repr, Inhabited

namespace Position

/-- Where a script begins. -/
def start : Position := ⟨1, 1⟩

/-- Where one stands after a character. -/
def step (p : Position) (c : Char) : Position :=
  if c = Text.lineBreak then ⟨p.line + 1, 1⟩ else ⟨p.line, p.column + 1⟩

/-- Where one stands after a run of characters. -/
def stepAll (p : Position) (text : List Char) : Position := text.foldl step p

/-- One stands where the second part of a run leads from where the first has led. -/
theorem stepAll_append (p : Position) (a b : List Char) :
    p.stepAll (a ++ b) = (p.stepAll a).stepAll b :=
  List.foldl_append

/-- A position as messages give it: line, colon, column. -/
def text (p : Position) : String := toString p.line ++ ":" ++ toString p.column

end Position

/-- A place in a script: the characters before it, nearest first, the characters
after it, and its line and column. -/
structure Cursor where
  past : List Char
  rest : List Char
  position : Position
deriving DecidableEq, Repr, Inhabited

/-- What a look at one place of a script shows. -/
inductive Glimpse
  | found (c : Char)
  | beyondEnd
  | beforeStart
deriving DecidableEq, Repr, Inhabited

namespace Cursor

/-- The cursor at the beginning of a script. -/
def ofText (text : List Char) : Cursor := ⟨[], text, Position.start⟩

/-- The whole script. -/
def text (c : Cursor) : List Char := c.past.reverse ++ c.rest

/-- How many characters have been passed. -/
def offset (c : Cursor) : Nat := c.past.length

/-- Passes a number of characters, or all that are left. -/
def forward : Nat → Cursor → Cursor
  | 0, c => c
  | n + 1, c =>
    match c.rest with
    | [] => c
    | x :: rest => forward n ⟨x :: c.past, rest, c.position.step x⟩

/-- Passes every character of a class, up to the first that is not in it. -/
def skipWhile (p : Char → Bool) (c : Cursor) : Cursor :=
  c.forward (c.rest.takeWhile p).length

/-- Whether what is left begins with a text. -/
def startsWith (c : Cursor) (text : List Char) : Bool := text.isPrefixOf c.rest

/-- The character of a script at an index.  A negative index counts from the
end, as far as the script is long. -/
def glimpse (text : List Char) (index : Int) : Glimpse :=
  let target := if index < 0 then index + text.length else index
  if target < 0 then .beforeStart
  else match text[target.toNat]? with
    | some c => .found c
    | none => .beyondEnd

/-- A look at the character a number of places ahead. -/
def peek (c : Cursor) (ahead : Int) : Glimpse := glimpse c.text (c.offset + ahead)

/-- **A move changes no script**: the two sides of a cursor make up the same text. -/
theorem text_forward (n : Nat) (c : Cursor) : (c.forward n).text = c.text := by
  induction n generalizing c with
  | zero => rfl
  | succ n ih =>
    unfold forward
    split
    · rfl
    · next x rest h => rw [ih]; simp [text, h]

/-- A move drops what it passes from what is left. -/
theorem rest_forward (n : Nat) (c : Cursor) : (c.forward n).rest = c.rest.drop n := by
  induction n generalizing c with
  | zero => rfl
  | succ n ih =>
    unfold forward
    split
    · next h => simp [h]
    · next x rest h => rw [ih, h]; rfl

/-- What a move passes is behind the cursor then, nearest first. -/
theorem past_forward (n : Nat) (c : Cursor) :
    (c.forward n).past = (c.rest.take n).reverse ++ c.past := by
  induction n generalizing c with
  | zero => rfl
  | succ n ih =>
    unfold forward
    split
    · next h => simp [h]
    · next x rest h => rw [ih, h]; simp

/-- A move steps over the characters that it passes, one by one. -/
theorem position_forward (n : Nat) (c : Cursor) :
    (c.forward n).position = c.position.stepAll (c.rest.take n) := by
  induction n generalizing c with
  | zero => rfl
  | succ n ih =>
    unfold forward
    split
    · next h => simp [h, Position.stepAll]
    · next x rest h => rw [ih, h]; rfl

/-- Two moves are one as far as both. -/
theorem forward_forward (m n : Nat) (c : Cursor) :
    (c.forward m).forward n = c.forward (m + n) := by
  induction m generalizing c with
  | zero => rw [Nat.zero_add]; rfl
  | succ m ih =>
    rw [Nat.add_right_comm]
    cases hr : c.rest with
    | nil => cases n <;> simp [forward, hr]
    | cons x rest => simp [forward, hr, ih]

/-- A move gets as far as it says, or to the end of the script. -/
theorem offset_forward (n : Nat) (c : Cursor) :
    (c.forward n).offset = c.offset + min n c.rest.length := by
  simp [offset, past_forward, Nat.add_comm]

end Cursor

end RcScript
