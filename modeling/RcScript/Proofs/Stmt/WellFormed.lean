/-
# Well-formed statements

A statement can be written so that it is read back when each of its texts can:
an option, a name or an argument must be a word (`IsWord`), a called name must
not be taken for another kind of statement (`IsName`), and the text of a command
must fit a block or the rest of a line (`FitsLine`).  What is said of a statement
here is said of all nodes of its `walk`.  `Tree.height` counts how deep statements
stand in one another.

The conditions on a node are stated with what may be the text of a command left open
(`TextsFit`).  So one set of lemmas, one for each kind of statement, serves three notions:
that all texts can be read (`Legible`), that they are read back when they are written
(`WellFormed`), and what parts the two, that no text of a command on a line takes the line
break along (`Settled`).  All of them are decidable, so that a given statement is checked
by evaluation.
-/

import RcScript.Proofs.Scanner.Lexeme

namespace RcScript

/-- The words that begin a statement of their own and so are no names. -/
def keywords : List String := ["set", "map", "cmd"]

/-- What can be read as a word. -/
structure IsWord (w : String) : Prop where
  nonempty : w ≠ ""
  spaceless : ∀ c ∈ w.toList, Text.isSpace c = false ∧ c ≠ ';'
  closed : holdsClosingBraces w.toList = false
  opens : ¬['{', '{'] <+: w.toList

/-- What can be read as the name of a command that is called. -/
structure IsName (w : String) : Prop where
  word : IsWord w
  free : w ∉ keywords
  head : ∀ c ∈ w.toList.head?, c ≠ ':' ∧ Sigil.ofChar? c = none

/-- What the rest of a line can leave as the text of a command. -/
structure FitsLine (text : String) : Prop where
  nonempty : text ≠ ""
  first : ∀ c ∈ text.toList.head?, Text.isSpace c = false
  opens : ¬['{', '{'] <+: text.toList
  last : text.toList.getLast? ≠ some '\r'
  breaks : Lexeme.holdsBareBreak text.toList = false

instance (w : String) : Decidable (IsWord w) :=
  decidable_of_iff (w ≠ "" ∧ w.toList.all (fun c => !Text.isSpace c && c != ';') = true ∧
      holdsClosingBraces w.toList = false ∧ ¬['{', '{'] <+: w.toList)
    ⟨fun ⟨h₁, h₂, h₃, h₄⟩ => ⟨h₁, by simpa using h₂, h₃, h₄⟩,
      fun h => ⟨h.1, by simpa using h.2, h.3, h.4⟩⟩

instance (w : String) : Decidable (IsName w) :=
  decidable_of_iff (IsWord w ∧ w ∉ keywords ∧
      w.toList.head?.all (fun c => c != ':' && (Sigil.ofChar? c).isNone) = true)
    ⟨fun ⟨h₁, h₂, h₃⟩ => ⟨h₁, h₂, by simpa [Option.all_eq_true] using h₃⟩,
      fun h => ⟨h.1, h.2, by simpa [Option.all_eq_true] using h.3⟩⟩

instance (text : String) : Decidable (FitsLine text) :=
  decidable_of_iff (text ≠ "" ∧ text.toList.head?.all (fun c => !Text.isSpace c) = true ∧
      ¬['{', '{'] <+: text.toList ∧ text.toList.getLast? ≠ some '\r' ∧
      Lexeme.holdsBareBreak text.toList = false)
    ⟨fun ⟨h₁, h₂, h₃, h₄, h₅⟩ => ⟨h₁, by simpa [Option.all_eq_true] using h₂, h₃, h₄, h₅⟩,
      fun h => ⟨h.1, by simpa [Option.all_eq_true] using h.2, h.3, h.4, h.5⟩⟩

/-- A text that a command can have after it was read. -/
def Readable (text : String) : Prop := fitsBlock text = true ∨ FitsLine text

/-- A text of a command that is read back when it is written: on a line it must
not end in a backslash that would take the line break along. -/
def Writable (text : String) : Prop :=
  fitsBlock text = true ∨ FitsLine text ∧ Lexeme.dangles text.toList = false

instance : DecidablePred Writable := fun text =>
  inferInstanceAs (Decidable (fitsBlock text = true ∨
    FitsLine text ∧ Lexeme.dangles text.toList = false))

namespace Tree

section
variable {α : Type} {P : Tree α → Prop}

/-- The nodes of a binding are itself and those of its body. -/
@[simp] theorem forall_walk_map {keys : String} {body : Tree α} :
    (∀ node ∈ (map keys body).walk, P node) ↔ P (map keys body) ∧ ∀ node ∈ body.walk, P node := by
  simp [walk]

/-- The nodes of a definition are itself and those of its body. -/
@[simp] theorem forall_walk_cmd {name : String} {body : Tree α} :
    (∀ node ∈ (cmd name body).walk, P node) ↔ P (cmd name body) ∧ ∀ node ∈ body.walk, P node := by
  simp [walk]

/-- The walk of several trees is their walks one after the other. -/
theorem walkAll_eq (trees : List (Tree α)) : walkAll trees = trees.flatMap walk := by
  induction trees with
  | nil => rfl
  | cons tree trees ih => rw [walkAll, ih, List.flatMap_cons]

/-- A node of several trees is a node of one of them. -/
@[simp] theorem mem_walkAll {node : Tree α} {trees : List (Tree α)} :
    node ∈ walkAll trees ↔ ∃ tree ∈ trees, node ∈ tree.walk := by
  rw [walkAll_eq, List.mem_flatMap]

/-- The nodes of a list are itself and those of its items. -/
@[simp] theorem forall_walk_list {first : Tree α} {others : List (Tree α)} :
    (∀ node ∈ (list first others).walk, P node) ↔
      P (list first others) ∧ ∀ item ∈ first :: others, ∀ node ∈ item.walk, P node := by
  simp only [walk, List.mem_cons, List.mem_append, mem_walkAll]
  constructor
  · intro h
    refine ⟨h _ (.inl rfl), ?_⟩
    rintro item (rfl | hi) node hn
    · exact h node (.inr (.inl hn))
    · exact h node (.inr (.inr ⟨item, hi, hn⟩))
  · rintro ⟨h, hi⟩ node (rfl | hn | ⟨item, hm, hn⟩)
    · exact h
    · exact hi _ (.inl rfl) node hn
    · exact hi item (.inr hm) node hn

mutual

/-- How deep statements stand in one another, a single one counted as one. -/
def height : Tree α → Nat
  | .map _ body => body.height + 1
  | .cmd _ body => body.height + 1
  | .list first others => max first.height (heightAll others) + 1
  | _ => 1

/-- The height of the highest of some trees. -/
def heightAll : List (Tree α) → Nat
  | [] => 0
  | tree :: trees => max tree.height (heightAll trees)

end

/-- Trees are within a height when each of them is. -/
theorem heightAll_le_iff {n : Nat} {trees : List (Tree α)} :
    heightAll trees ≤ n ↔ ∀ tree ∈ trees, tree.height ≤ n := by
  induction trees with
  | nil => simp [heightAll]
  | cons tree trees ih => rw [heightAll, Nat.max_le, ih, List.forall_mem_cons]

/-- A list is within a height when its items are within one less. -/
theorem height_list_le_iff {n : Nat} {first : Tree α} {others : List (Tree α)} :
    (list first others).height ≤ n + 1 ↔ ∀ item ∈ first :: others, item.height ≤ n := by
  rw [height, Nat.add_le_add_iff_right, ← heightAll, heightAll_le_iff]

/-- A tree has a height. -/
theorem height_pos (tree : Tree α) : 0 < tree.height := by
  cases tree <;> simp [height]

end

end Tree

namespace Stmt

/-- Whether the texts of one node can be read, those of its parts aside; what
may be the text of a command is left open. -/
def TextsFit (fits : String → Prop) : Stmt → Prop
  | .set option value => IsWord option ∧ (value = "" ∨ IsWord value)
  | .map keys _ => IsWord keys
  | .cmd name _ => IsWord name
  | .call name args => IsName name ∧ ∀ arg ∈ args, IsWord arg
  | .exec _ text => fits text
  | .list _ _ => True

instance (fits : String → Prop) [DecidablePred fits] : DecidablePred (TextsFit fits)
  | .set option value => inferInstanceAs (Decidable (IsWord option ∧ (value = "" ∨ IsWord value)))
  | .map keys _ => inferInstanceAs (Decidable (IsWord keys))
  | .cmd name _ => inferInstanceAs (Decidable (IsWord name))
  | .call name args => inferInstanceAs (Decidable (IsName name ∧ ∀ arg ∈ args, IsWord arg))
  | .exec _ text => inferInstanceAs (Decidable (fits text))
  | .list _ _ => inferInstanceAs (Decidable True)

/-- Whether all texts in a statement are such as can be read. -/
def Legible (stmt : Stmt) : Prop := ∀ node ∈ stmt.walk, TextsFit Readable node

/-- Whether all texts in a statement are read back when they are written. -/
def WellFormed (stmt : Stmt) : Prop := ∀ node ∈ stmt.walk, TextsFit Writable node

instance : DecidablePred WellFormed := fun stmt =>
  inferInstanceAs (Decidable (∀ node ∈ stmt.walk, TextsFit Writable node))

/-- Whether every command text in a statement that only a line can hold leaves
the line break alone. -/
def Settled (stmt : Stmt) : Prop :=
  ∀ g text, Tree.exec g text ∈ stmt.walk →
    fitsBlock text = true ∨ Lexeme.dangles text.toList = false

section
variable {fits : String → Prop}

/-- The texts of a setting fit when its option is a word, and its value too if it has one. -/
theorem forall_walk_set {option value : String} :
    (∀ node ∈ Tree.walk (.set option value), TextsFit fits node) ↔
      IsWord option ∧ (value = "" ∨ IsWord value) := by
  simp [Tree.walk, TextsFit]

/-- The texts of a call fit when its name can be called and its arguments are words. -/
theorem forall_walk_call {name : String} {args : List String} :
    (∀ node ∈ Tree.walk (.call name args), TextsFit fits node) ↔
      IsName name ∧ ∀ arg ∈ args, IsWord arg := by
  simp [Tree.walk, TextsFit]

/-- The text of a command fits when it is such as a command may have. -/
theorem forall_walk_exec {g : Sigil} {text : String} :
    (∀ node ∈ Tree.walk (.exec g text), TextsFit fits node) ↔ fits text := by
  simp [Tree.walk, TextsFit]

end

/-- **A legible statement is well formed when no text of it takes a line break
along.** -/
theorem wellFormed_iff {stmt : Stmt} : stmt.WellFormed ↔ stmt.Legible ∧ stmt.Settled := by
  constructor
  · intro h
    refine ⟨fun node hn => ?_, fun g text hn => ?_⟩
    · have hnode := h node hn
      cases node with
      | exec g text => exact hnode.imp_right And.left
      | hole value => exact value.elim
      | _ => exact hnode
    · exact (h _ hn).imp_right And.right
  · rintro ⟨hl, hs⟩ node hn
    have hnode := hl node hn
    cases node with
    | exec g text =>
      rcases hnode with hb | hline
      · exact .inl hb
      · exact (hs g text hn).imp_right (fun hd => ⟨hline, hd⟩)
    | hole value => exact value.elim
    | _ => exact hnode

end Stmt
end RcScript
