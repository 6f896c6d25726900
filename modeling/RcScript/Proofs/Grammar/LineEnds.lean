/-
# Terminals of a script with carriage returns

Beside a script without carriage returns the same terminals are read from the script that
ends its lines with them, but for the texts of commands (`Reads.beside`), and they stand for
the same statements, but for these texts (`Derives.returned`).  It takes that no command on a
line goes on over a line break (`HoldLines`).  There is no other way to the same statements:
the texts of their commands are those of the terminals, in order (`Derives.commands_eq`), and
the first command that goes on over a line break is read with another text from the script
with carriage returns (`holdLines_of_reads`).

The text of a command is the one thing that changes: a line break that a block holds comes
with its carriage return, and so would one that is escaped on a line, if it could be.  So a
tree, a terminal and a phrase each have the form that they take in the script with
carriage returns, and what the grammar says of the one is said of the other.  The texts of
commands are counted out in order on both sides, the statements and the terminals, and
compared as lists.

`HoldLines` is a condition on the terminals in order, with a flag that says whether a
sigil stands right before: only a command text with a sigil right before it stands on a
line, for one in a block has opening braces before it.  The condition is that such a text
has no line break in it.  Both directions of the main result need it to be one of
terminals, because the derivations of the two scripts are compared terminal by terminal
and not as trees.
-/

import RcScript.Proofs.Grammar.Places
import RcScript.Proofs.Scanner.LineEnds

namespace RcScript

/-! ### Statements -/

namespace Tree

variable {α : Type} (f : String → String)

mutual

/-- A tree with another text for each of its commands. -/
def mapTexts : Tree α → Tree α
  | .map keys body => .map keys body.mapTexts
  | .cmd name body => .cmd name body.mapTexts
  | .exec sigil text => .exec sigil (f text)
  | .list first others => .list first.mapTexts (mapTextsAll others)
  | .set option value => .set option value
  | .call name args => .call name args
  | .hole value => .hole value

/-- Trees with other texts for their commands. -/
def mapTextsAll : List (Tree α) → List (Tree α)
  | [] => []
  | tree :: trees => tree.mapTexts :: mapTextsAll trees

end

/-- The text of a command. -/
def text? : Tree α → Option String
  | .exec _ text => some text
  | _ => none

/-- The texts of the commands in a tree, in order. -/
def texts (tree : Tree α) : List String := tree.walk.filterMap text?

variable {f}

/-- Trees get other texts one by one. -/
theorem mapTextsAll_eq (trees : List (Tree α)) : mapTextsAll f trees = trees.map (mapTexts f) := by
  induction trees with
  | nil => rfl
  | cons tree trees ih => rw [mapTextsAll, ih, List.map_cons]

/-- The texts of commands in a walk are those of each tree in turn. -/
theorem filterMap_walkAll (trees : List (Tree α)) :
    (walkAll trees).filterMap text? = trees.flatMap texts := by
  rw [walkAll_eq, List.filterMap_flatMap]
  rfl

/-- The texts in a list are those of its items. -/
theorem texts_list (first : Tree α) (others : List (Tree α)) :
    texts (.list first others) = (first :: others).flatMap texts := by
  calc texts (.list first others)
      = (first.walk ++ walkAll others).filterMap text? := rfl
    _ = (first :: others).flatMap texts := by
      rw [List.filterMap_append, filterMap_walkAll, List.flatMap_cons, texts]

mutual

/-- Other texts stand where the texts stood. -/
theorem texts_mapTexts : ∀ tree : Tree α, (tree.mapTexts f).texts = tree.texts.map f
  | .map _ body => texts_mapTexts body
  | .cmd _ body => texts_mapTexts body
  | .list first others => by
    rw [mapTexts, texts_list, texts_list, List.flatMap_cons, List.flatMap_cons, List.map_append,
      texts_mapTexts first, flatMap_texts_mapTextsAll others]
  | .exec _ _ | .set _ _ | .call _ _ | .hole _ => rfl

/-- In several trees, too, other texts stand where the texts stood. -/
theorem flatMap_texts_mapTextsAll : ∀ trees : List (Tree α),
    (mapTextsAll f trees).flatMap texts = (trees.flatMap texts).map f
  | [] => rfl
  | tree :: trees => by
    rw [mapTextsAll, List.flatMap_cons, List.flatMap_cons, List.map_append, texts_mapTexts tree,
      flatMap_texts_mapTextsAll trees]

end

mutual

/-- Other texts leave the height as it is. -/
theorem height_mapTexts : ∀ tree : Tree α, (tree.mapTexts f).height = tree.height
  | .map _ body => congrArg (· + 1) (height_mapTexts body)
  | .cmd _ body => congrArg (· + 1) (height_mapTexts body)
  | .list first others => by
    rw [mapTexts, height, height, height_mapTexts first, heightAll_mapTextsAll others]
  | .exec _ _ | .set _ _ | .call _ _ | .hole _ => rfl

/-- Other texts leave the height of several trees as it is. -/
theorem heightAll_mapTextsAll : ∀ trees : List (Tree α),
    heightAll (mapTextsAll f trees) = heightAll trees
  | [] => rfl
  | tree :: trees => by
    rw [mapTextsAll, heightAll, heightAll, height_mapTexts tree, heightAll_mapTextsAll trees]

end

end Tree

/-- A statement of a script with carriage returns: they stand in the texts of its commands. -/
def Stmt.returned (stmt : Stmt) : Stmt := stmt.mapTexts Text.returned

/-! ### Terminals -/

namespace Terminal

/-- A terminal of a script with carriage returns. -/
def returned (x : Terminal) : Terminal :=
  if x.kind = .command then { x with text := Text.returned x.text } else x

/-- The text of a command. -/
def command? (x : Terminal) : Option String := if x.kind = .command then some x.text else none

/-- The texts of commands, in order. -/
def commands (xs : List Terminal) : List String := xs.filterMap command?

/-- No command on a line goes on over a line break.  The flag says whether a sigil stands
right before. -/
def HoldLines : Bool → List Terminal → Prop
  | _, [] => True
  | afterSigil, x :: xs =>
    (afterSigil = true → x.kind = .command → '\n' ∉ x.text.toList) ∧
      HoldLines (decide (x.kind = .sigil)) xs

variable {x : Terminal} {xs ys : List Terminal}

/-- Only the text of a command changes. -/
theorem returned_of_ne (h : x.kind ≠ .command) : x.returned = x := if_neg h

/-- A terminal keeps its kind. -/
@[simp] theorem kind_returned : x.returned.kind = x.kind := by
  rw [returned]
  split <;> rfl

/-- A terminal keeps its flag. -/
@[simp] theorem begins_returned : x.returned.begins = x.begins := by
  rw [returned]
  split <;> rfl

/-- What may end braces stays as it is. -/
theorem IsEnd.returned_eq (h : x.IsEnd) : x.returned = x :=
  returned_of_ne (by rw [h.kind_eq]; nofun)

/-- What may end braces is no command. -/
theorem IsEnd.command?_eq (h : x.IsEnd) : x.command? = none := if_neg (by rw [h.kind_eq]; nofun)

/-- The commands of two runs of terminals are those of each. -/
@[simp] theorem commands_append : commands (xs ++ ys) = commands xs ++ commands ys :=
  List.filterMap_append

/-- The text of a command comes before those that follow. -/
theorem commands_cons (h : x.kind = .command) : commands (x :: xs) = x.text :: commands xs :=
  List.filterMap_cons_some (if_pos h)

/-- What is no command adds none. -/
theorem commands_cons_of_ne (h : x.kind ≠ .command) : commands (x :: xs) = commands xs :=
  List.filterMap_cons_none (if_neg h)

/-- A terminal of a script with carriage returns is told by its kind, its text and its flag. -/
theorem eq_returned {y : Terminal} (hk : y.kind = x.kind) (ht : y.text = x.returned.text)
    (hb : y.begins = x.begins) : y = x.returned := by
  obtain ⟨kind, text, begins⟩ := y
  obtain rfl : kind = _ := hk
  obtain rfl : text = _ := ht
  obtain rfl : begins = _ := hb
  rw [returned]
  split <;> rfl

/-- A terminal leads to the same place in a script with carriage returns. -/
theorem after_returned (place : Place) : place.after x.returned = place.after x := by
  by_cases h : x.kind = .command
  · cases place <;> simp [Place.after, h]
  · rw [returned_of_ne h]

/-- A token is the same as the one of a terminal, but for the text of a command. -/
theorem is_returned {token token' : Token} (h : Scanner.SameToken token token')
    (hx : token.Is x) : token'.Is x.returned := by
  obtain ⟨hkind, htext⟩ := h
  rw [hx.1, hx.2] at htext
  refine ⟨hkind.trans (hx.1.trans kind_returned.symm), htext.trans ?_⟩
  rw [returned]
  split <;> rfl

end Terminal

open Terminal

/-- A phrase of a script with carriage returns. -/
def Phrase.returned : Phrase → Phrase
  | .statement stmt => .statement stmt.returned
  | .nested stmt => .nested stmt.returned
  | .items stmts => .items (stmts.map Stmt.returned)
  | .script stmts => .script (stmts.map Stmt.returned)

/-- The texts of the commands in a phrase, in order. -/
def Phrase.texts : Phrase → List String
  | .statement stmt | .nested stmt => Tree.texts stmt
  | .items stmts | .script stmts => stmts.flatMap Tree.texts

variable {Sep : Terminal → Prop} {p : Phrase} {xs ys : List Terminal} {place : Place}

/-- Separators stay as they are. -/
theorem map_returned_separators (hsep : ∀ x, Sep x → x.IsEnd) (h : ∀ x ∈ xs, Sep x) :
    xs.map returned = xs := by
  calc xs.map returned = xs.map id := List.map_congr_left fun x hx => (hsep x (h x hx)).returned_eq
    _ = xs := List.map_id xs

/-- **The statements of a script with carriage returns are derived from its terminals.** -/
theorem Derives.returned (hsep : ∀ x, Sep x → x.IsEnd) (hd : Derives Sep p xs) :
    Derives Sep p.returned (xs.map Terminal.returned) := by
  have hlist : ∀ first others, Stmt.returned (.list first others) =
      .list (Stmt.returned first) (others.map Stmt.returned) := fun first others =>
    congrArg (Tree.list _) (Tree.mapTextsAll_eq others)
  induction hd with
  | switch option ends =>
    rw [List.map_cons, List.map_cons, List.map_cons, (hsep _ ends).returned_eq]
    exact .switch option ends
  | setting option value ends =>
    rw [List.map_cons, List.map_cons, List.map_cons, List.map_cons, (hsep _ ends).returned_eq]
    exact .setting option value ends
  | binding nested ih => exact .binding ih
  | definition nested ih => exact .definition ih
  | @call name args last free ends =>
    have hargs : (args.map word).map Terminal.returned = args.map word := by
      rw [List.map_map]
      rfl
    rw [List.map_cons, List.map_append, hargs, List.map_singleton, (hsep _ ends).returned_eq]
    exact .call args free ends
  | line g text => exact .line g (Text.returned text)
  | block g text ends =>
    simp only [List.map_cons, List.map_nil, ends.returned_eq]
    exact .block g (Text.returned text) ends
  | bracedList items ends ih =>
    simp only [List.map_cons, List.map_append, List.map_nil, ends.returned_eq, Phrase.returned,
      hlist]
    exact .bracedList ih ends
  | lineList items ih =>
    simp only [List.map_cons, List.map_append, List.map_nil, Phrase.returned, hlist]
    exact .lineList ih
  | nested separate statement ih =>
    rw [List.map_append, map_returned_separators hsep separate]
    exact .nested separate ih
  | one nested ih => exact .one ih
  | more nested items ih₁ ih₂ =>
    rw [List.map_append]
    exact .more ih₁ ih₂
  | finish separate =>
    rw [map_returned_separators hsep separate]
    exact .finish separate
  | next nested script ih₁ ih₂ =>
    rw [List.map_append]
    exact .next ih₁ ih₂

/-- There are no commands among separators. -/
theorem commands_separators (hsep : ∀ x, Sep x → x.IsEnd) (h : ∀ x ∈ xs, Sep x) :
    commands xs = [] :=
  List.filterMap_eq_nil_iff.2 fun x hx => (hsep x (h x hx)).command?_eq

/-- **The texts of the commands are those of the terminals**, in order. -/
theorem Derives.commands_eq (hsep : ∀ x, Sep x → x.IsEnd) (hd : Derives Sep p xs) :
    commands xs = p.texts := by
  have hlast : ∀ {x : Terminal}, x.IsEnd → commands [x] = [] := fun hx =>
    commands_separators (fun _ => id) (by simpa using hx)
  induction hd with
  | switch option ends => exact hlast (hsep _ ends)
  | setting option value ends => exact hlast (hsep _ ends)
  | binding nested ih => exact ih
  | definition nested ih => exact ih
  | @call name args last free ends =>
    have hargs : commands (args.map word) = [] := by
      rw [commands, List.filterMap_map]
      exact List.filterMap_eq_nil_iff.2 fun _ _ => rfl
    calc commands (word name :: (args.map word ++ [last]))
        = commands (args.map word) ++ commands [last] := commands_append
      _ = [] := by rw [hargs, hlast (hsep _ ends), List.append_nil]
  | line g text => rfl
  | block g text ends => exact congrArg (text :: ·) (hlast ends)
  | @bracedList first others xs last items ends ih =>
    calc commands (colon :: openBraces :: (xs ++ [closeBraces, last]))
        = commands xs ++ commands [last] := commands_append
      _ = Tree.texts (.list first others) := by
        rw [ih, hlast ends, List.append_nil, Tree.texts_list, Phrase.texts]
  | @lineList first others xs items ih =>
    calc commands (colon :: (xs ++ [newline]))
        = commands xs ++ commands [newline] := commands_append
      _ = Tree.texts (.list first others) := by
        rw [ih, hlast (.inr rfl), List.append_nil, Tree.texts_list, Phrase.texts]
  | nested separate statement ih =>
    rw [commands_append, commands_separators hsep separate, ih]
    rfl
  | one nested ih => exact ih.trans (List.append_nil _).symm
  | more nested items ih₁ ih₂ =>
    rw [commands_append, ih₁, ih₂]
    rfl
  | finish separate => exact commands_separators hsep separate
  | next nested script ih₁ ih₂ =>
    rw [commands_append, ih₁, ih₂]
    rfl

/-! ### Reading -/

namespace Scanner

open Text (withReturns)

variable {s s' t t' : Scanner} {afterSigil : Bool} {x : Terminal}

/-- A terminal that is read goes on beside, and a command is awaited after a sigil. -/
theorem Together.next (h : Together s s.look s'.look) (hd : s.done = false)
    (ha : AwaitsCommand afterSigil s) (his : s.look.token.Is x) (hk : x.kind ≠ .endOfInput) :
    s'.look.token.Is x.returned ∧
      Beside withReturns (s.look.ask x.begins) (s'.look.ask x.begins) ∧
      (s.look.ask x.begins).done = false ∧
      AwaitsCommand (decide (x.kind = .sigil)) (s.look.ask x.begins) := by
  refine ⟨is_returned h.same his, h.beside.ask x.begins, ?_, ?_⟩
  · change s.look.done = false
    rw [← Bool.not_eq_true, done_look_iff hd, his.1]
    exact hk
  · rw [← his.1]
    exact { awaitsCommand_look ha hd with }

/-- **What is read from a script is read from the one with carriage returns**, if no command on
a line goes on over a line break. -/
theorem Reads.beside (hr : Reads s xs t) (h : Beside withReturns s s') (hd : s.done = false)
    (ha : AwaitsCommand afterSigil s) (hx : HoldLines afterSigil xs)
    (hk : ∀ x ∈ xs, x.kind ≠ .endOfInput) :
    ∃ t', Reads s' (xs.map Terminal.returned) t' ∧ Beside withReturns t t' ∧ t.done = false := by
  induction xs generalizing s s' afterSigil with
  | nil =>
    obtain rfl : t = s := hr
    exact ⟨s', rfl, h, hd⟩
  | cons x xs ih =>
    obtain ⟨hx₁, hx₂⟩ := hx
    obtain ⟨hk₁, hk₂⟩ := List.forall_mem_cons.1 hk
    obtain ⟨his, hf, hr⟩ := hr
    rcases h.look hd hf with htogether | hparted
    · obtain ⟨his', hbeside, hlive, hawaits⟩ := htogether.next hd ha his hk₁
      obtain ⟨t', hr', ht⟩ := ih hr hbeside hlive hawaits hx₂ hk₂
      rw [← begins_returned] at hr'
      exact ⟨t', ⟨his', htogether.beside.fault, hr'⟩, ht⟩
    · have hbreak := hparted.goesOn
      rw [his.2] at hbreak
      exact absurd hbreak (hx₁ (ha.mode.1 hparted.mode) (his.1.symm.trans hparted.kind))

/-- **Where the same texts are read from the script with carriage returns, no command on a line
goes on over a line break.** -/
theorem holdLines_of_reads (h : Beside withReturns s s') (hd : s.done = false)
    (ha : AwaitsCommand afterSigil s) (hr : Reads s xs t) (hr' : Reads s' ys t')
    (hx : Place.AllowsAll Sep place xs) (hy : Place.AllowsAll Sep place ys)
    (hk : ∀ x ∈ xs, x.kind ≠ .endOfInput) (hend : t'.look.token.kind = .endOfInput)
    (hc : commands ys = (commands xs).map Text.returned) : HoldLines afterSigil xs := by
  induction xs generalizing s s' ys afterSigil place with
  | nil => trivial
  | cons x xs ih =>
    obtain ⟨hk₁, hk₂⟩ := List.forall_mem_cons.1 hk
    obtain ⟨his, hf, hr⟩ := hr
    obtain ⟨hx₁, hx₂⟩ := hx
    have hlook := h.look hd hf
    -- the other script does not end before the terminal
    have hkind : s'.look.token.kind = x.kind := by
      rcases hlook with htogether | hparted
      · exact htogether.same.1.trans his.1
      · exact hparted.kind'.trans (hparted.kind.symm.trans his.1)
    cases ys with
    | nil =>
      obtain rfl : t' = s' := hr'
      exact absurd (hkind.symm.trans hend) hk₁
    | cons y ys =>
      obtain ⟨his', -, hr'⟩ := hr'
      obtain ⟨hy₁, hy₂⟩ := hy
      have hky : y.kind = x.kind := his'.1.symm.trans hkind
      rcases hlook with htogether | hparted
      · obtain ⟨his'', hbeside, hlive, hawaits⟩ := htogether.next hd ha his hk₁
        have hb : y.begins = x.begins := hy₁.begins_eq hx₁ hky
        obtain rfl : y = x.returned := eq_returned hky (his'.2.symm.trans his''.2) hb
        rw [begins_returned] at hr'
        rw [after_returned] at hy₂
        have hc' : commands ys = (commands xs).map Text.returned := by
          by_cases hcommand : x.kind = .command
          · rw [commands_cons (kind_returned.trans hcommand), commands_cons hcommand] at hc
            exact (List.cons_eq_cons.1 hc).2
          · rwa [commands_cons_of_ne (by rwa [kind_returned]), commands_cons_of_ne hcommand] at hc
        refine ⟨fun hafter hcommand => ?_, ih hbeside hlive hawaits hr hr' hx₂ hy₂ hk₂ hc'⟩
        rw [← his.2]
        exact htogether.line (ha.mode.2 hafter) (his.1.trans hcommand)
      · exfalso
        have hcommand : x.kind = .command := his.1.symm.trans hparted.kind
        have hbreak := hparted.goesOn
        have hends := hparted.ends
        rw [his.2] at hbreak
        rw [commands_cons (hky.trans hcommand), commands_cons hcommand] at hc
        rw [his'.2, (List.cons_eq_cons.1 hc).1, Text.returned, String.toList_ofList] at hends
        exact hends (Text.mem_withReturns hbreak)

end Scanner
end RcScript
