/-
# Begun phrases

Terminals that are the first ones of a statement, or of several, are taken apart by
`Begun`: which statements they stand in, one in the other, and how far the innermost one
has come.  Whatever is begun can be completed (`Begun.completes`), and the first terminals
of whatever is derived are begun (`Derives.begun`): a derivation need not be at hand to say
where it is broken off.

A part is one nested statement or several, and it is `Whole` when it is derived in full
and `Begun` when it breaks off, with a depth that bounds the statements in it from above.
The constructors of `Begun` follow the grammar inwards: a statement breaks off in its own
first terminals, or in its body or in its items.  Both notions come with lemmas that have
the shape of the grammar's productions, `Whole.setting`, `Whole.call` and so on; a proof
that goes along the terminals cites these and never a derivation.

Depth is counted as the reader counts it.  A statement needs one, a body or the items of a
list one less than what they are in, and the keyword of a binding is begun only where
there is room for the shortest body behind its head; otherwise terminals could be begun
that no statement of the depth completes.  A colon alone needs room for an item in the same
way.  The reader itself is less strict, for it reads a keyword where a body could not be
read any more; the difference is one level and is accounted for where the reader is looked
at.

That terminals are begun is closed under taking fewer of them (`Opens.front`), so it is
enough to know it of all that stands before the end of a script.
-/

import RcScript.Proofs.Grammar.Basic
import Mathlib.Tactic.Common

namespace RcScript

open Terminal

variable {Sep : Terminal → Prop} {depth : Nat} {x : Terminal} {xs ys zs : List Terminal}

/-- Statements need some depth. -/
theorem Tree.exists_succ_of_height_le {stmt : Stmt} (h : stmt.height ≤ depth) :
    ∃ d, depth = d + 1 :=
  Nat.exists_eq_succ_of_ne_zero (Nat.ne_zero_of_lt (Nat.lt_of_lt_of_le stmt.height_pos h))

/-- What is begun: a nested statement, or several one after the other. -/
inductive Part
  | one
  | several

/-- All terminals of a part, its statements no higher than the depth. -/
def Whole (Sep : Terminal → Prop) : Part → Nat → List Terminal → Prop
  | .one, depth, xs => ∃ stmt : Stmt, stmt.height ≤ depth ∧ Derives Sep (.nested stmt) xs
  | .several, depth, xs => ∃ first others,
      (∀ stmt ∈ first :: others, stmt.height ≤ depth) ∧ Derives Sep (.items (first :: others)) xs

/-- The first terminals of a part that is not complete, its statements no higher than the
depth. -/
inductive Begun (Sep : Terminal → Prop) : Part → Nat → List Terminal → Prop
  | nothing {depth : Nat} : Begun Sep .one (depth + 1) []
  | separator {depth : Nat} {x : Terminal} {xs : List Terminal} (ends : Sep x)
      (begun : Begun Sep .one depth xs) : Begun Sep .one depth (x :: xs)
  | set {depth : Nat} : Begun Sep .one (depth + 1) [word "set"]
  | option {depth : Nat} (option : String) : Begun Sep .one (depth + 1) [word "set", word option]
  | value {depth : Nat} (option value : String) :
      Begun Sep .one (depth + 1) [word "set", word option, word value]
  /-- the keyword of a binding or a definition -/
  | keyword {depth : Nat} {keyword : String} (known : keyword = "map" ∨ keyword = "cmd") :
      Begun Sep .one (depth + 2) [word keyword]
  | body {depth : Nat} {keyword : String} (known : keyword = "map" ∨ keyword = "cmd")
      (text : String) {xs : List Terminal} (begun : Begun Sep .one depth xs) :
      Begun Sep .one (depth + 1) (word keyword :: head text :: xs)
  | call {depth : Nat} {name : String} (args : List String) (free : name ∉ keywords) :
      Begun Sep .one (depth + 1) (word name :: args.map word)
  | sigil {depth : Nat} (g : Sigil) : Begun Sep .one (depth + 1) [sigil g]
  | line {depth : Nat} (g : Sigil) (text : String) :
      Begun Sep .one (depth + 1) [sigil g, command text]
  | openBlock {depth : Nat} (g : Sigil) : Begun Sep .one (depth + 1) [sigil g, openBraces]
  | blockText {depth : Nat} (g : Sigil) (text : String) :
      Begun Sep .one (depth + 1) [sigil g, openBraces, command text]
  | block {depth : Nat} (g : Sigil) (text : String) :
      Begun Sep .one (depth + 1) [sigil g, openBraces, command text, closeBraces]
  | colon {depth : Nat} : Begun Sep .one (depth + 2) [colon]
  | lineList {depth : Nat} {x : Terminal} {xs : List Terminal}
      (begun : Begun Sep .several depth (x :: xs)) : Begun Sep .one (depth + 1) (colon :: x :: xs)
  | bracedList {depth : Nat} {xs : List Terminal} (begun : Begun Sep .several depth xs) :
      Begun Sep .one (depth + 1) (colon :: openBraces :: xs)
  /-- a list whose braces are closed -/
  | closed {depth : Nat} {xs : List Terminal} (whole : Whole Sep .several depth xs) :
      Begun Sep .one (depth + 1) (colon :: openBraces :: (xs ++ [closeBraces]))
  | first {depth : Nat} {xs : List Terminal} (begun : Begun Sep .one depth xs) :
      Begun Sep .several depth xs
  | next {depth : Nat} {xs ys : List Terminal} (whole : Whole Sep .one depth xs)
      (begun : Begun Sep .several depth ys) : Begun Sep .several depth (xs ++ ys)

namespace Whole

/-- A statement is a whole. -/
theorem statement {stmt : Stmt} (hd : Derives Sep (.statement stmt) xs)
    (hle : stmt.height ≤ depth) : Whole Sep .one depth xs := ⟨stmt, hle, hd.nest⟩

/-- A separator may stand before a statement. -/
theorem separator (hx : Sep x) (h : Whole Sep .one depth xs) : Whole Sep .one depth (x :: xs) := by
  obtain ⟨stmt, hle, hd⟩ := h
  cases hd with
  | nested separate statement =>
    exact ⟨stmt, hle, .nested (List.forall_mem_cons.2 ⟨hx, separate⟩) statement⟩

/-- A setting without a value is whole. -/
theorem switch (option : String) (hx : Sep x) :
    Whole Sep .one (depth + 1) [word "set", word option, x] :=
  statement (.switch option hx) (Nat.le_add_left ..)

/-- A setting with a value is whole. -/
theorem setting (option value : String) (hx : Sep x) :
    Whole Sep .one (depth + 1) [word "set", word option, word value, x] :=
  statement (.setting option value hx) (Nat.le_add_left ..)

/-- A call is whole, whatever its arguments. -/
theorem call {name : String} (args : List String) (free : name ∉ keywords) (hx : Sep x) :
    Whole Sep .one (depth + 1) (word name :: (args.map word ++ [x])) :=
  statement (.call args free hx) (Nat.le_add_left ..)

/-- A command on a line is whole with the marker of its line. -/
theorem line (g : Sigil) (text : String) :
    Whole Sep .one (depth + 1) [sigil g, command text, newline] :=
  statement (.line g text) (Nat.le_add_left ..)

/-- A block is whole once its braces are closed and ended. -/
theorem block (g : Sigil) (text : String) (hx : x.IsEnd) :
    Whole Sep .one (depth + 1) [sigil g, openBraces, command text, closeBraces, x] :=
  statement (.block g text hx) (Nat.le_add_left ..)

/-- A binding or a definition is as whole as its body. -/
theorem body {keyword : String} (known : keyword = "map" ∨ keyword = "cmd") (text : String)
    (h : Whole Sep .one depth xs) :
    Whole Sep .one (depth + 1) (word keyword :: head text :: xs) := by
  obtain ⟨stmt, hle, hd⟩ := h
  obtain rfl | rfl := known
  · exact statement (.binding hd) (Nat.succ_le_succ hle)
  · exact statement (.definition hd) (Nat.succ_le_succ hle)

/-- A line list is as whole as its items, with the marker of its line. -/
theorem lineList (h : Whole Sep .several depth xs) :
    Whole Sep .one (depth + 1) (colon :: (xs ++ [newline])) := by
  obtain ⟨first, others, hle, hd⟩ := h
  exact statement (.lineList hd) (Tree.height_list_le_iff.2 hle)

/-- A list between braces is as whole as its items, once its braces are closed and ended. -/
theorem bracedList (h : Whole Sep .several depth xs) (hx : x.IsEnd) :
    Whole Sep .one (depth + 1) (colon :: openBraces :: (xs ++ [closeBraces, x])) := by
  obtain ⟨first, others, hle, hd⟩ := h
  exact statement (.bracedList hd hx) (Tree.height_list_le_iff.2 hle)

/-- One statement is several. -/
theorem first (h : Whole Sep .one depth xs) : Whole Sep .several depth xs := by
  obtain ⟨stmt, hle, hd⟩ := h
  exact ⟨stmt, [], List.forall_mem_singleton.2 hle, .one hd⟩

/-- A statement may be put before several. -/
theorem next (h : Whole Sep .one depth xs) (hs : Whole Sep .several depth ys) :
    Whole Sep .several depth (xs ++ ys) := by
  obtain ⟨stmt, hle, hd⟩ := h
  obtain ⟨second, others, hles, hds⟩ := hs
  exact ⟨stmt, second :: others, List.forall_mem_cons.2 ⟨hle, hles⟩, .more hd hds⟩

end Whole

/-- Some depth is left where something is begun. -/
theorem Begun.depth_ne_zero {part : Part} (h : Begun Sep part depth xs) : depth ≠ 0 := by
  induction h with
  | separator _ _ ih => exact ih
  | first _ ih => exact ih
  | next _ _ ih => exact ih
  | _ => exact Nat.succ_ne_zero _

/-- The shortest statement: a call without arguments. -/
theorem Whole.shortest (hsep : Sep Terminal.separator) :
    Whole Sep .one (depth + 1) [word "a", Terminal.separator] :=
  Whole.call [] (by decide) hsep

/-- What is begun begins as statements do. -/
theorem Begun.starts {part : Part} (h : Begun Sep part depth xs) :
    ∀ x ∈ xs.head?, x.Starts Sep := by
  induction h with
  | nothing => exact nofun
  | separator ends => rintro _ ⟨⟩; exact .inl ends
  | set | option | value | keyword | body | call => rintro _ ⟨⟩; exact .inr (.inl rfl)
  | sigil | line | openBlock | blockText | block => rintro _ ⟨⟩; exact .inr (.inr (.inr rfl))
  | colon | lineList | bracedList | closed => rintro _ ⟨⟩; exact .inr (.inr (.inl rfl))
  | first _ ih => exact ih
  | next whole =>
    obtain ⟨stmt, -, hd⟩ := whole
    obtain ⟨x, ys, rfl, hx⟩ := hd.nested_starts
    rintro _ ⟨⟩
    exact hx

/-- **What is begun can be completed.** -/
theorem Begun.completes (hsep : Sep Terminal.separator) {part : Part}
    (h : Begun Sep part depth xs) : ∃ ys, Whole Sep part depth (xs ++ ys) := by
  induction h with
  | nothing => exact ⟨_, Whole.shortest hsep⟩
  | separator ends begun ih =>
    obtain ⟨ys, h⟩ := ih
    exact ⟨ys, h.separator ends⟩
  | set => exact ⟨[word "a", .separator], Whole.switch "a" hsep⟩
  | option option => exact ⟨[.separator], Whole.switch option hsep⟩
  | value option value => exact ⟨[.separator], Whole.setting option value hsep⟩
  | keyword known => exact ⟨head "a" :: _, (Whole.shortest hsep).body known "a"⟩
  | body known text begun ih =>
    obtain ⟨ys, h⟩ := ih
    exact ⟨ys, h.body known text⟩
  | call args free => exact ⟨[.separator], Whole.call args free hsep⟩
  | sigil g => exact ⟨[command "a", newline], Whole.line g "a"⟩
  | line g text => exact ⟨[newline], Whole.line g text⟩
  | openBlock g => exact ⟨[command "a", closeBraces, newline], Whole.block g "a" (.inr rfl)⟩
  | blockText g text => exact ⟨[closeBraces, newline], Whole.block g text (.inr rfl)⟩
  | block g text => exact ⟨[newline], Whole.block g text (.inr rfl)⟩
  | colon => exact ⟨_, (Whole.shortest hsep).first.lineList⟩
  | lineList begun ih =>
    obtain ⟨ys, h⟩ := ih
    exact ⟨ys ++ [newline], by simpa using h.lineList⟩
  | bracedList begun ih =>
    obtain ⟨ys, h⟩ := ih
    exact ⟨ys ++ [closeBraces, newline], by simpa using h.bracedList (.inr rfl)⟩
  | closed whole => exact ⟨[newline], by simpa using whole.bracedList (.inr rfl)⟩
  | first begun ih =>
    obtain ⟨ys, h⟩ := ih
    exact ⟨ys, h.first⟩
  | next whole begun ih =>
    obtain ⟨ys, h⟩ := ih
    exact ⟨ys, List.append_assoc .. ▸ whole.next h⟩

/-- What holds of more statements once one is put before them holds of more once several
are. -/
theorem Whole.append {P : List Terminal → Prop} (h : Whole Sep .several depth xs)
    (hnext : ∀ {xs ys}, Whole Sep .one depth xs → P ys → P (xs ++ ys)) (hys : P ys) :
    P (xs ++ ys) := by
  obtain ⟨first, others, hle, hd⟩ := h
  induction others generalizing first xs with
  | nil =>
    cases hd with
    | one nested => exact hnext ⟨first, hle first (.head _), nested⟩ hys
  | cons second others ih =>
    obtain ⟨hle₁, hle₂⟩ := List.forall_mem_cons.1 hle
    cases hd with
    | more nested items =>
      rw [List.append_assoc]
      exact hnext ⟨first, hle₁, nested⟩ (ih second hle₂ items)

/-- Several statements make a script. -/
theorem Whole.script (h : Whole Sep .several depth xs) :
    ∃ stmts, (∀ stmt ∈ stmts, stmt.height ≤ depth) ∧ Derives Sep (.script stmts) xs := by
  have hscript := h.append
    (P := fun ys => ∃ stmts, (∀ stmt ∈ stmts, stmt.height ≤ depth) ∧ Derives Sep (.script stmts) ys)
    (fun ⟨stmt, hle, hd⟩ ⟨stmts, hles, hds⟩ =>
      ⟨stmt :: stmts, List.forall_mem_cons.2 ⟨hle, hles⟩, .next hd hds⟩)
    ⟨[], nofun, .finish (List.forall_mem_nil _)⟩
  rwa [List.append_nil] at hscript

/-- What is whole is begun, and more may follow it. -/
theorem Whole.begun (h : Whole Sep .several depth xs) : Begun Sep .several depth xs := by
  obtain ⟨first, others, hle, hd⟩ := id h
  obtain ⟨depth, rfl⟩ := Tree.exists_succ_of_height_le (hle first (.head _))
  exact List.append_nil xs ▸ h.append .next (.first .nothing)

/-- Items that are begun after a colon are those of a line list. -/
theorem Begun.colon_cons (h : Begun Sep .several depth xs) :
    Begun Sep .one (depth + 1) (Terminal.colon :: xs) := by
  cases xs with
  | nil =>
    obtain ⟨depth, rfl⟩ := Nat.exists_eq_succ_of_ne_zero h.depth_ne_zero
    exact .colon
  | cons x xs => exact .lineList h

/-- A front part of two texts reaches into the second one or does not. -/
theorem Terminal.prefix_append_cases (h : zs <+: xs ++ ys) :
    zs <+: xs ∧ zs ≠ xs ∨ ∃ rest, zs = xs ++ rest ∧ rest <+: ys := by
  rcases List.prefix_or_prefix_of_prefix h (List.prefix_append xs ys) with hp | ⟨rest, rfl⟩
  · by_cases he : zs = xs
    · exact .inr ⟨[], by simp [he], List.nil_prefix⟩
    · exact .inl ⟨hp, he⟩
  · exact .inr ⟨rest, rfl, (List.prefix_append_right_inj xs).1 h⟩

/-- Separators before a statement that is begun are begun with it. -/
theorem Begun.separators {seps : List Terminal} (hs : ∀ x ∈ seps, Sep x)
    (h : Begun Sep .one depth xs) : Begun Sep .one depth (seps ++ xs) := by
  induction seps with
  | nil => exact h
  | cons x seps ih =>
    obtain ⟨hx, hs⟩ := List.forall_mem_cons.1 hs
    exact .separator hx (ih hs)

/-- What the first terminals of a phrase are, if its statements are no higher than the
depth: those of a statement are begun unless they are all of it, and others always are. -/
def Phrase.Begins (Sep : Terminal → Prop) (depth : Nat) (xs zs : List Terminal) : Phrase → Prop
  | .statement stmt | .nested stmt => stmt.height ≤ depth → xs ≠ zs → Begun Sep .one depth xs
  | .items stmts | .script stmts =>
    depth ≠ 0 → (∀ stmt ∈ stmts, stmt.height ≤ depth) → Begun Sep .several depth xs

/-- The first terminals of a keyword, a head and a body are begun. -/
theorem Begun.of_prefix_headed {keyword name : String} {body : Stmt}
    (known : keyword = "map" ∨ keyword = "cmd") (hle : body.height ≤ depth)
    (hbody : ∀ {ys}, ys <+: zs → ys ≠ zs → Begun Sep .one depth ys)
    (hp : xs <+: word keyword :: head name :: zs) (hne : xs ≠ word keyword :: head name :: zs) :
    Begun Sep .one (depth + 1) xs := by
  simp only [List.prefix_cons_iff] at hp
  rcases hp with rfl | ⟨_, rfl, rfl | ⟨ys, rfl, hp⟩⟩
  · exact .nothing
  · obtain ⟨depth, rfl⟩ := Tree.exists_succ_of_height_le hle
    exact .keyword known
  · exact .body known name (hbody hp fun he => hne (he ▸ rfl))

/-- **The first terminals of whatever is derived are begun.** -/
theorem Derives.begun {p : Phrase} (hd : Derives Sep p zs) (hp : xs <+: zs) :
    p.Begins Sep depth xs zs := by
  induction hd generalizing xs depth with
  | switch option ends =>
    intro hle hne
    obtain ⟨depth, rfl⟩ := Tree.exists_succ_of_height_le hle
    simp only [List.prefix_cons_iff, List.prefix_nil] at hp
    rcases hp with rfl | ⟨_, rfl, rfl | ⟨_, rfl, rfl | ⟨_, rfl, rfl⟩⟩⟩
    · exact .nothing
    · exact .set
    · exact .option option
    · exact absurd rfl hne
  | setting option value ends =>
    intro hle hne
    obtain ⟨depth, rfl⟩ := Tree.exists_succ_of_height_le hle
    simp only [List.prefix_cons_iff, List.prefix_nil] at hp
    rcases hp with rfl | ⟨_, rfl, rfl | ⟨_, rfl, rfl | ⟨_, rfl, rfl | ⟨_, rfl, rfl⟩⟩⟩⟩
    · exact .nothing
    · exact .set
    · exact .option option
    · exact .value option value
    · exact absurd rfl hne
  | @binding keys body zs nested ih =>
    intro hle hne
    obtain ⟨depth, rfl⟩ := Tree.exists_succ_of_height_le hle
    have hbody : body.height ≤ depth := Nat.le_of_succ_le_succ hle
    exact .of_prefix_headed (.inl rfl) hbody (fun hp => ih hp hbody) hp hne
  | @definition name body zs nested ih =>
    intro hle hne
    obtain ⟨depth, rfl⟩ := Tree.exists_succ_of_height_le hle
    have hbody : body.height ≤ depth := Nat.le_of_succ_le_succ hle
    exact .of_prefix_headed (.inr rfl) hbody (fun hp => ih hp hbody) hp hne
  | call args free ends =>
    intro hle hne
    obtain ⟨depth, rfl⟩ := Tree.exists_succ_of_height_le hle
    simp only [List.prefix_cons_iff, List.prefix_concat_iff] at hp
    rcases hp with rfl | ⟨_, rfl, rfl | hp⟩
    · exact .nothing
    · exact absurd rfl hne
    · obtain ⟨first, -, rfl⟩ := List.prefix_map_iff.1 hp
      exact .call first free
  | line g text =>
    intro hle hne
    obtain ⟨depth, rfl⟩ := Tree.exists_succ_of_height_le hle
    simp only [List.prefix_cons_iff, List.prefix_nil] at hp
    rcases hp with rfl | ⟨_, rfl, rfl | ⟨_, rfl, rfl | ⟨_, rfl, rfl⟩⟩⟩
    · exact .nothing
    · exact .sigil g
    · exact .line g text
    · exact absurd rfl hne
  | block g text ends =>
    intro hle hne
    obtain ⟨depth, rfl⟩ := Tree.exists_succ_of_height_le hle
    simp only [List.prefix_cons_iff, List.prefix_nil] at hp
    rcases hp with rfl | ⟨_, rfl, rfl | ⟨_, rfl, rfl | ⟨_, rfl, rfl | ⟨_, rfl, rfl |
      ⟨_, rfl, rfl⟩⟩⟩⟩⟩
    · exact .nothing
    · exact .sigil g
    · exact .openBlock g
    · exact .blockText g text
    · exact .block g text
    · exact absurd rfl hne
  | @bracedList first others zs last items ends ih =>
    intro hle hne
    obtain ⟨depth, rfl⟩ := Tree.exists_succ_of_height_le hle
    have hitems := Tree.height_list_le_iff.1 hle
    obtain ⟨depth, rfl⟩ := Tree.exists_succ_of_height_le (hitems first (.head _))
    have hend : zs ++ [closeBraces, last] = (zs ++ [closeBraces]) ++ [last] := by simp
    rw [hend] at hne hp
    simp only [List.prefix_cons_iff, List.prefix_concat_iff] at hp
    rcases hp with rfl | ⟨_, rfl, rfl | ⟨_, rfl, rfl | rfl | hp⟩⟩
    · exact .nothing
    · exact .colon
    · exact absurd rfl hne
    · exact .closed ⟨first, others, hitems, items⟩
    · exact .bracedList (ih hp (Nat.succ_ne_zero depth) hitems)
  | @lineList first others zs items ih =>
    intro hle hne
    obtain ⟨depth, rfl⟩ := Tree.exists_succ_of_height_le hle
    have hitems := Tree.height_list_le_iff.1 hle
    obtain ⟨depth, rfl⟩ := Tree.exists_succ_of_height_le (hitems first (.head _))
    simp only [List.prefix_cons_iff, List.prefix_concat_iff] at hp
    rcases hp with rfl | ⟨ys, rfl, rfl | hp⟩
    · exact .nothing
    · exact absurd rfl hne
    · exact (ih hp (Nat.succ_ne_zero depth) hitems).colon_cons
  | @nested stmt seps zs separate statement ih =>
    intro hle hne
    obtain ⟨depth, rfl⟩ := Tree.exists_succ_of_height_le hle
    rcases prefix_append_cases hp with ⟨hp, -⟩ | ⟨rest, rfl, hrest⟩
    · exact List.append_nil xs ▸ .separators (fun x hx => separate x (hp.subset hx)) .nothing
    · exact .separators separate (ih hrest hle fun he => hne (he ▸ rfl))
  | @one stmt zs nested ih =>
    intro hdepth hle
    have hstmt := hle stmt (.head _)
    by_cases he : xs = zs
    · exact Whole.begun (.first ⟨stmt, hstmt, he ▸ nested⟩)
    · exact .first (ih hp hstmt he)
  | @more first second others ys zs nested items ih₁ ih₂ =>
    intro hdepth hle
    obtain ⟨hle₁, hle₂⟩ := List.forall_mem_cons.1 hle
    rcases prefix_append_cases hp with ⟨hp, hne⟩ | ⟨rest, rfl, hrest⟩
    · exact .first (ih₁ hp hle₁ hne)
    · exact .next ⟨first, hle₁, nested⟩ (ih₂ hrest hdepth hle₂)
  | finish separate =>
    intro hdepth _
    obtain ⟨depth, rfl⟩ := Nat.exists_eq_succ_of_ne_zero hdepth
    exact .first (List.append_nil xs ▸ .separators (fun x hx => separate x (hp.subset hx)) .nothing)
  | @next stmt stmts ys zs nested script ih₁ ih₂ =>
    intro hdepth hle
    obtain ⟨hle₁, hle₂⟩ := List.forall_mem_cons.1 hle
    rcases prefix_append_cases hp with ⟨hp, hne⟩ | ⟨rest, rfl, hrest⟩
    · exact .first (ih₁ hp hle₁ hne)
    · exact .next ⟨stmt, hle₁, nested⟩ (ih₂ hrest hdepth hle₂)

/-- Terminals that a script may open with, its statements no higher than the depth. -/
def Opens (Sep : Terminal → Prop) (depth : Nat) (xs : List Terminal) : Prop :=
  ∃ ys stmts, (∀ stmt ∈ stmts, stmt.height ≤ depth) ∧ Derives Sep (.script stmts) (xs ++ ys)

/-- The first terminals of what a script may open with are such again. -/
theorem Opens.front (h : Opens Sep depth ys) (hp : xs <+: ys) : Opens Sep depth xs := by
  obtain ⟨zs, stmts, hle, hd⟩ := h
  obtain ⟨rest, rfl⟩ := hp
  exact ⟨rest ++ zs, stmts, hle, List.append_assoc .. ▸ hd⟩

/-- What a script may open with is begun, if there is any depth. -/
theorem Opens.begun (h : Opens Sep depth xs) (hdepth : depth ≠ 0) :
    Begun Sep .several depth xs := by
  obtain ⟨ys, stmts, hle, hd⟩ := h
  exact hd.begun (List.prefix_append xs ys) hdepth hle

/-- What is begun opens a script. -/
theorem Begun.opens (hsep : Sep Terminal.separator) (h : Begun Sep .several depth xs) :
    Opens Sep depth xs := by
  obtain ⟨ys, hwhole⟩ := h.completes hsep
  obtain ⟨stmts, hle, hd⟩ := hwhole.script
  exact ⟨ys, stmts, hle, hd⟩

end RcScript
