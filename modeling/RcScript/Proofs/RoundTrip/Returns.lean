/-
# Canonical text has no carriage returns to lose

The carriage returns of a canonical script are those in the texts of its
statements (`Stmt.count_scriptText`), and the statements that are derived from
some terminals have cost what the terminals have (`Derives.sum_returns`).  So a
script in canonical form cannot read as statements whose texts take a line break
along: for each of them one more would be needed (`settled_of_parse`).

To count is enough because nothing adds a carriage return: every text of a statement is a
piece of the source, and the pieces of different texts do not overlap.  What was read
therefore has at most the carriage returns that the source has, and a command that has
lost one accounts for one that is in no text at all.

The carriage returns of a statement are counted kind by kind, over the terminals of its
production (`Derives.sum_returns`).  A canonical script adds none of its own: what it puts
between texts are spaces, line breaks, braces and semicolons.
-/

import RcScript.Proofs.Scanner.Returns
import RcScript.Proofs.Session.Script
import RcScript.Proofs.Stmt.Written

namespace RcScript

namespace Stmt

/-- Whether one node is a command whose text would take the line break along. -/
def loses : Stmt → Bool
  | .exec _ text => takesBreak text
  | _ => false

/-- The carriage returns that a statement has cost: those in its canonical text,
and one for each command that has lost one. -/
def returns (stmt : Stmt) : Nat := (text stmt).toList.count '\r' + stmt.walk.countP loses

/-- The nodes of some statements that have lost a carriage return are those of each of them. -/
theorem countP_walkAll (stmts : List Stmt) :
    (Tree.walkAll stmts).countP loses = (stmts.map fun stmt => stmt.walk.countP loses).sum := by
  rw [Tree.walkAll_eq, List.countP_flatMap]
  rfl

/-- What statements have cost is what their texts have and what their nodes have lost. -/
theorem sum_returns (stmts : List Stmt) :
    (stmts.map returns).sum = (stmts.map fun stmt => (text stmt).toList.count '\r').sum +
      (stmts.map fun stmt => stmt.walk.countP loses).sum := by
  induction stmts with
  | nil => rfl
  | cons stmt stmts ih =>
    simp only [List.map_cons, List.sum_cons, ih, returns]
    omega

/-- A setting has cost what its option and its value have. -/
theorem returns_set (option value : String) :
    returns (.set option value) = option.toList.count '\r' + value.toList.count '\r' := by
  by_cases hv : value = ""
  · subst hv
    rw [returns, toList_text_switch]
    simp [Tree.walk, loses]
  · rw [returns, toList_text_set hv]
    simp [Tree.walk, loses]

/-- A binding has cost what its keys and its body have. -/
theorem returns_map (keys : String) (body : Stmt) :
    returns (.map keys body) = keys.toList.count '\r' + returns body := by
  rw [returns, returns, toList_text_map]
  simp [Tree.walk, loses, Nat.add_assoc]

/-- A definition has cost what its name and its body have. -/
theorem returns_cmd (name : String) (body : Stmt) :
    returns (.cmd name body) = name.toList.count '\r' + returns body := by
  rw [returns, returns, toList_text_cmd]
  simp [Tree.walk, loses, Nat.add_assoc]

/-- A call has cost what its name and its arguments have. -/
theorem returns_call (name : String) (args : List String) :
    returns (.call name args) =
      name.toList.count '\r' + (args.map fun arg => arg.toList.count '\r').sum := by
  rw [returns, toList_text_call]
  simp [Tree.walk, loses, List.count_flatMap, Function.comp_def]

/-- A command has cost what its text, read as the text of a command, has. -/
theorem returns_exec (g : Sigil) (command : String) :
    returns (.exec g command) = RcScript.returns .command command := by
  have hg : g.char ≠ '\r' := by cases g <;> decide
  cases hf : fitsBlock command with
  | true =>
    rw [returns, toList_text_block hf]
    simp [Tree.walk, loses, RcScript.returns, takesBreak, hf, hg]
  | false =>
    rw [returns, toList_text_line hf]
    simp [Tree.walk, loses, RcScript.returns, takesBreak, hf, hg]

/-- A list has cost what its items have. -/
theorem returns_list (first : Stmt) (others : List Stmt) :
    returns (.list first others) = ((first :: others).map returns).sum := by
  rw [returns, toList_text_list]
  have htext : (List.flatMap (fun stmt => ' ' :: (text stmt).toList) others).count '\r' =
      (others.map fun stmt => (text stmt).toList.count '\r').sum := by
    rw [List.count_flatMap]
    exact congrArg List.sum (List.map_congr_left fun stmt _ => List.count_cons_of_ne (by decide))
  have hwalk : (Tree.walk (.list first others)).countP loses =
      first.walk.countP loses + (others.map fun stmt => stmt.walk.countP loses).sum := by
    rw [Tree.walk, List.countP_cons_of_neg (by simp [loses]), List.countP_append, countP_walkAll]
  have hclose : [' ', '}', '}', ';'].count '\r' = 0 := by decide
  have hopen : ∀ cs, (':' :: '{' :: '{' :: ' ' :: cs).count '\r' = cs.count '\r' := fun cs => by
    simp
  rw [hwalk, hopen, List.count_append, List.count_append, htext, hclose, List.map_cons,
    List.sum_cons, sum_returns, returns]
  omega

end Stmt

/-- The carriage returns that the statements of a phrase have cost. -/
def Phrase.returns : Phrase → Nat
  | .statement stmt => stmt.returns
  | .nested stmt => stmt.returns
  | .items stmts => (stmts.map Stmt.returns).sum
  | .script stmts => (stmts.map Stmt.returns).sum

open Terminal in
/-- **The statements of a phrase have cost what its terminals have.** -/
theorem Derives.sum_returns {p : Phrase} {xs : List Terminal} (h : Derives IsSeparator p xs) :
    sumReturns xs = p.returns := by
  induction h with
  | switch option ends =>
    simp only [sumReturns_cons, sumReturns_nil, returns_word, IsEnd.returns_eq (.inl ends)]
    rw [Phrase.returns, Stmt.returns_set]
    simp
  | setting option value ends =>
    simp only [sumReturns_cons, sumReturns_nil, returns_word, IsEnd.returns_eq (.inl ends)]
    rw [Phrase.returns, Stmt.returns_set]
    simp
  | @binding keys body xs nested ih =>
    rw [sumReturns_cons, sumReturns_cons, ih, returns_head]
    exact (Nat.zero_add _).trans (Stmt.returns_map keys body).symm
  | @definition name body xs nested ih =>
    rw [sumReturns_cons, sumReturns_cons, ih, returns_head]
    exact (Nat.zero_add _).trans (Stmt.returns_cmd name body).symm
  | call args free ends =>
    rw [sumReturns_cons, sumReturns_append, sumReturns_cons, sumReturns_nil, sumReturns_words,
      returns_word, IsEnd.returns_eq (.inl ends)]
    exact (Stmt.returns_call _ args).symm
  | line g text =>
    rw [sumReturns_cons, sumReturns_cons, sumReturns_cons, sumReturns_nil, returns_sigil,
      returns_command, IsEnd.returns_eq (.inr rfl), Nat.zero_add]
    exact (Stmt.returns_exec g text).symm
  | block g text ends =>
    simp only [sumReturns_cons, sumReturns_nil, returns_sigil, returns_command, returns_openBraces,
      returns_closeBraces, IsEnd.returns_eq ends, Nat.zero_add, Nat.add_zero]
    exact (Stmt.returns_exec g text).symm
  | bracedList items ends ih =>
    simp only [sumReturns_cons, sumReturns_append, sumReturns_nil, returns_colon,
      returns_openBraces, returns_closeBraces, IsEnd.returns_eq ends, Nat.zero_add,
      Nat.add_zero, ih]
    exact (Stmt.returns_list _ _).symm
  | lineList items ih =>
    simp only [sumReturns_cons, sumReturns_append, sumReturns_nil, returns_colon,
      IsEnd.returns_eq (.inr rfl), Nat.zero_add, Nat.add_zero, ih]
    exact (Stmt.returns_list _ _).symm
  | nested separate statement ih =>
    rw [sumReturns_append, sumReturns_separators separate, ih, Nat.zero_add]
    rfl
  | one nested ih =>
    rw [ih]
    rfl
  | more nested items ih₁ ih₂ =>
    rw [sumReturns_append, ih₁, ih₂]
    rfl
  | finish separate => exact sumReturns_separators separate
  | next nested script ih₁ ih₂ =>
    rw [sumReturns_append, ih₁, ih₂]
    rfl

/-- The carriage returns of a canonical script are those of its statements. -/
theorem Stmt.count_scriptText (stmts : List Stmt) :
    (scriptText stmts).toList.count '\r' =
      (stmts.map fun stmt => (text stmt).toList.count '\r').sum := by
  cases stmts with
  | nil => rfl
  | cons stmt stmts =>
    rw [scriptText, List.map_cons, toList_intercalate_cons (d := '\n') rfl, List.count_append,
      List.flatMap_map, List.count_flatMap, List.map_cons, List.sum_cons]
    exact congrArg (_ + List.sum ·)
      (List.map_congr_left fun stmt _ => List.count_cons_of_ne (by decide))

/-- A statement is settled where no node of it has lost a carriage return. -/
theorem Stmt.settled_of_countP_eq_zero {stmt : Stmt} (h : stmt.walk.countP loses = 0) :
    stmt.Settled := by
  intro g command hn
  have hl : takesBreak command = false := by
    simpa [loses] using List.countP_eq_zero.1 h _ hn
  rw [takesBreak, Bool.and_eq_false_iff, Bool.not_eq_false'] at hl
  exact hl

/-- **A text does not read as statements that take a line break along** if it has no
carriage returns but theirs: it has none to lose for them. -/
theorem settled_of_parse {source filename : String} {stmts : List Stmt}
    (h : parse source filename = .ok stmts)
    (hcount : source.toList.count '\r' ≤
      (stmts.map fun stmt => (Stmt.text stmt).toList.count '\r').sum) :
    ∀ stmt ∈ stmts, stmt.Settled := by
  obtain ⟨xs, t, hd, hr, -⟩ := derives_of_parse h
  have hle := hr.sum_returns_le (Scanner.valid_ofText _ _) rfl
    (hd.kind_ne fun _ hx => Terminal.IsSeparator.kind_eq hx)
  have hrest : (Scanner.ofText source filename).rest = source.toList := rfl
  rw [hd.sum_returns, Phrase.returns, Stmt.sum_returns, hrest] at hle
  have hzero : (stmts.map fun stmt => stmt.walk.countP Stmt.loses).sum = 0 := by omega
  intro stmt hs
  refine Stmt.settled_of_countP_eq_zero ?_
  exact List.sum_eq_zero_iff_forall_eq_nat.1 hzero _ (List.mem_map_of_mem hs)

/-- **A canonical script does not read as statements that take a line break
along.** -/
theorem settled_of_parse_scriptText {stmts : List Stmt} {filename : String}
    (h : parse (Stmt.scriptText stmts) filename = .ok stmts) : ∀ stmt ∈ stmts, stmt.Settled :=
  settled_of_parse h (Nat.le_of_eq (Stmt.count_scriptText stmts))

end RcScript
