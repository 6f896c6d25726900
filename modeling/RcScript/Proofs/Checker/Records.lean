/-
# What a checker remembers

A checker keeps two registries and a list of warnings, which change with every statement
that it takes note of.  What they hold can be told from the statements alone: a registry
holds each name that was claimed, in the order of the first claims, with the script of the
last one (`Registry.Tells`), and a warning was raised by each statement that claims what a
statement before it had claimed (`Met.warnings`).  Taking note of statements keeps both
true (`Checker.Remembers.record`, `Checker.Remembers.recordAll`), whatever scripts they
come from.

A warning is data to the checker and a text to whoever reads it.  The text is written down
here once more, from the statement, its script and the script that it clashes with, and
the checker's wording is proved to be that (`Met.map_text_warnings`); a change of the
wording breaks this lemma and no other.

The statements met are a list, the latest last, so every fact is proved for one statement
more: `Met.claimed_concat`, `Met.latest_concat` and `Met.warnings_concat` say what that
adds, and the steps of the checker are compared with them.
-/

import RcScript.Checker.Basic
import Mathlib.Data.List.Infix

namespace RcScript

/-- The command that a statement defines. -/
def Tree.command? {α : Type} : Tree α → Option String
  | .cmd name _ => some name
  | _ => none

/-- The keys that a statement binds. -/
def Tree.keys? {α : Type} : Tree α → Option String
  | .map keys _ => some keys
  | _ => none

/-- A statement that a checker has met at the top of a script, and the name of the script. -/
structure Met where
  statement : Stmt
  filename : String

namespace Met

/-- The statements of a script, those before a fault if it has one. -/
def ofScript (source filename : String) : List Met :=
  (readScript source filename).statements.map fun stmt => ⟨stmt, filename⟩

/-- The names that statements claim, each where it is claimed first.  What a statement
claims is left open: the command that it defines, or the keys that it binds. -/
def claimed (claim : Stmt → Option String) (met : List Met) : List String :=
  (met.filterMap fun m => claim m.statement).eraseDups

/-- The script in which a name was claimed last. -/
def latest (claim : Stmt → Option String) (met : List Met) (name : String) : Option String :=
  (met.filter fun m => claim m.statement = some name).getLast?.map Met.filename

/-- The warning that a statement calls for when others have been met before it. -/
def warning (earlier : List Met) (m : Met) : Option Warning :=
  match m.statement with
  | .cmd name _ =>
    (latest Tree.command? earlier name).map (.commandRedefined m.filename name)
  | .map keys _ => (latest Tree.keys? earlier keys).map (.keysRebound m.filename keys)
  | _ => none

/-- The warnings that statements call for, each after those before it. -/
def warnings (met : List Met) : List Warning :=
  (met.inits.zip met).filterMap fun (earlier, m) => warning earlier m

/-- What is written of a statement that claims what has been claimed before: a code, the
script of the statement, the name that it claims and the script that claimed it last. -/
def warningText (earlier : List Met) (m : Met) : Option String :=
  match m.statement with
  | .cmd name _ => (latest Tree.command? earlier name).map fun script =>
    "LFRC001: " ++ m.filename ++ ": command '" ++ name ++ "' redefines the one from " ++ script
  | .map keys _ => (latest Tree.keys? earlier keys).map fun script =>
    "LFRC002: " ++ m.filename ++ ": key '" ++ keys ++ "' is already mapped in " ++ script
  | _ => none

/-- What is written of statements, of each after those before it. -/
def warningTexts (met : List Met) : List String :=
  (met.inits.zip met).filterMap fun (earlier, m) => warningText earlier m

variable {claim : Stmt → Option String} {met : List Met} {m : Met} {name : String}

/-! ### One more statement -/

/-- Of equal names the first one stays. -/
theorem eraseDups_concat (names : List String) (name : String) :
    (names ++ [name]).eraseDups =
      if name ∈ names then names.eraseDups else names.eraseDups ++ [name] := by
  rw [List.eraseDups_append]
  by_cases h : name ∈ names <;> simp [List.removeAll, List.eraseDups_cons, h]

/-- A statement more adds the name that it claims, unless this has been claimed before. -/
theorem claimed_concat (claim : Stmt → Option String) (met : List Met) (m : Met) :
    claimed claim (met ++ [m]) =
      match claim m.statement with
      | none => claimed claim met
      | some name =>
        if name ∈ claimed claim met then claimed claim met else claimed claim met ++ [name] := by
  rw [claimed, List.filterMap_append]
  cases hm : claim m.statement with
  | none => simp [hm, claimed]
  | some name =>
    have hlast : [m].filterMap (fun m => claim m.statement) = [name] := by simp [hm]
    rw [hlast, eraseDups_concat]
    simp only [claimed, List.mem_eraseDups]

/-- The statement that comes last is the latest to claim its name. -/
theorem latest_concat (claim : Stmt → Option String) (met : List Met) (m : Met) (name : String) :
    latest claim (met ++ [m]) name =
      if claim m.statement = some name then some m.filename else latest claim met name := by
  rw [latest, List.filter_append]
  split
  · next h => simp [h]
  · next h => simp [h, latest]

/-- The statements before the last one are the ones that it comes after. -/
theorem inits_zip_concat {α : Type} (as : List α) (a : α) :
    (as ++ [a]).inits.zip (as ++ [a]) = as.inits.zip as ++ [(as, a)] := by
  induction as with
  | nil => rfl
  | cons b as ih =>
    rw [List.cons_append, List.inits_cons, List.zip_cons_cons, List.zip_map_left, ih,
      List.map_append, List.inits_cons, List.zip_cons_cons, List.zip_map_left]
    rfl

/-- A statement more adds the warning that it calls for. -/
theorem warnings_concat (met : List Met) (m : Met) :
    warnings (met ++ [m]) = warnings met ++ (warning met m).toList := by
  rw [warnings, inits_zip_concat, List.filterMap_append, ← warnings]
  cases h : warning met m <;> simp [h]

/-! ### How warnings are worded -/

/-- The wording of a warning about a command. -/
theorem text_commandRedefined (filename name script : String) :
    (Warning.commandRedefined filename name script).text =
      "LFRC001: " ++ filename ++ ": command '" ++ name ++ "' redefines the one from "
        ++ script := by
  rw [Warning.text, Warning.code, Warning.message]
  simp only [← String.append_assoc]
  rfl

/-- The wording of a warning about keys. -/
theorem text_keysRebound (filename keys script : String) :
    (Warning.keysRebound filename keys script).text =
      "LFRC002: " ++ filename ++ ": key '" ++ keys ++ "' is already mapped in "
        ++ script := by
  rw [Warning.text, Warning.code, Warning.message]
  simp only [← String.append_assoc]
  rfl

/-- **A warning says what is written of its statement.** -/
theorem map_text_warning (earlier : List Met) (m : Met) :
    (warning earlier m).map Warning.text = warningText earlier m := by
  obtain ⟨stmt, filename⟩ := m
  cases stmt with
  | cmd name body =>
    rw [warning, warningText, Option.map_map]
    exact Option.map_congr fun script _ => text_commandRedefined filename name script
  | map keys body =>
    rw [warning, warningText, Option.map_map]
    exact Option.map_congr fun script _ => text_keysRebound filename keys script
  | _ => rfl

/-- **The warnings of statements say what is written of these**, one by one. -/
theorem map_text_warnings (met : List Met) :
    (warnings met).map Warning.text = warningTexts met := by
  rw [warnings, List.map_filterMap, warningTexts]
  exact List.filterMap_congr fun (earlier, m) _ => map_text_warning earlier m

/-- What is written of one statement more comes last. -/
theorem warningTexts_concat (met : List Met) (m : Met) :
    warningTexts (met ++ [m]) = warningTexts met ++ (warningText met m).toList := by
  rw [← map_text_warnings, warnings_concat, List.map_append, map_text_warnings,
    ← map_text_warning]
  cases warning met m <;> rfl

end Met

namespace Registry

variable {claim : Stmt → Option String} {met : List Met} {m : Met} {name : String} {r : Registry}

/-- A registry tells what statements have claimed: each name where it was claimed first,
with the script that claimed it last. -/
structure Tells (claim : Stmt → Option String) (met : List Met) (r : Registry) : Prop where
  names : r.names = Met.claimed claim met
  find? : ∀ name, r.find? name = Met.latest claim met name

/-- The empty registry tells that nothing has been claimed. -/
theorem tells_empty (claim : Stmt → Option String) : Tells claim [] empty := ⟨rfl, fun _ => rfl⟩

/-- A registry tells the same after a statement that claims nothing. -/
theorem Tells.skip (h : Tells claim met r) (hm : claim m.statement = none) :
    Tells claim (met ++ [m]) r := by
  refine ⟨?_, fun name => ?_⟩
  · rw [h.names, Met.claimed_concat, hm]
  · rw [h.find?, Met.latest_concat, hm, if_neg nofun]

/-- **A name that is put down is told as claimed.** -/
theorem Tells.put (h : Tells claim met r) (hm : claim m.statement = some name) :
    Tells claim (met ++ [m]) (r.put name m.filename) := by
  refine ⟨?_, fun wanted => ?_⟩
  · rw [names_put, h.names, Met.claimed_concat, hm]
  · rw [find?_put, h.find?, Met.latest_concat, hm]
    simp only [Option.some.injEq, eq_comm]

end Registry

namespace Checker

variable {met : List Met} {c : Checker}

/-- A checker remembers the statements that it has met. -/
structure Remembers (met : List Met) (c : Checker) : Prop where
  warnings : c.warnings = Met.warnings met
  commands : Registry.Tells Tree.command? met c.commands
  bindings : Registry.Tells Tree.keys? met c.bindings

/-- A checker that has seen no script remembers none. -/
theorem remembers_fresh : Remembers [] fresh :=
  ⟨rfl, Registry.tells_empty _, Registry.tells_empty _⟩

/-- A checker that remembers what it has met objects to what was claimed before. -/
theorem Remembers.objection (h : Remembers met c) (m : Met) :
    c.objection m.filename m.statement = Met.warning met m := by
  obtain ⟨stmt, filename⟩ := m
  cases stmt with
  | cmd name body => exact congrArg (Option.map _) (h.commands.find? name)
  | map keys body => exact congrArg (Option.map _) (h.bindings.find? keys)
  | _ => rfl

/-- What a statement defines is remembered, if the warnings are. -/
theorem Remembers.define {m : Met} (hw : c.warnings = Met.warnings (met ++ [m]))
    (hc : Registry.Tells Tree.command? met c.commands)
    (hb : Registry.Tells Tree.keys? met c.bindings) :
    Remembers (met ++ [m]) (c.define m.filename m.statement) := by
  obtain ⟨stmt, filename⟩ := m
  cases stmt with
  | cmd name body => exact ⟨hw, hc.put rfl, hb.skip rfl⟩
  | map keys body => exact ⟨hw, hc.skip rfl, hb.put rfl⟩
  | _ => exact ⟨hw, hc.skip rfl, hb.skip rfl⟩

/-- **A checker that takes note of a statement remembers it**, and raises the warning that
it calls for. -/
theorem Remembers.record (h : Remembers met c) (m : Met) :
    Remembers (met ++ [m]) (c.record m.filename m.statement).checker ∧
      (c.record m.filename m.statement).events = (Met.warning met m).toList.map .warned := by
  have hwarnings := Met.warnings_concat met m
  rw [Checker.record, h.objection m]
  cases hw : Met.warning met m with
  | none =>
    rw [hw, Option.toList_none, List.append_nil, ← h.warnings] at hwarnings
    exact ⟨.define hwarnings.symm h.commands h.bindings, rfl⟩
  | some warning =>
    rw [hw, Option.toList_some, ← h.warnings] at hwarnings
    exact ⟨.define hwarnings.symm h.commands h.bindings, rfl⟩

/-- **A checker remembers all that a script delivers.** -/
theorem Remembers.recordAll (h : Remembers met c) (filename : String)
    (deliveries : List Delivery) :
    Remembers (met ++ deliveries.map fun delivery => ⟨delivery.statement, filename⟩)
      (recordAll filename deliveries c).checker := by
  induction deliveries generalizing met c with
  | nil => rwa [List.map_nil, List.append_nil]
  | cons delivery deliveries ih =>
    have hfirst := (h.record ⟨delivery.statement, filename⟩).1
    rw [List.map_cons, List.append_cons]
    exact ih hfirst

/-- **A checker remembers the statements of a script**, those before a fault too. -/
theorem Remembers.checkText (h : Remembers met c) (source filename : String) :
    Remembers (met ++ Met.ofScript source filename) (c.checkText source filename).checker := by
  rw [Met.ofScript, Run.statements, List.map_map]
  exact h.recordAll filename (readScript source filename).deliveries

end Checker
end RcScript
