/-
# Checking scripts

A `Checker` reads scripts one after the other and remembers which commands they define and
which keys they bind.  `Checker.checkText` checks a text: it says what happened as a
`Report`, which holds the result, the events on the way to it and the checker afterwards.
A script with a fault still contributes the statements before the fault.

A registry remembers in which script a name was last defined.  Names are listed in the
order in which they were first defined: defining one again changes its script and not its
place (`Registry.names_put`), and what is then found under it is the new script
(`Registry.find?_put`).  There are two registries, one for commands and one for keys, and
neither looks at what is in the other.

A statement is checked by `Checker.record`: the warning that it calls for is decided from
the registries as they are, and only then it is noted.  Statements in other statements are
not checked.  That all this can be told from the statements alone, whatever scripts they
come from, is shown in `RcScript.Proofs.Checker.Records`.
-/

import RcScript.Checker.Event
import RcScript.Session.RoundTrip

namespace RcScript

/-- Names with the script that last defined them, in the order of their first
definition. -/
structure Registry where
  entries : List (String × String)
deriving DecidableEq, Repr, Inhabited

namespace Registry

/-- The registry without names. -/
def empty : Registry := ⟨[]⟩

/-- The names, in order. -/
def names (r : Registry) : List String := r.entries.map Prod.fst

/-- The script that last defined a name. -/
def find? (r : Registry) (name : String) : Option String := r.entries.lookup name

/-- Changes the script of a name where it stands, or adds it at the end. -/
def putIn (name script : String) : List (String × String) → List (String × String)
  | [] => [(name, script)]
  | (other, old) :: entries =>
    if other = name then (other, script) :: entries
    else (other, old) :: putIn name script entries

/-- Notes that a script defines a name. -/
def put (r : Registry) (name script : String) : Registry := ⟨putIn name script r.entries⟩

/-- A name is looked up in the first entry, and then in the others. -/
theorem lookup_cons (name other script : String) (entries : List (String × String)) :
    List.lookup name ((other, script) :: entries) =
      if name = other then some script else entries.lookup name := by
  rw [List.lookup_cons]
  by_cases h : name = other
  · rw [h, beq_self_eq_true, if_pos rfl]
  · rw [beq_eq_false_iff_ne.2 h, if_neg h]

/-- **A definition is found under its name**, and others stay as they are. -/
theorem find?_put (r : Registry) (name script wanted : String) :
    (r.put name script).find? wanted = if wanted = name then some script else r.find? wanted := by
  obtain ⟨entries⟩ := r
  simp only [find?, put]
  induction entries with
  | nil => rw [putIn, lookup_cons]
  | cons entry entries ih =>
    obtain ⟨other, old⟩ := entry
    by_cases ho : other = name
    · subst ho
      rw [putIn, if_pos rfl, lookup_cons, lookup_cons]
      split <;> rfl
    · rw [putIn, if_neg ho, lookup_cons, lookup_cons, ih]
      by_cases hw : wanted = name
      · rw [hw, if_neg (Ne.symm ho), if_pos rfl, if_pos rfl]
      · rw [if_neg hw, if_neg hw]

/-- Putting a name into a list keeps the names before it. -/
theorem map_fst_putIn (name script : String) (entries : List (String × String)) :
    (putIn name script entries).map Prod.fst =
      if name ∈ entries.map Prod.fst then entries.map Prod.fst
      else entries.map Prod.fst ++ [name] := by
  induction entries with
  | nil => rfl
  | cons entry entries ih =>
    obtain ⟨other, old⟩ := entry
    by_cases ho : other = name
    · simp [putIn, ho]
    · rw [putIn, if_neg ho, List.map_cons, List.map_cons, ih]
      by_cases hm : name ∈ entries.map Prod.fst
      · rw [if_pos hm, if_pos (List.mem_cons_of_mem _ hm)]
      · rw [if_neg hm, if_neg (by simpa [Ne.symm ho] using hm), List.cons_append]

/-- **A name keeps its place**, and a new one comes last. -/
theorem names_put (r : Registry) (name script : String) :
    (r.put name script).names = if name ∈ r.names then r.names else r.names ++ [name] :=
  map_fst_putIn name script r.entries

end Registry

/-- What earlier scripts leave behind. -/
structure Checker where
  /-- all warnings, the earliest first -/
  warnings : List Warning
  /-- the commands and the script that defined each last -/
  commands : Registry
  /-- the key sequences and the script that bound each last -/
  bindings : Registry
deriving DecidableEq, Repr, Inhabited

/-- A result, what there was to say on the way to it, and the checker after it. -/
structure Report (α : Type) where
  result : α
  events : List Event
  checker : Checker

namespace Checker

/-- A checker that has seen no script. -/
def fresh : Checker := ⟨[], Registry.empty, Registry.empty⟩

/-- Remembers a warning. -/
def warn (c : Checker) (warning : Warning) : Checker :=
  { c with warnings := c.warnings ++ [warning] }

/-- The warning that a statement of a script calls for: it defines a command, or
binds keys, that are taken. -/
def objection {α : Type} (c : Checker) (filename : String) : Tree α → Option Warning
  | .cmd name _ => (c.commands.find? name).map (.commandRedefined filename name)
  | .map keys _ => (c.bindings.find? keys).map (.keysRebound filename keys)
  | _ => none

/-- Remembers what a statement of a script defines. -/
def define {α : Type} (c : Checker) (filename : String) : Tree α → Checker
  | .cmd name _ => { c with commands := c.commands.put name filename }
  | .map keys _ => { c with bindings := c.bindings.put keys filename }
  | _ => c

/-- Takes note of a statement of a script: raises the warning that it calls for
and remembers what it defines. -/
def record {α : Type} (c : Checker) (filename : String) (stmt : Tree α) : Report Unit :=
  match c.objection filename stmt with
  | some warning => ⟨(), [.warned warning], (c.warn warning).define filename stmt⟩
  | none => ⟨(), [], c.define filename stmt⟩

/-- Takes note of statements as a script delivers them. -/
def recordAll (filename : String) : List Delivery → Checker → Report Unit
  | [], c => ⟨(), [], c⟩
  | delivery :: deliveries, c =>
    let first := c.record filename delivery.statement
    let others := recordAll filename deliveries first.checker
    ⟨(),
      delivery.completed.map .completed ++ first.events ++ .delivered delivery.statement
        :: others.events,
      others.checker⟩

/-- Checks a text under a name. -/
def checkText (c : Checker) (source filename : String) : Report (Except Failure (List Stmt)) :=
  let run := readScript source filename
  let recorded := recordAll filename run.deliveries c
  let last := match run.failure with
    | some _ => run.unfinished.map .completed
    | none => [.finished filename run.statements]
  ⟨run.outcome, recorded.events ++ last, recorded.checker⟩

end Checker

end RcScript
