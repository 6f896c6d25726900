/-
# What reading completes

A reader notes each statement when it is complete, those that stand in it before it.  What a
step has noted can be told from its value alone (`Parse.Completes`): passing tokens notes
nothing, a repetition notes what its steps note one after the other, a statement notes its
parts while it is read, and then itself (`Parse.completes_statement`).

The judgment is about values, not about tokens, which makes it independent of everything
that is known of scanning: a step that succeeds has completed a list of statements that is
a function of its value.  For a statement that is read the function is its postorder; for
the kinds of statements it is the postorders of the parts, since the statement itself is
noted by its caller.
-/

import RcScript.Proofs.Reader.Outcomes
import RcScript.Proofs.Stmt.Postorder

namespace RcScript

variable {α : Type} {r r₁ r₂ : Reader} {stmts more : List Stmt} {begins : Bool}

/-- From one reader to another some statements have been completed, in order. -/
def Reader.Notes (stmts : List Stmt) (r r' : Reader) : Prop :=
  r'.completed = stmts.reverse ++ r.completed

namespace Reader

/-- Between a reader and itself nothing is completed. -/
theorem Notes.refl (r : Reader) : Notes [] r r := rfl

/-- What is completed on two stretches is completed on both, in order. -/
theorem Notes.trans (h₁ : Notes stmts r r₁) (h₂ : Notes more r₁ r₂) :
    Notes (stmts ++ more) r r₂ := by
  rw [Notes, h₂, h₁, List.reverse_append, List.append_assoc]

/-- One statement is completed as its postorder says. -/
theorem notes_singleton_iff {stmt : Stmt} :
    Notes ([stmt].flatMap Tree.postorder) r r₁ ↔ Notes stmt.postorder r r₁ := by
  rw [List.flatMap_singleton]

/-- A token that is passed before makes no difference. -/
theorem Passes.notes (hp : r.Passes begins r₁) (h : Notes stmts r₁ r₂) : Notes stmts r r₂ := by
  rw [Notes, h, hp.completed_eq]

/-- A token that is passed behind makes no difference. -/
theorem Notes.passes (h : Notes stmts r r₁) (hp : r₁.Passes begins r₂) : Notes stmts r r₂ :=
  hp.completed_eq.trans h

end Reader

namespace Parse

open Reader

variable {p : Parse α} {f : α → List Stmt} {item : Owner → Parse Stmt}

/-- A step that succeeds has completed statements that can be told from its value. -/
def Completes (p : Parse α) (f : α → List Stmt) : Prop :=
  ∀ ⦃r a r'⦄, p r = .ok a r' → Notes (f a) r r'

/-! ### What completes nothing -/

/-- To pass a token completes nothing. -/
theorem completes_advance (begins : Bool) : Completes (advance begins) fun _ => [] :=
  fun _ _ _ h => (Notes.refl _).passes (advance_eq_ok_iff.1 h).1

/-- An argument completes nothing. -/
theorem completes_argument (command : String) : Completes (argument command) fun _ => [] :=
  fun _ _ _ h => (Notes.refl _).passes (argument_eq_ok_iff.1 h).2.1

/-- **A repetition completes what its steps do**, one after the other. -/
theorem Completes.manyWhile (hp : Completes p f) (more : Token → Bool) :
    Completes (manyWhile more p) fun as => as.flatMap f := by
  intro r as r' h
  fun_induction Parse.manyWhile more p r generalizing as r' with
  | case1 | case2 => cases h
  | case3 r hm a r₁ h₁ hlt as r₂ h₂ ih =>
    cases h
    exact (hp h₁).trans (ih h₂)
  | case4 r hm a r₁ h₁ hlt =>
    cases h
    exact (hp h₁).trans (Notes.refl r₁)
  | case5 r hm =>
    cases h
    exact Notes.refl r

/-- Where no step completes anything the repetition does not. -/
theorem Completes.manyWhile_nil (hp : Completes p fun _ => []) (more : Token → Bool) :
    Completes (Parse.manyWhile more p) fun _ => [] := by
  intro r as r' h
  have hnotes : Notes (as.flatMap fun _ => []) r r' := hp.manyWhile more h
  rwa [List.flatMap_eq_nil_iff.2 fun _ _ => rfl] at hnotes

/-- Separators complete nothing. -/
theorem completes_separators : Completes separators fun _ => [] :=
  (completes_advance true).manyWhile_nil _

/-! ### Statements -/

/-- A setting has no parts to complete. -/
theorem completes_setting : Completes setting fun stmt => stmt.parts.flatMap Tree.postorder := by
  intro r stmt r' h
  obtain ⟨r₁, r₂, h₁, -, h₂, ⟨-, h₃, rfl⟩ | ⟨r₃, -, h₃, -, h₄, rfl⟩⟩ := setting_eq_ok_iff.1 h
  · exact h₁.notes (h₂.notes ((Notes.refl r₂).passes h₃))
  · exact h₁.notes (h₂.notes (h₃.notes ((Notes.refl r₃).passes h₄)))

/-- A call has no parts to complete. -/
theorem completes_call : Completes call fun stmt => stmt.parts.flatMap Tree.postorder := by
  intro r stmt r' h
  obtain ⟨r₁, args, r₂, h₁, hargs, h₂, rfl⟩ := call_eq_ok_iff.1 h
  exact h₁.notes (((completes_argument r.token.text).manyWhile_nil _ hargs).passes h₂)

/-- A command has no parts. -/
theorem parts_of_exec? {g text : String} {stmt : Stmt} (h : Tree.exec? g text = .ok stmt) :
    stmt.parts = [] := by
  rw [Tree.exec?] at h
  split at h <;> cases h
  rfl

/-- A command has no parts to complete. -/
theorem completes_exec : Completes exec fun stmt => stmt.parts.flatMap Tree.postorder := by
  intro r stmt r' h
  change Notes (stmt.parts.flatMap Tree.postorder) r r'
  obtain ⟨r₁, h₁, ⟨r₂, r₃, r₄, -, h₂, -, h₃, -, h₄, -, h₅, he⟩ | ⟨r₂, -, h₂, -, h₃, he⟩⟩ :=
    exec_eq_ok_iff.1 h <;> rw [parts_of_exec? he, List.flatMap_nil]
  · exact h₁.notes (h₂.notes (h₃.notes (h₄.notes ((Notes.refl r₄).passes h₅))))
  · exact h₁.notes (h₂.notes ((Notes.refl r₂).passes h₃))

section
variable (hi : ∀ owner, Completes (item owner) Tree.postorder)
include hi

/-- A binding or a definition completes its body. -/
theorem completes_headed {what : Expectation} {owner : String → Owner}
    {build : String → Stmt → Stmt} (hparts : ∀ head body, (build head body).parts = [body]) :
    Completes (headed what owner build item) fun stmt => stmt.parts.flatMap Tree.postorder := by
  intro r stmt r' h
  obtain ⟨r₁, r₂, body, h₁, -, h₂, hbody, rfl⟩ := headed_eq_ok_iff.1 h
  simp only [hparts]
  exact h₁.notes (h₂.notes (notes_singleton_iff.2 (hi _ hbody)))

/-- The items of a list are completed in order, whichever form it has. -/
theorem completes_list :
    Completes (list item) fun stmt => stmt.parts.flatMap Tree.postorder := by
  intro r stmt r' h
  obtain ⟨r₁, r₂, first, others, r₃, h₁, rfl, ⟨r₄, r₅, -, h₂, hfirst, hothers, h₃, -, h₄⟩ |
    ⟨-, hfirst, hothers, -, h₂⟩⟩ := list_eq_ok_iff.1 h
  · have hitems := (hi .bracedList hfirst).trans ((hi .bracedList).manyWhile _ hothers)
    exact h₁.notes (h₂.notes ((hitems.passes h₃).passes h₄))
  · have hitems := (hi .lineList hfirst).trans ((hi .lineList).manyWhile _ hothers)
    exact h₁.notes (hitems.passes h₂)

/-- **While a statement is read its parts are completed**, from left to right. -/
theorem completes_statementAt :
    Completes (statementAt item) fun stmt => stmt.parts.flatMap Tree.postorder := by
  intro r stmt r' h
  rcases statementAt_eq_ok_iff.1 h with
    ⟨-, -, h⟩ | ⟨-, -, h⟩ | ⟨-, -, h⟩ | ⟨-, -, h⟩ | ⟨-, h⟩ | ⟨-, h⟩
  · exact completes_setting h
  · exact completes_headed hi (fun _ _ => rfl) (binding_eq ▸ h)
  · exact completes_headed hi (fun _ _ => rfl) (definition_eq ▸ h)
  · exact completes_call h
  · exact completes_list hi h
  · exact completes_exec h

end

/-- **A statement that is read is completed as its postorder says**, and the end of the script
completes nothing. -/
theorem completes_statement (depth : Nat) :
    Completes (statement depth) fun found => found.toList.flatMap Tree.postorder := by
  induction depth with
  | zero =>
    intro r found r' h
    rw [statement, tooDeep] at h
    cases h
  | succ depth ih =>
    intro r found r' h
    have hi : ∀ owner, Completes (nested (statement depth) owner) Tree.postorder :=
      fun _ _ _ _ h => notes_singleton_iff.1 (ih (nested_eq_ok_iff.1 h))
    obtain ⟨seps, r₁, hseps, ⟨-, rfl, rfl⟩ | ⟨stmt, r₂, -, hstmt, rfl, rfl⟩⟩ :=
      statement_eq_ok_iff.1 h
    · exact completes_separators hseps
    · have hitself : Notes [stmt] r₂ { r₂ with completed := stmt :: r₂.completed } := rfl
      have hnotes := ((completes_separators hseps).trans (completes_statementAt hi hstmt)).trans
        hitself
      rw [List.nil_append, ← Tree.postorder_eq] at hnotes
      exact notes_singleton_iff.2 hnotes

end Parse
end RcScript
