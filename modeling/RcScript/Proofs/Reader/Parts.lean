/-
# What kinds of statements share

Some steps are parts of more than one kind of statement, or come after either branch
of one: a head and a body (`Parse.headed`), the items of a list (`Parse.itemsThen`),
the end of a setting and the end of a command.  Each has a name of its own here, so
that what is said of reading is said of each part once.

The functions that read statements are not written in terms of these parts, so each comes
with an equation, true by definition, that puts the part in its place.  A binding and a
definition differ in what they call their head and in the node that they make; both are
`headed`.  What a part does when it succeeds is an equivalence like those of
`RcScript.Proofs.Reader.Outcomes`, and the judgments about reading have one lemma for it.
-/

import RcScript.Proofs.Reader.Steps

namespace RcScript
namespace Parse

variable {r r' : Reader} {stmt : Stmt} {item : Owner → Parse Stmt}

/-- A statement with a head, a word, and a body. -/
def headed (what : Expectation) (owner : String → Owner) (build : String → Stmt → Stmt)
    (item : Owner → Parse Stmt) : Parse Stmt := do
  let _ ← advance false
  let head ← token
  if head.kind ≠ .word then
    refuse (.expected what head)
  let _ ← advance true
  let body ← item (owner head.text)
  return build head.text body

/-- A binding is keys and a body. -/
theorem binding_eq : binding item = headed .keys .keyBinding .map item := rfl

/-- A definition is a name and a body. -/
theorem definition_eq : definition item = headed .commandName .commandBody .cmd item := rfl

/-- The items of a list, and what comes after them. -/
def itemsThen (goes : Token → Bool) (item : Parse Stmt)
    (next : Stmt → List Stmt → Parse Stmt) : Parse Stmt := do
  let first ← item
  let others ← manyWhile goes item
  next first others

/-- The end of a setting, once its value is known. -/
def endOfSetting (option value : String) : Parse Stmt := do
  let _ ← expect .semicolon (.endOfSetting option)
  return .set option value

/-- The end of a command, once its text is known. -/
def endOfCommand (sigil text : String) : Parse Stmt := do
  let _ ← expect .semicolon .endOfCommand
  match Tree.exec? sigil text with
  | .ok stmt => return stmt
  | .error error => throw (.build error)

/-- A head and a body are read: the keyword, a word, and a statement that begins at once. -/
theorem headed_eq_ok_iff {what : Expectation} {owner : String → Owner}
    {build : String → Stmt → Stmt} :
    headed what owner build item r = .ok stmt r' ↔
    ∃ r₁ r₂ body, r.Passes false r₁ ∧ r₁.token.kind = .word ∧ r₁.Passes true r₂ ∧
      item (owner r₁.token.text) r₂ = .ok body r' ∧ stmt = build r₁.token.text body := by
  simp only [headed, bind_eq_ok_iff, token_eq_ok_iff, advance_eq_ok_iff]
  constructor
  · rintro ⟨_, r₁, ⟨h₁, -⟩, _, _, ⟨rfl, rfl⟩, h⟩
    split at h
    · simp only [bind_eq_ok_iff, refuse_ne_ok, false_and, exists_false] at h
    · next hk =>
      simp only [bind_eq_ok_iff, pure_eq_ok_iff, advance_eq_ok_iff] at h
      obtain ⟨_, r₂, ⟨h₂, -⟩, body, _, hb, rfl, rfl⟩ := h
      exact ⟨r₁, r₂, body, h₁, by simpa using hk, h₂, hb, rfl⟩
  · rintro ⟨r₁, r₂, body, h₁, hk, h₂, hb, rfl⟩
    refine ⟨_, r₁, ⟨h₁, rfl⟩, _, _, ⟨rfl, rfl⟩, ?_⟩
    rw [if_neg (by simp [hk])]
    simp only [bind_eq_ok_iff, pure_eq_ok_iff, advance_eq_ok_iff]
    exact ⟨_, r₂, ⟨h₂, rfl⟩, body, _, hb, rfl, rfl⟩

/-- The end of a command is read: a separator, if the command can be built. -/
theorem endOfCommand_eq_ok_iff {sigil text : String} :
    endOfCommand sigil text r = .ok stmt r' ↔
    r.token.kind = .semicolon ∧ r.Passes false r' ∧ Tree.exec? sigil text = .ok stmt := by
  simp only [endOfCommand, bind_eq_ok_iff, expect_eq_ok_iff]
  constructor
  · rintro ⟨_, _, ⟨hk, h, -⟩, he⟩
    cases hs : (Tree.exec? sigil text : Except BuildError Stmt) with
    | ok _ =>
      rw [hs] at he
      obtain ⟨rfl, rfl⟩ := pure_eq_ok_iff.1 he
      exact ⟨hk, h, rfl⟩
    | error _ =>
      rw [hs] at he
      cases he
  · rintro ⟨hk, h, hs⟩
    refine ⟨_, _, ⟨hk, h, rfl⟩, ?_⟩
    rw [hs]
    rfl

end Parse
end RcScript
