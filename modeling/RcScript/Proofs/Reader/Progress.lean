/-
# Every statement passes a token, or stops

Whatever stands at the look-ahead, a reader that has met no fault reads a statement,
finds the end of the script, or stops (`proceeds_statement`): each kind of statement
passes at least one token, so a statement that is read leaves fewer scans than there
were before it.  Hence the loops of reading, over separators, arguments and items, are
all ended by their look-ahead (`loopsEnd`).

That a statement passes a token is what makes nesting end: a body and an item may be read
where the statement around them has been begun, and since that has cost a token the
measure has fallen.  The lemmas for the kinds of statements take it as an assumption on the
statements within (`Moves`), and the induction on the depth discharges it.  Separators are
the exception, for they may pass no token at all.
-/

import RcScript.Proofs.Reader.Commands

namespace RcScript

variable {α : Type} {r : Reader}

namespace Parse

/-- A step that passes tokens or stops, wherever it is taken. -/
def Moves (p : Parse α) : Prop :=
  ∀ r : Reader, r.Live → Proceeds p r (fun _ => r.Advances) Reader.Stops

/-- A statement that must be there passes a token, since the end of the script is refused. -/
theorem Moves.nested {statement : Parse (Option Stmt)} {owner : Owner}
    (h : ∀ r : Reader, r.Live → Proceeds statement r
      (fun found r' => r'.Live ∧ (found ≠ none → r'.scansLeft < r.scansLeft)) Reader.Stops) :
    Moves (nested statement owner) := by
  intro r hr
  refine (h r hr).bind ?_
  rintro (_ | stmt) r₁ ⟨live, hlt⟩
  · exact proceeds_refuse live _
  · exact proceeds_pure ⟨live, hlt (Option.some_ne_none stmt)⟩

/-- An argument passes a token or stops. -/
theorem moves_argument (command : String) : Moves (argument command) := by
  intro r h
  exact (proceeds_expect h .word _ nofun).map fun _ _ => id

/-- Separators are passed, or reading stops. -/
theorem proceeds_separators (h : r.Live) :
    Proceeds separators r (fun _ r' => r'.Live ∧ r'.scansLeft ≤ r.scansLeft) Reader.Stops := by
  refine (proceeds_manyWhile (fun r h hm => ?_) h).mono ?_ fun _ _ => id
  · have hk : r.token.kind = .semicolon := by simpa using hm
    exact proceeds_advance_live h (hk ▸ nofun) true
  · rintro _ r₁ ⟨live, hle, -⟩
    exact ⟨live, hle⟩

/-- A setting passes tokens or stops. -/
theorem proceeds_setting (h : r.Live) (hk : r.token.kind ≠ .endOfInput) :
    Proceeds setting r (fun _ => r.Advances) Reader.Stops := by
  refine (proceeds_advance_live h hk false).bind fun _ r₁ h₁ => ?_
  refine (proceeds_expect h₁.live .word _ nofun).bind fun option r₂ h₂ => ?_
  have hend : ∀ (value : String) (r₃ : Reader), r.Advances r₃ →
      Proceeds (endOfSetting option.text value) r₃ (fun _ => r.Advances) Reader.Stops := by
    intro value r₃ h₃
    refine (proceeds_expect h₃.live .semicolon _ nofun).bind fun _ r₄ h₄ => ?_
    exact proceeds_pure (h₃.trans h₄)
  refine Proceeds.token_bind ?_
  split
  · exact hend "" r₂ (h₁.trans h₂)
  · have hvalue := proceeds_expect h₂.live .word (.valueOrEnd option.text) nofun
    refine (hvalue.map fun _ r₃ h₃ => ?_).bind hend
    exact (h₁.trans h₂).trans h₃

/-- A call passes tokens or stops. -/
theorem proceeds_call (h : r.Live) (hk : r.token.kind ≠ .endOfInput) :
    Proceeds call r (fun _ => r.Advances) Reader.Stops := by
  refine (proceeds_advance_live h hk false).bind fun name r₁ h₁ => ?_
  refine (proceeds_manyWhile (fun r h _ => moves_argument name.text r h) h₁.live).bind ?_
  rintro args r₂ ⟨live₂, hle, hstop⟩
  have hend : r₂.token.kind = .semicolon := by simpa using hstop
  refine (proceeds_advance_live live₂ (hend ▸ nofun) false).bind fun _ r₃ h₃ => ?_
  have hlt : r₃.scansLeft < r.scansLeft := by have := h₁.lt; have := h₃.lt; omega
  exact proceeds_pure ⟨h₃.live, hlt⟩

section
variable {item : Owner → Parse Stmt} (hi : ∀ owner, Moves (item owner))
include hi

/-- A binding or a definition passes tokens or stops. -/
theorem proceeds_headed (h : r.Live) (hk : r.token.kind ≠ .endOfInput) {what : Expectation}
    {owner : String → Owner} {build : String → Stmt → Stmt} :
    Proceeds (headed what owner build item) r (fun _ => r.Advances) Reader.Stops := by
  refine (proceeds_advance_live h hk false).bind fun _ r₁ h₁ => ?_
  refine Proceeds.token_bind ?_
  split
  · exact (proceeds_refuse (Q := fun _ _ => False) h₁.live _).bind fun _ _ => False.elim
  · next hword =>
    have hword : r₁.token.kind = .word := by simpa using hword
    refine (proceeds_advance_live h₁.live (hword ▸ nofun) true).bind fun _ r₂ h₂ => ?_
    refine (hi _ r₂ h₂.live).bind fun body r₃ h₃ => ?_
    exact proceeds_pure ((h₁.trans h₂).trans h₃)

/-- Items are read up to where the look-ahead ends them. -/
theorem proceeds_items {more : Token → Bool} {owner : Owner} (h : r.Live)
    {next : Stmt → List Stmt → Parse Stmt} {Q : Stmt → Reader → Prop}
    (hnext : ∀ first others r', r.Advances r' → more r'.token = false →
      Proceeds (next first others) r' Q Reader.Stops) :
    Proceeds (itemsThen more (item owner) next) r Q Reader.Stops := by
  refine (hi owner r h).bind fun first r₁ h₁ => ?_
  refine (proceeds_manyWhile (fun r h _ => hi owner r h) h₁.live).bind ?_
  rintro others r₂ ⟨live, hle, hstop⟩
  have hlt : r₂.scansLeft < r.scansLeft := by have := h₁.lt; omega
  exact hnext first others r₂ ⟨live, hlt⟩ hstop

/-- A list passes tokens or stops. -/
theorem proceeds_list (h : r.Live) (hk : r.token.kind ≠ .endOfInput) :
    Proceeds (list item) r (fun _ => r.Advances) Reader.Stops := by
  refine (proceeds_advance_live h hk false).bind fun _ r₁ h₁ => ?_
  refine Proceeds.token_bind ?_
  split
  · next hbraces =>
    refine (proceeds_advance_live h₁.live (hbraces ▸ nofun) false).bind fun _ r₂ h₂ => ?_
    refine proceeds_items hi h₂.live fun first others r₃ h₃ hstop => ?_
    have hclose : r₃.token.kind = .closeBraces := by simpa using hstop
    refine (proceeds_advance_live h₃.live (hclose ▸ nofun) false).bind fun _ r₄ h₄ => ?_
    refine (proceeds_expect h₄.live .semicolon _ nofun).bind fun _ r₅ h₅ => ?_
    exact proceeds_pure ((h₁.trans h₂).trans (h₃.trans (h₄.trans h₅)))
  · refine proceeds_items hi h₁.live fun first others r₂ h₂ _ => ?_
    refine (proceeds_expect h₂.live .semicolon _ nofun).bind fun _ r₃ h₃ => ?_
    exact proceeds_pure (h₁.trans (h₂.trans h₃))

/-- A statement passes tokens or stops, whatever its kind. -/
theorem proceeds_statementAt (h : r.Live) :
    Proceeds (statementAt item) r (fun _ => r.Advances) Reader.Stops := by
  refine Proceeds.token_bind ?_
  cases hk : r.token.kind with
  | word =>
    have hne : r.token.kind ≠ .endOfInput := hk ▸ nofun
    dsimp only
    split
    · exact proceeds_setting h hne
    · split
      · exact proceeds_headed hi h hne
      · split
        · exact proceeds_headed hi h hne
        · exact proceeds_call h hne
  | colon => exact proceeds_list hi h (hk ▸ nofun)
  | sigil =>
    obtain ⟨s, h⟩ := h
    exact (proceeds_exec h hk).mono (fun _ _ hQ => hQ.2) fun _ _ => .halt
  | _ => exact proceeds_refuse h _

end

/-- **A statement is read, or the end of the script is found, or reading stops.** -/
theorem proceeds_statement (depth : Nat) (h : r.Live) :
    Proceeds (statement depth) r (fun found r' => r'.Live ∧
      (found ≠ none → r'.scansLeft < r.scansLeft) ∧
      (found = none → r'.token.kind = .endOfInput)) Reader.Stops := by
  induction depth generalizing r with
  | zero => exact .error (.refl r) (.tooDeep h)
  | succ depth ih =>
    have hi : ∀ owner, Moves (nested (statement depth) owner) := fun owner =>
      Moves.nested fun r h => (ih h).mono (fun _ _ hQ => ⟨hQ.1, hQ.2.1⟩) fun _ _ => id
    refine (proceeds_separators h).bind ?_
    rintro _ r₁ ⟨live₁, hle⟩
    refine Proceeds.token_bind ?_
    split
    · next hk => exact proceeds_pure ⟨live₁, fun hn => absurd rfl hn, fun _ => hk⟩
    · refine Proceeds.completed ((proceeds_statementAt hi live₁).mono ?_ fun _ _ => id)
      rintro stmt r₂ ⟨⟨s₂, h₂⟩, lt₂⟩
      have hlt : r₂.scansLeft < r.scansLeft := by omega
      exact ⟨⟨s₂, at_complete h₂⟩, fun _ => hlt, nofun⟩

/-- **A nested statement passes a token or stops.** -/
theorem moves_nested (depth : Nat) (owner : Owner) : Moves (nested (statement depth) owner) :=
  Moves.nested fun _ h =>
    (proceeds_statement depth h).mono (fun _ _ hQ => ⟨hQ.1, hQ.2.1⟩) fun _ _ => id

/-- What the loops of reading come to is what their look-ahead asks for. -/
structure LoopsEnd (r : Reader) : Prop where
  /-- the separators before a statement -/
  separators : Repeats (fun t => t.kind = .semicolon) (advance true) r (separators r)
  /-- the arguments of a call -/
  arguments (command : String) :
    Repeats (fun t => t.kind ≠ .semicolon) (argument command) r
      (manyWhile (fun t => t.kind ≠ .semicolon) (argument command) r)
  /-- the items of a list between braces, after the first -/
  bracedItems (depth : Nat) :
    Repeats (fun t => t.kind ≠ .closeBraces) (nested (statement depth) .bracedList) r
      (manyWhile (fun t => t.kind ≠ .closeBraces) (nested (statement depth) .bracedList) r)
  /-- the items of a line list, after the first -/
  lineItems (depth : Nat) :
    Repeats (fun t => !t.isNewline) (nested (statement depth) .lineList) r
      (manyWhile (fun t => !t.isNewline) (nested (statement depth) .lineList) r)

/-- **All loops of reading end by their look-ahead**, wherever no fault has been met. -/
theorem loopsEnd (h : r.Live) : LoopsEnd r where
  separators := by
    refine repeats_manyWhile (fun r h hm => ?_) h
    have hk : r.token.kind = .semicolon := by simpa using hm
    exact proceeds_advance_live h (hk ▸ nofun) true
  arguments command := repeats_manyWhile (fun r h _ => moves_argument command r h) h
  bracedItems depth := repeats_manyWhile (fun r h _ => moves_nested depth .bracedList r h) h
  lineItems depth := repeats_manyWhile (fun r h _ => moves_nested depth .lineList r h) h

end Parse
end RcScript
