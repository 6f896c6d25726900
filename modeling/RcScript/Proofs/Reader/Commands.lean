/-
# Only the scanner refuses a command

The tokens of a command come in an order that the scanner keeps by itself: a sigil,
then a text and a newline marker, or braces with a text between them and a separator.
So wherever reading comes to a command, whatever it must find next is there, and if a
command cannot be read it is for a fault of the scanner (`proceeds_exec`).  Both are
put together in `tokens_orderly`.

The order is a matter of the scanner's steps and is shown in `RcScript.Proofs.Scanner.Orderly`;
here it is read off at a reader instead of a scanner.  So the readings of the other kinds of
statements have failures of their own, and the reading of a command has none: the messages
about commands that only the reader could give are never given.

`tokens_orderly` says both in one statement.  The tokens of any run are orderly, whatever
it was asked.  And wherever the scans of a script have led, a statement that begins there
with a sigil, behind any separators, is read to its end or meets a fault of the scanner;
that the reader got there by reading is not assumed.
-/

import RcScript.Proofs.Reader.Proceeds
import RcScript.Proofs.Reader.Derived
import RcScript.Proofs.Scanner.Orderly
import Mathlib.Data.List.Permutation

namespace RcScript

open Scanner

variable {r r' : Reader} {s t u : Scanner} {source filename : String}

namespace Parse

/-- A token of the kind that is needed is passed, or the scanner halts. -/
theorem proceeds_taken (h : r.At s) {kind : TokenKind} (hk : r.token.kind = kind)
    (hne : kind ≠ .endOfInput) (what : Expectation) :
    Proceeds (expect kind what) r
      (fun _ r' => r'.At r.scanner ∧ r'.scansLeft < r.scansLeft) Reader.Halts := by
  unfold Proceeds
  rw [expect_of_kind hk]
  refine (proceeds_advance h (hk ▸ hne) false).mono ?_ fun _ _ => id
  rintro _ r₁ ⟨-, h₁, hlt⟩
  rw [ask_false, ← h.scanner] at h₁
  exact ⟨h₁, hlt⟩

/-- **After a sigil the text of a command is there**, and a separator before what
comes next. -/
theorem proceeds_commandText (h : r.At s) (ho : s.owed = 0) (hm : s.mode = .sigil)
    (what : Expectation) {next : Token → Parse Stmt} {Q : Stmt → Reader → Prop}
    (hnext : ∀ text r', r'.Live → r'.scansLeft < r.scansLeft → r'.token.kind = .semicolon →
      Proceeds (next text) r' Q Reader.Halts) :
    Proceeds (if r.token.kind = .openBraces then do
        let _ ← advance false
        let text ← expect .command .commandText
        let _ ← expect .closeBraces .closingBraces
        let text ← pure text
        next text
      else do
        let text ← expect .command what
        next text) r Q Reader.Halts := by
  rcases h.step.command_of_sigil ho hm with ⟨hk, ho₁, hm₁⟩ | ⟨hk, -, ho₁, -⟩ | ⟨-, hf⟩
  · have hbraces : r.token.kind = .openBraces := hk
    rw [if_pos hbraces]
    refine (proceeds_advance h (hbraces ▸ nofun) false).bind ?_
    rintro _ r₁ ⟨-, h₁, lt₁⟩
    rw [ask_false, ← h.scanner] at h₁
    rcases h₁.step.command_of_block ho₁ hm₁ with ⟨hk₁, -, ho₂, hm₂, cs, rest⟩ | ⟨-, hf⟩
    · refine (proceeds_taken h₁ hk₁ nofun _).bind ?_
      rintro text r₂ ⟨h₂, lt₂⟩
      obtain ⟨hk₂, ho₃, hm₃⟩ := h₂.step.closeBraces_of_rest ho₂ hm₂ rest
      refine (proceeds_taken h₂ hk₂ nofun _).bind ?_
      rintro _ r₃ ⟨h₃, lt₃⟩
      rcases h₃.step.separator_of_terminator ho₃ hm₃ with ⟨hk₃, -⟩ | ⟨-, hf⟩
      · have lt : r₃.scansLeft < r.scansLeft := by omega
        exact hnext text r₃ ⟨_, h₃⟩ lt hk₃
      · exact absurd h₃.fault_eq_none hf
    · exact absurd h₁.fault_eq_none hf
  · have hcommand : r.token.kind = .command := hk
    rw [if_neg (by rw [hcommand]; nofun)]
    refine (proceeds_taken h hcommand nofun _).bind ?_
    rintro text r₁ ⟨h₁, lt⟩
    have hnewline : r₁.token.kind = .semicolon :=
      congrArg (fun t : Scanner => t.token.kind) (h₁.step.eq_of_owed ho₁)
    exact hnext text r₁ ⟨_, h₁⟩ lt hnewline
  · exact absurd h.fault_eq_none hf

/-- **A command is read, or the scanner halts.** -/
theorem proceeds_exec (h : r.At s) (hk : r.token.kind = .sigil) :
    Proceeds exec r (fun stmt r' => (∃ g text, stmt = .exec g text) ∧ r.Advances r')
      Reader.Halts := by
  obtain ⟨g, hg⟩ : ∃ g : Sigil, r.token.text = g.text := by
    have hs := h.token_sound
    rwa [Token.Sound, hk] at hs
  have hne : r.token.kind ≠ .endOfInput := by simp [hk]
  have hsigil := h.step.poised_of_sigil (h.valid.fault_eq_none h.live) hk
  refine (proceeds_advance h hne false).bind ?_
  rintro _ r₁ ⟨rfl, h₁, lt₁⟩
  rw [ask_false, ← h.scanner] at h₁
  refine Proceeds.token_bind ?_
  refine proceeds_commandText h₁ hsigil.owed hsigil.mode _ ?_
  rintro text r₂ ⟨s₂, h₂⟩ lt₂ hk₂
  refine (proceeds_taken h₂ hk₂ (by decide) _).bind ?_
  rintro _ r₃ ⟨h₃, lt₃⟩
  have hexec : (Tree.exec? r.token.text text.text : Except BuildError Stmt) =
      .ok (.exec g text.text) := by
    rw [Tree.exec?, hg, Sigil.ofText?_text]
  have lt : r₃.scansLeft < r.scansLeft := by omega
  rw [hexec]
  exact proceeds_pure ⟨⟨g, text.text, rfl⟩, ⟨_, h₃⟩, lt⟩

/-- What a statement comes to is decided after the separators before it. -/
theorem statement_of_separators {seps : List Token} {depth : Nat}
    (hs : separators r = .ok seps r') (hk : r'.token.kind ≠ .endOfInput) :
    statement (depth + 1) r = (do
      let stmt ← statementAt (nested (statement depth))
      complete stmt
      return some stmt : Parse (Option Stmt)) r' := by
  rw [statement]
  change EStateM.bind separators _ r = _
  rw [EStateM.bind, hs]
  change (if r'.token.kind = .endOfInput then _ else _ : Parse (Option Stmt)) r' = _
  rw [if_neg hk]

/-- Where a sigil is ahead the statement is a command. -/
theorem statementAt_of_sigil (hk : r.token.kind = .sigil) (item : Owner → Parse Stmt) :
    statementAt item r = exec r := by
  unfold statementAt
  change EStateM.bind token _ r = exec r
  simp only [EStateM.bind, token, hk]

/-- **A statement that proves to be a command is read as one**, or the scanner halts. -/
theorem ends_statement_of_sigil {seps : List Token} (depth : Nat)
    (hs : separators r = .ok seps r') (h : r'.At s) (hk : r'.token.kind = .sigil) :
    Ends r' (fun found _ => ∃ g text, found = some (.exec g text)) Reader.Halts
      (statement (depth + 1) r) := by
  rw [statement_of_separators hs (by simp [hk])]
  refine Proceeds.completed ?_
  unfold Proceeds
  rw [statementAt_of_sigil hk]
  refine (proceeds_exec h hk).mono ?_ fun _ _ => id
  rintro _ r₁ ⟨⟨g, text, rfl⟩, -⟩
  exact ⟨g, text, rfl⟩

/-- Wherever the scans of a script have led, the separators there lead to a token. -/
theorem exists_at_of_separators {flags : List Bool} {seps : List Token}
    (hr : r.scanner = (start source filename).scans flags) (hs : separators r = .ok seps r')
    (hk : r'.token.kind ≠ .endOfInput) : ∃ t, r'.At t := by
  obtain ⟨s, hv, hd, hlook⟩ := exists_look_eq_scans source filename flags
  have hscanner : r.scanner = s.look := hr.trans hlook
  cases hf : s.look.fault with
  | none =>
    obtain ⟨-, t, -, -, ht⟩ := past_of_separators ⟨hscanner, hv, hd, hf⟩ hs
    exact ⟨t, ht⟩
  | some fault =>
    -- a scanner that has met a fault is at the end, and no separator is passed there
    have hend : r.token.kind = .endOfInput := by
      have hdone : s.look.done = true := hv.look.halted (by simp [hf])
      rw [Reader.token, hscanner]
      exact (done_look_iff hd).1 hdone
    have hstay : separators r = .ok [] r := manyWhile_of_not_more (by simp [hend])
    obtain ⟨-, rfl⟩ : [] = seps ∧ r = r' := by simpa [hstay] using hs
    exact absurd hend hk

end Parse

/-- **The tokens of a script are orderly, whatever the flags**, and only a lexical fault
cuts them off.  So wherever a statement is read that proves to be a command, it is read
as one, unless the scanner halts with a lexical fault. -/
theorem tokens_orderly (source filename : String) :
    (∀ flags, Orderly
      (∃ fault, ((start source filename).tokens flags).2.fault = some fault ∧
        fault.category = .lexical)
      ((start source filename).tokens flags).1) ∧
    ∀ (flags : List Bool) (depth : Nat) (r entry : Reader) (seps : List Token),
      r.scanner = (start source filename).scans flags →
      Parse.separators r = .ok seps entry → entry.token.kind = .sigil →
      (∃ g text r', Parse.statement (depth + 1) r = .ok (some (.exec g text)) r') ∨
        ∃ fault r', Parse.statement (depth + 1) r = .error (.fault fault) r' ∧
          fault.category = .lexical ∧ r'.scanner.fault = some fault := by
  constructor
  · intro flags
    have hlists := lists_start source filename flags
    have horder := hlists.orderly (.nothing (.inl rfl))
    refine horder.imp fun hf => ?_
    obtain ⟨t, hv, hd, step⟩ := hlists.exists_step (valid_ofText source filename) rfl
    obtain ⟨fault, hfault⟩ := Option.ne_none_iff_exists'.1 hf
    exact ⟨fault, hfault, (step.of_fault (hv.fault_eq_none hd) hfault).1⟩
  · intro flags depth r entry seps hr hs hk
    obtain ⟨t, ht⟩ := Parse.exists_at_of_separators hr hs (by simp [hk])
    have hends := Parse.ends_statement_of_sigil depth hs ht hk
    generalize Parse.statement (depth + 1) r = result at hends ⊢
    cases hends with
    | @ok _ r' _ holds =>
      obtain ⟨g, text, rfl⟩ := holds
      exact .inl ⟨g, text, r', rfl⟩
    | @error _ r' _ fails =>
      obtain ⟨fault, rfl, hfault, hlexical, -⟩ := fails
      exact .inr ⟨fault, r', rfl, hlexical, hfault⟩

/-- A command on a line that the script ends with: no line break follows its text. -/
theorem tokens_orderly_shell :
    let r := Reader.start "$ls" unnamed
    Parse.separators r = .ok [] r ∧ r.token.kind = .sigil ∧
      ((∃ g text r', Parse.statement 1 r = .ok (some (.exec g text)) r') ∨
        ∃ fault r', Parse.statement 1 r = .error (.fault fault) r' ∧
          fault.category = .lexical ∧ r'.scanner.fault = some fault) := by
  intro r
  have hk : (Reader.start "$ls" unnamed).token.kind = .sigil := by cbv
  have hs : Parse.separators r = .ok [] r := by
    refine Parse.manyWhile_of_not_more ?_
    rw [hk]
    rfl
  exact ⟨hs, hk, (tokens_orderly "$ls" unnamed).2 [] 0 r r [] rfl hs hk⟩

end RcScript
