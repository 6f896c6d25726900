/-
# More text mends no malformed statement

Each step of reading withstands more text: what a statement fails with on a script, it
fails with on a longer one too, unless the end of the script was reached
(`consumes_statement`).  The end stands for a line break where a line list is open, so
there a setting or a call may be complete; only after the keyword of a setting, a binding
or a definition the line break that is not there cannot stand, and the failure is one of
a malformed script although more text could mend it.

A command is the one statement that is not read token by token here.  Its tokens come in an
order of the scanner's, so the readers may be apart in the middle of it, where the end of
the shorter script is met inside the text; what counts is that both come out with a
command (`TakesBlock`, `TakesLine`), and that the readers are tied, or the first one at
its end, once it is over.

The kinds of statements come in the order in which they are needed.  Settings and calls are
words and an end, and the judgments for single steps put them together.  Bindings and
definitions, and lists, take an assumption on the statements within and are then a keyword
or a colon before it.  What is left is the induction on the depth (`consumes_statement`),
in which a statement at depth nothing is refused on both scripts.

A failure for the depth is left out everywhere.  It is one of a malformed script, but
whether it comes depends on how deep the reader stands and not on what is ahead, so
nothing has to be shown of it here.
-/

import RcScript.Proofs.Reader.Commands
import RcScript.Proofs.Reader.Extended

namespace RcScript

open Scanner Reader

variable {r r' r₁ r₁' r₂ : Reader} {more : List Char} {place : Position} {P : Token → Prop}

namespace Reader

/-- Two readers in the middle of a command, coupled unless the first one is at its end. -/
def Within (more : List Char) (place : Position) (r r' : Reader) : Prop :=
  Coupled more place r r' ∧ r.scanner.mode ≠ .sigil ∨ r.Late place

/-- Coupled readers that pass a token stay within a command, unless the text of one comes next.
-/
theorem Coupled.within_of_passes {begins : Bool} (h : Coupled more place r r')
    (hp : r.Passes begins r₁) (hp' : r'.Passes begins r₁') (hm : r₁.scanner.mode ≠ .sigil) :
    Within more place r₁ r₁' := by
  rcases h.passes hp hp' with ⟨coupled, -⟩ | atEnd | touching | ⟨late, -⟩
  · exact .inl ⟨coupled, hm⟩
  · exact .inr atEnd.toLate
  · exact .inr touching.late
  · exact .inr late

/-- Readers within a command stay so behind a token of it. -/
theorem Within.passes {begins : Bool} (h : Within more place r r')
    (hk : r.token.kind ≠ .endOfInput) (hp : r.Passes begins r₁) (hp' : r'.Passes begins r₁')
    (hk₁ : r₁.token.kind ≠ .sigil) : Within more place r₁ r₁' := by
  rcases h with ⟨coupled, hm⟩ | late
  · rcases coupled.passes hp hp' with ⟨coupled, plain⟩ | atEnd | touching | ⟨late, -⟩
    · exact .inl ⟨coupled, fun hm₁ => hk₁ (plain hm hm₁)⟩
    · exact .inr atEnd.toLate
    · exact .inr touching.late
    · exact .inr late
  · exact .inr (late.passes hk hp).toLate

end Reader

namespace Parse

/-- The last token of a command is passed. -/
theorem tracks_of_within {α : Type} {a : α} {begins : Bool} (h : Within more place r r')
    (hk : r.token.kind ≠ .endOfInput) (hp : r.Passes begins r₁) (hp' : r'.Passes begins r₁') :
    Tracks more place (fun _ _ => True) (.ok a r₁) (.ok a r₁') := by
  rcases h with ⟨coupled, hm⟩ | late
  · rcases coupled.passes hp hp' with ⟨coupled, plain⟩ | atEnd | touching | ⟨-, hm'⟩
    · exact .tied ⟨coupled, plain hm⟩ trivial
    · exact .ceases (.ok atEnd trivial)
    · exact .touching touching trivial
    · exact absurd hm' hm
  · exact .ceases (.ok (late.passes hk hp) trivial)

/-- A token of a known kind is passed. -/
theorem consumes_pass (kind : TokenKind) (hk : kind ≠ .sigil) (begins : Bool) :
    Consumes more place (fun t => t.kind = kind) (fun _ _ => True) (advance begins) :=
  (consumes_advance begins).weaken fun _ ht => ht.symm ▸ hk

/-- The token that has ended a repetition is passed. -/
theorem consumes_stop (kind : TokenKind) (hk : kind ≠ .sigil) (begins : Bool) :
    Consumes more place (fun t => decide (t.kind ≠ kind) = false) (fun _ _ => True)
      (advance begins) :=
  (consumes_pass kind hk begins).weaken fun t ht => by simpa using ht

/-- The value of a setting is passed. -/
theorem consumes_value {option : String} :
    Consumes more place (fun t => t.kind ≠ .semicolon) (fun _ _ => True)
      (Token.text <$> expect .word (.valueOrEnd option)) :=
  (consumes_expect_word fun _ ht hs => absurd hs ht).map fun _ _ => id

/-- A setting withstands more text. -/
theorem consumes_setting :
    Consumes more place (fun t => t.kind = .word) (fun _ _ => True) setting := by
  refine (consumes_pass .word nofun false).bind fun _ => ?_
  refine (consumes_expect_word fun _ _ _ => .inl rfl).toWithstands.bind fun option => ?_
  have hend : ∀ value, Withstands more place (fun _ => True) (fun _ _ => True)
      (endOfSetting option.text value) := fun value =>
    withstands_expect_semicolon.bind fun _ => withstands_pure fun _ => id
  refine (Consumes.token_bind fun next => ?_).toWithstands
  split
  · next hk =>
    refine Withstands.consumes ?_ fun t ht => by rw [ht.1, hk]; nofun
    exact (withstands_pure fun _ _ => trivial).bind hend
  · next hk => exact (consumes_value.weaken fun t ht => by rwa [ht.1]).bind hend

/-- An argument is passed. -/
theorem consumes_argument (command : String) :
    Consumes more place (fun t => t.kind ≠ .semicolon) (fun _ _ => True) (argument command) :=
  (consumes_expect_word fun _ ht hs => absurd hs ht).map fun _ _ => id

/-- A call withstands more text. -/
theorem consumes_call : Consumes more place (fun t => t.kind = .word) (fun _ _ => True) call := by
  refine (consumes_pass .word nofun false).bind fun name => ?_
  refine Withstands.bind (Consumes.manyWhile (fun r h _ => moves_argument name.text r h)
    ((consumes_argument _).weaken fun t ht => by simpa using ht)
    fun t t' hk _ hstop => by simp [hk] at hstop) fun args => ?_
  exact (consumes_stop .semicolon nofun false).toWithstands.bind fun _ =>
    withstands_pure fun _ => id

/-- After its sigil a command takes a block. -/
def TakesBlock (g : String) (r : Reader) (stmt : Stmt) (r' : Reader) : Prop :=
  ∃ r₂ r₃ r₄, r.token.kind = .openBraces ∧ r.Passes false r₂ ∧
    r₂.token.kind = .command ∧ r₂.Passes false r₃ ∧
    r₃.token.kind = .closeBraces ∧ r₃.Passes false r₄ ∧
    r₄.token.kind = .semicolon ∧ r₄.Passes false r' ∧ Tree.exec? g r₂.token.text = .ok stmt

/-- After its sigil a command takes the rest of the line. -/
def TakesLine (g : String) (r : Reader) (stmt : Stmt) (r' : Reader) : Prop :=
  ∃ r₂, r.token.kind = .command ∧ r.Passes false r₂ ∧
    r₂.token.kind = .semicolon ∧ r₂.Passes false r' ∧ Tree.exec? g r.token.text = .ok stmt

section
variable {g : String} {stmt stmt' : Stmt}

/-- A block that begins at the end of a script is past it. -/
theorem TakesBlock.atEnd (h : TakesBlock g r stmt r₁) (late : r.Late place) : r₁.Over place := by
  obtain ⟨r₂, r₃, r₄, hk₁, p₂, hk₂, p₃, hk₃, p₄, hk₄, p₅, -⟩ := h
  have late₃ := (late.passes (hk₁ ▸ nofun) p₂).toLate.passes (hk₂ ▸ nofun) p₃
  exact (late₃.toLate.passes (hk₃ ▸ nofun) p₄).toLate.passes (hk₄ ▸ nofun) p₅

/-- A command on a line that begins at the end of a script is past it. -/
theorem TakesLine.atEnd (h : TakesLine g r stmt r₁) (late : r.Late place) : r₁.Over place := by
  obtain ⟨r₂, hk₁, p₂, hk₂, p₃, -⟩ := h
  exact (late.passes (hk₁ ▸ nofun) p₂).toLate.passes (hk₂ ▸ nofun) p₃

/-- The same text makes the same command. -/
theorem exec?_unique {text text' : String} (ht : text' = text)
    (h : Tree.exec? g text = .ok stmt) (h' : Tree.exec? g text' = .ok stmt') : stmt' = stmt := by
  rw [ht, h] at h'
  exact (Except.ok.inj h').symm

/-- A block on both scripts leaves the readers tied, or the first one at its end. -/
theorem TakesBlock.tracks (h : TakesBlock g r stmt r₁) (h' : TakesBlock g r' stmt' r₁')
    (within : Within more place r r') :
    Tracks more place (fun _ _ => True) (.ok stmt r₁) (.ok stmt' r₁') := by
  obtain ⟨r₂, r₃, r₄, hk₁, p₂, hk₂, p₃, hk₃, p₄, hk₄, p₅, he⟩ := h
  obtain ⟨r₂', r₃', r₄', -, p₂', -, p₃', -, p₄', -, p₅', he'⟩ := h'
  have within₂ := within.passes (hk₁ ▸ nofun) p₂ p₂' (hk₂ ▸ nofun)
  have within₃ := within₂.passes (hk₂ ▸ nofun) p₃ p₃' (hk₃ ▸ nofun)
  have within₄ := within₃.passes (hk₃ ▸ nofun) p₄ p₄' (hk₄ ▸ nofun)
  rcases within₂ with ⟨c₂, -⟩ | late₂
  · obtain rfl := exec?_unique (congrArg Token.text c₂.token_eq) he he'
    exact tracks_of_within within₄ (hk₄ ▸ nofun) p₅ p₅'
  · have late₃ := (late₂.passes (hk₂ ▸ nofun) p₃).toLate
    exact .ceases (.ok ((late₃.passes (hk₃ ▸ nofun) p₄).toLate.passes (hk₄ ▸ nofun) p₅) trivial)

/-- A command on a line on both scripts leaves the readers tied, or the first one at its end. -/
theorem TakesLine.tracks (h : TakesLine g r stmt r₁) (h' : TakesLine g r' stmt' r₁')
    (within : Within more place r r') :
    Tracks more place (fun _ _ => True) (.ok stmt r₁) (.ok stmt' r₁') := by
  have hover : r.Late place → r₁.Over place := h.atEnd
  obtain ⟨r₂, hk₁, p₂, hk₂, p₃, he⟩ := h
  obtain ⟨r₂', -, p₂', -, p₃', he'⟩ := h'
  have within₂ := within.passes (hk₁ ▸ nofun) p₂ p₂' (hk₂ ▸ nofun)
  rcases within with ⟨c₁, -⟩ | late₁
  · obtain rfl := exec?_unique (congrArg Token.text c₁.token_eq) he he'
    exact tracks_of_within within₂ (hk₂ ▸ nofun) p₃ p₃'
  · exact .ceases (.ok (hover late₁) trivial)

end

/-- **A command withstands more text**: only the scanner refuses it, and the tokens that it
takes are those of the longer script, or the last ones of the shorter. -/
theorem consumes_exec : Consumes more place (fun t => t.kind = .sigil) (fun _ _ => True) exec := by
  refine .of_late (fun r h hk => ?_) (fun r _ hk hs => absurd (hs.symm.trans hk) nofun)
    fun r r' h hk => ?_
  · rcases h.kind with he | he <;> exact absurd (hk.symm.trans he) nofun
  obtain ⟨s, hs⟩ := h.live
  cases ha : exec r with
  | error failure r₁ => exact .ceases (.error ((proceeds_exec hs hk).of_error ha).2.nearEnd)
  | ok stmt x =>
    cases ha' : exec r' with
    | error failure r₁' => exact .refused
    | ok stmt' x' =>
      obtain ⟨r₁, p₁, hc⟩ := exec_eq_ok_iff.1 ha
      obtain ⟨r₁', p₁', hc'⟩ := exec_eq_ok_iff.1 ha'
      change TakesBlock r.token.text r₁ stmt x ∨ TakesLine r.token.text r₁ stmt x at hc
      change TakesBlock r'.token.text r₁' stmt' x' ∨ TakesLine r'.token.text r₁' stmt' x' at hc'
      rw [h.token_eq] at hc'
      have hsigil := hs.step.poised_of_sigil (hs.valid.fault_eq_none hs.live) hk
      have h₁ := hs.of_passes h.goesOn p₁
      rw [ask_false, ← hs.scanner] at h₁
      have within := h.within_of_passes p₁ p₁' (h₁.step.mode_ne_sigil hsigil.owed hsigil.mode)
      -- the longer script takes what the shorter one takes, or the shorter one is at its end
      have hkind : r₁'.token.kind = r₁.token.kind ∨ r₁.Late place :=
        within.imp (fun coupled => congrArg Token.kind coupled.1.token_eq) id
      rcases hkind with hkind | late
      · rcases hc with block | line
        · rcases hc' with block' | ⟨_, hk', -⟩
          · exact block.tracks block' within
          · obtain ⟨_, _, _, hk₁, -⟩ := block
            cases hk'.symm.trans (hkind.trans hk₁)
        · rcases hc' with ⟨_, _, _, hk', -⟩ | line'
          · obtain ⟨_, hk₁, -⟩ := line
            cases hk'.symm.trans (hkind.trans hk₁)
          · exact line.tracks line' within
      · exact .ceases (.ok (hc.elim (·.atEnd late) (·.atEnd late)) trivial)

section
variable {item : Owner → Parse Stmt} (hmoves : ∀ owner, Moves (item owner))
  (hi : ∀ owner, Consumes more place (fun _ => True) (fun _ _ => True) (item owner))
include hi

/-- A binding or a definition withstands more text if its body does. -/
theorem consumes_headed {what : Expectation} {owner : String → Owner}
    {build : String → Stmt → Stmt} (hw : what.AfterKeyword) :
    Consumes more place (fun t => t.kind = .word) (fun _ _ => True)
      (headed what owner build item) := by
  refine (consumes_pass .word nofun false).bind fun _ => ?_
  refine (Consumes.token_bind (P := fun _ => True) fun head => ?_).toWithstands
  split
  · next hk =>
    have hrefuse : Consumes more place (fun t => t = head ∧ True) (fun _ _ => False)
        (refuse (.expected what head) : Parse Unit) :=
      consumes_refuse (fun t ht => ht.1 ▸ hk) fun t ht _ => ⟨what, hw, by rw [ht.1]⟩
    refine hrefuse.bind fun _ => ?_
    exact ⟨fun _ _ => False.elim, fun _ _ _ => False.elim, fun _ _ _ => False.elim⟩
  · next hk =>
    have hk : head.kind = .word := by simpa using hk
    have hpass : Consumes more place (fun t => t = head ∧ True) (fun _ _ => True) (advance true) :=
      (consumes_pass .word nofun true).weaken fun t ht => ht.1 ▸ hk
    refine hpass.bind fun _ => ?_
    exact (hi _).toWithstands.bind fun body => withstands_pure fun _ => id

include hmoves

/-- Items are read up to where the look-ahead ends them. -/
theorem consumes_items {goes : Token → Bool} {owner : Owner} {next : Stmt → List Stmt → Parse Stmt}
    (hword : ∀ t : Token, t.kind = .word → goes t = true)
    (hnext : ∀ first others,
      Withstands more place (fun t => goes t = false) (fun _ _ => True) (next first others)) :
    Consumes more place (fun _ => True) (fun _ _ => True) (itemsThen goes (item owner) next) := by
  refine (hi owner).bind fun first => ?_
  exact (Consumes.manyWhile (fun r h _ => hmoves owner r h) ((hi owner).weaken fun _ _ => trivial)
    fun t t' hk _ hstop => absurd (hstop.symm.trans (hword t hk)) Bool.false_ne_true).bind
    (hnext first)

/-- A list withstands more text if its items do. -/
theorem consumes_list :
    Consumes more place (fun t => t.kind = .colon) (fun _ _ => True) (list item) := by
  refine (consumes_pass .colon nofun false).bind fun _ => ?_
  refine (Consumes.token_bind (P := fun _ => True) fun head => ?_).toWithstands
  split
  · next hk =>
    refine ((consumes_advance false).weaken fun t ht => by rw [ht.1, hk]; nofun).bind fun _ => ?_
    refine (consumes_items hmoves hi (fun t ht => by simp [ht]) fun first others => ?_).toWithstands
    refine (consumes_stop .closeBraces nofun false).toWithstands.bind fun _ => ?_
    exact withstands_expect_semicolon.bind fun _ => withstands_pure fun _ => id
  · refine (consumes_items hmoves hi (fun t ht => by simp [Token.isNewline, ht])
      fun first others => ?_).weaken fun _ _ => trivial
    exact withstands_expect_semicolon.bind fun _ => withstands_pure fun _ => id

/-- A statement withstands more text if those in it do. -/
theorem consumes_statementAt :
    Consumes more place (fun t => t.kind ≠ .semicolon ∧ t.kind ≠ .endOfInput) (fun _ _ => True)
      (statementAt item) := by
  refine Consumes.token_bind fun head => ?_
  have hrefuse : head.kind ≠ .word → Consumes more place
      (fun u => u = head ∧ u.kind ≠ .semicolon ∧ u.kind ≠ .endOfInput) (fun _ _ => True)
      (refuse (.unexpected head) : Parse Stmt) := fun hk =>
    consumes_refuse (fun t ht => ht.1 ▸ hk) fun t ht hs => absurd hs ht.2.1
  cases hk : head.kind with
  | word =>
    have hword : ∀ t : Token, t = head ∧ t.kind ≠ .semicolon ∧ t.kind ≠ .endOfInput →
        t.kind = .word := fun t ht => ht.1 ▸ hk
    dsimp only
    split
    · exact consumes_setting.weaken hword
    · split
      · exact (consumes_headed hi (.inr (.inl rfl))).weaken hword
      · split
        · exact (consumes_headed hi (.inr (.inr rfl))).weaken hword
        · exact consumes_call.weaken hword
  | colon => exact (consumes_list hmoves hi).weaken fun t ht => ht.1 ▸ hk
  | sigil => exact consumes_exec.weaken fun t ht => ht.1 ▸ hk
  | _ => exact hrefuse (hk ▸ nofun)

end

/-- Separators withstand more text. -/
theorem withstands_separators :
    Withstands more place P (fun _ t => decide (t.kind = .semicolon) = false) separators := by
  have hpass : Consumes more place (fun t => decide (t.kind = .semicolon) = true) (fun _ _ => True)
      (advance true) :=
    (consumes_pass .semicolon nofun true).weaken fun t ht => of_decide_eq_true ht
  refine Consumes.manyWhile (fun r h hm => ?_) hpass fun t t' _ hk' _ => decide_eq_false hk'
  exact proceeds_advance_live h (by rw [of_decide_eq_true hm]; nofun) true

/-- Where a word is ahead there are no separators to pass. -/
theorem separators_of_word (hk : r.token.kind = .word) : separators r = .ok [] r :=
  manyWhile_of_not_more (by simp [hk])

/-- A statement that must be there withstands more text as it does elsewhere. -/
theorem Consumes.nested {statement : Parse (Option Stmt)} {owner : Owner}
    (h : Consumes more place P (fun found t => found = none → t.kind = .endOfInput) statement) :
    Consumes more place P (fun _ _ => True) (nested statement owner) := by
  refine h.bind fun found => ?_
  cases found with
  | some stmt => exact withstands_pure fun _ _ => trivial
  | none =>
    have hrefuse : Consumes more place (fun t => t.kind = .endOfInput) (fun _ _ => True)
        (refuse (.endInside owner) : Parse Stmt) :=
      consumes_refuse (fun t ht => ht ▸ nofun) fun t ht hs => absurd (ht.symm.trans hs) nofun
    exact hrefuse.toWithstands.weaken fun t ht => ht rfl

/-- What is nested too deep is so with more text. -/
theorem consumes_tooDeep {α : Type} {Q : α → Token → Prop} :
    Consumes more place P Q (tooDeep : Parse α) := by
  have hnear : ∀ r : Reader, Ceases place Q ((tooDeep : Parse α) r) := fun r =>
    .error fun fault hf _ hc => by cases hf; exact absurd rfl hc
  exact .of_late (fun r _ _ => hnear r) (fun r _ _ _ => hnear r) fun r r' _ _ => .ceases (hnear r)

/-- **More text mends no statement that fails**, unless the end of the script was reached. -/
theorem consumes_statement (depth : Nat) (more : List Char) (place : Position) :
    Consumes more place (fun _ => True) (fun found t => found = none → t.kind = .endOfInput)
      (statement depth) := by
  induction depth with
  | zero => exact consumes_tooDeep
  | succ depth ih =>
    have hrest : Consumes more place (fun t => decide (t.kind = .semicolon) = false)
        (fun found t => found = none → t.kind = .endOfInput) (do
          let head ← token
          if head.kind = .endOfInput then
            return none
          else
            let stmt ← statementAt (nested (statement depth))
            complete stmt
            return some stmt) := by
      refine Consumes.token_bind fun head => ?_
      split
      · next hk =>
        refine (withstands_pure fun t ht _ => ht.1 ▸ hk).consumes fun t ht => ?_
        rw [ht.1, hk]
        nofun
      · next hk =>
        have hstatement : Consumes more place
            (fun t => t = head ∧ decide (t.kind = .semicolon) = false) (fun _ _ => True)
            (statementAt (nested (statement depth))) :=
          (consumes_statementAt (moves_nested depth) fun _ => ih.nested).weaken fun t ht =>
            ⟨of_decide_eq_false ht.2, ht.1 ▸ hk⟩
        refine hstatement.bind fun stmt => (withstands_complete stmt).bind fun _ => ?_
        exact withstands_pure fun _ _ => nofun
    refine ⟨withstands_separators.bind fun _ => hrest.toWithstands, fun r h hk _ => ?_⟩
    have hlate := hrest.late h hk (by simp [hk])
    rw [statement]
    change Ceases _ _ (EStateM.bind separators _ r)
    rw [EStateM.bind, separators_of_word hk]
    exact hlate

end Parse
end RcScript
