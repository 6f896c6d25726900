/-
# Reading whole scripts

A session reads a script statement by statement.  Here its run is followed along
a derivation: it delivers the statements that the derivation has
(`run_of_script`), and whatever it delivers without a failure is derived
(`derived_of_run`).  For a whole script this says when `parse` succeeds
(`parse_of_derives`, `derives_of_parse`).

The two lemmas are inverse to each other, and most of what is proved of scripts uses both:
from a script that is accepted one gets a derivation, something is proved of the
derivation or of its tokens, and if another script is wanted it is shown to be accepted by
the derivation that it has.  The run itself is a recursion that ends by its measure; it is
unfolded here once for each outcome of a call (`run_of_next_error`, `run_of_next_none`,
`run_of_next_some`) and nowhere else.

The two directions rest on what is known of a single statement
(`RcScript.Proofs.Reader.Complete`, `RcScript.Proofs.Reader.Derived`) and add what a run
does between statements.  Before a statement there may be separators, which the reader
skips, and behind the last one there may be some, which a derivation has in its last
production; a run passes them without delivering anything (`At.run_of_separators`).  A
statement that is delivered has cost a scan, so the measure of the run falls and the
induction goes through.
-/

import RcScript.Proofs.Reader.Complete
import RcScript.Session.RoundTrip

namespace RcScript

open Terminal Scanner

variable {s t : Scanner} {a b : Session} {stmt : Stmt} {stmts : List Stmt}

namespace Session

/-- A session that has met no fault, before the next token of a scanner. -/
structure At (a : Session) (s : Scanner) : Prop where
  reader : a.reader.At s
  sticky : a.sticky = none

/-- A session before the next token of a scanner has met no fault. -/
theorem At.fault_eq_none (h : a.At s) : a.reader.scanner.fault = none := h.reader.fault_eq_none

/-- A session that forgets what was completed stays before the same token. -/
theorem At.forgetCompleted (h : a.At s) : a.forgetCompleted.At s :=
  ⟨⟨h.reader.scanner, h.reader.valid, h.reader.live, h.reader.sound⟩, h.sticky⟩

/-- A session stands before the first token of its script. -/
theorem at_start (source filename : String) :
    (start source filename).At (ofText source filename) :=
  ⟨⟨rfl, valid_ofText source filename, rfl, (poised_ofText source filename).fault_look⟩, rfl⟩

/-- Where no fault has been met, the next statement is read. -/
theorem At.next_of_ok {found : Option Stmt} {r : Reader} (h : a.At s)
    (hr : Parse.statement Parse.nestingLimit a.reader = .ok found r) :
    a.next = (.ok found, { a with reader := r }) := by
  have hf := h.fault_eq_none
  simp only [next, h.sticky, hf, read, hr]

/-- A failure to read the next statement is what comes of the call. -/
theorem At.next_of_error {failure : Failure} {r : Reader} (h : a.At s)
    (hr : Parse.statement Parse.nestingLimit a.reader = .error failure r) :
    ∃ b, a.next = (.error failure, b) := by
  have hf := h.fault_eq_none
  simp only [next, h.sticky, hf, read, hr]
  cases failure <;> exact ⟨_, rfl⟩

/-- What was delivered was read. -/
theorem At.of_next {found : Option Stmt} (h : a.At s) (hn : a.next = (.ok found, b)) :
    ∃ r, Parse.statement Parse.nestingLimit a.reader = .ok found r ∧
      b = { a with reader := r } := by
  have hf := h.fault_eq_none
  simp only [next, h.sticky, hf, read] at hn
  cases hr : Parse.statement Parse.nestingLimit a.reader with
  | ok found' r =>
    rw [hr] at hn
    obtain ⟨h₁, h₂⟩ := Prod.mk.inj hn
    obtain rfl := Except.ok.inj h₁
    exact ⟨r, rfl, by rw [← h₂, h.sticky]⟩
  | error failure r =>
    rw [hr] at hn
    cases failure <;> cases hn

/-- What comes next depends on what is read next. -/
theorem At.next_of_reader {r : Reader} (h : a.At s) (hb : ({ a with reader := r } : Session).At t)
    (hr : Parse.statement Parse.nestingLimit a.reader = Parse.statement Parse.nestingLimit r) :
    a.next = ({ a with reader := r } : Session).next := by
  have hf := h.fault_eq_none
  have hf' : r.scanner.fault = none := hb.fault_eq_none
  simp only [next, h.sticky, hf, hf', read, hr]

/-- A run whose next statement fails is over. -/
theorem run_of_next_error {failure : Failure} (hn : a.forgetCompleted.next = (.error failure, b)) :
    a.run = ⟨[], b.completed, some failure, b⟩ := by
  rw [run, hn]

/-- A run for which no statement is next is over. -/
theorem run_of_next_none (hn : a.forgetCompleted.next = (.ok none, b)) :
    a.run = ⟨[], b.completed, none, b⟩ := by
  rw [run, hn]

/-- A run delivers its next statement, and goes on after it. -/
theorem run_of_next_some (hn : a.forgetCompleted.next = (.ok (some stmt), b))
    (hlt : b.reader.scansLeft < a.reader.scansLeft) :
    a.run = { b.run with deliveries := ⟨b.completed, stmt⟩ :: b.run.deliveries } := by
  rw [run, hn]
  simp only [hlt, dite_true]

/-- A statement that is delivered leaves fewer scans. -/
theorem At.scansLeft_lt (h : a.At s) {r : Reader}
    (hr : Parse.statement Parse.nestingLimit a.reader = .ok (some stmt) r) :
    r.scansLeft < a.reader.scansLeft := by
  obtain ⟨⟨xs, t, hxs, hr, h'⟩, -⟩ := Parse.past_of_statement h.reader hr
  obtain ⟨x, ys, rfl, -⟩ := hxs.nested_starts
  exact h.reader.scansLeft_lt h' (hxs.kind_ne fun _ hx => hx.kind_eq) hr

/-- **A nested statement is the next delivery**, and the run goes on after it. -/
theorem At.run_of_nested (h : a.At s) {xs : List Terminal}
    (hd : Derives IsSeparator (.nested stmt) xs) (hr : Reads s xs t) (hf : t.look.fault = none)
    (hle : stmt.height ≤ Parse.nestingLimit) :
    ∃ (b : Session) (delivery : Delivery), b.At t ∧ delivery.statement = stmt ∧
      a.run = { b.run with deliveries := delivery :: b.run.deliveries } := by
  have h₀ := h.forgetCompleted
  obtain ⟨r, ha, h'⟩ := hd.isRead hr hf _ hle _ h₀.reader
  have hn := h₀.next_of_ok ha
  exact ⟨{ a.forgetCompleted with reader := r }, ⟨_, stmt⟩, ⟨h', h.sticky⟩, rfl,
    run_of_next_some hn (h₀.scansLeft_lt ha)⟩

/-- A separator makes no difference to the statement after it. -/
theorem statement_of_passes {r r' : Reader} {depth : Nat} (h : r.At s)
    (hk : r.token.kind = .semicolon) (hp : r.Passes true r') (hd : depth ≠ 0) :
    Parse.statement depth r = Parse.statement depth r' := by
  obtain ⟨depth, rfl⟩ := Nat.exists_eq_succ_of_ne_zero hd
  have hs : Parse.separators r = EStateM.map (r.token :: ·) Parse.separators r' :=
    Parse.manyWhile_of_ok (by simpa using hk) hp (h.passes_lt (hk ▸ nofun) hp)
  change EStateM.bind Parse.separators _ r = EStateM.bind Parse.separators _ r'
  rw [EStateM.bind, EStateM.bind, hs, EStateM.map]
  cases Parse.separators r' <;> rfl

/-- Two sessions whose next statement is the same have the same run. -/
theorem At.run_eq_of_next_eq (h : b.At t) (hn : a.forgetCompleted.next = b.forgetCompleted.next)
    (hlt : b.reader.scansLeft < a.reader.scansLeft) : a.run = b.run := by
  rcases hb : b.forgetCompleted.next with ⟨_ | found, c⟩
  · rw [run_of_next_error hb, run_of_next_error (hn.trans hb)]
  · cases found with
    | none => rw [run_of_next_none hb, run_of_next_none (hn.trans hb)]
    | some stmt =>
      obtain ⟨r, hr, rfl⟩ := h.forgetCompleted.of_next hb
      have hlt' := h.forgetCompleted.scansLeft_lt hr
      rw [run_of_next_some hb hlt', run_of_next_some (hn.trans hb) (Nat.lt_trans hlt' hlt)]

/-- Separators before a statement make no difference to a run. -/
theorem At.run_of_separators (h : a.At s) {seps : List Terminal} (hs : ∀ x ∈ seps, x.IsSeparator)
    (hr : Reads s seps t) (hf : t.look.fault = none) : ∃ b : Session, b.At t ∧ a.run = b.run := by
  induction seps generalizing a s with
  | nil => exact ⟨a, hr ▸ h, rfl⟩
  | cons x seps ih =>
    obtain ⟨hx, hs'⟩ := List.forall_mem_cons.1 hs
    obtain rfl : x = separator := hx
    have h₀ := h.forgetCompleted
    obtain ⟨hk, r, u, hp, hu, hr'⟩ := h₀.reader.take_separator hr hf true
    have hb : ({ a with reader := r } : Session).At u := ⟨hu, h.sticky⟩
    obtain ⟨b, hb', hrun⟩ := ih hb hs' hr'
    refine ⟨b, hb', Eq.trans ?_ hrun⟩
    refine hb.run_eq_of_next_eq ?_ (h₀.reader.passes_lt (hk ▸ nofun) hp)
    have hforget : ({ a with reader := r } : Session).forgetCompleted = { a with reader := r } := by
      have hc : r.completed = [] := hp.completed_eq
      cases r
      obtain rfl := hc
      rfl
    rw [hforget]
    exact h₀.next_of_reader ⟨hu, h₀.sticky⟩ (statement_of_passes h₀.reader hk hp (by decide))

/-- **The statements that a script is derived from are delivered**, and the run
goes on after them. -/
theorem At.run_of_script (h : a.At s) {xs : List Terminal}
    (hd : Derives IsSeparator (.script stmts) xs) (hr : Reads s xs t) (hf : t.look.fault = none)
    (hle : ∀ stmt ∈ stmts, stmt.height ≤ Parse.nestingLimit) :
    ∃ b : Session, b.At t ∧ a.run.statements = stmts ++ b.run.statements ∧
      a.run.failure = b.run.failure := by
  induction stmts generalizing a s xs with
  | nil =>
    cases hd with
    | finish separate =>
      obtain ⟨b, hb, hrun⟩ := h.run_of_separators separate hr hf
      exact ⟨b, hb, by rw [hrun]; rfl, by rw [hrun]⟩
  | cons stmt stmts ih =>
    cases hd with
    | next nested script =>
      obtain ⟨hle₁, hle₂⟩ := List.forall_mem_cons.1 hle
      obtain ⟨u, hr₁, hr₂⟩ := reads_append.1 hr
      obtain ⟨b, delivery, hb, rfl, hrun⟩ := h.run_of_nested nested hr₁ (hr₂.fault_eq_none hf) hle₁
      obtain ⟨c, hc, hs, hfail⟩ := ih hb script hr₂ hle₂
      refine ⟨c, hc, ?_, by rw [hrun, ← hfail]⟩
      rw [hrun, List.cons_append, ← hs]
      rfl

/-- At the end of the script a run is over. -/
theorem At.run_of_end (h : a.At s) (hk : s.look.token.kind = .endOfInput) :
    a.run.statements = [] ∧ a.run.failure = none := by
  have h₀ := h.forgetCompleted
  have hk₀ : a.forgetCompleted.reader.token.kind = .endOfInput := by rw [h₀.reader.token_eq, hk]
  have ha : Parse.statement Parse.nestingLimit a.forgetCompleted.reader =
      .ok none a.forgetCompleted.reader := by
    refine Parse.statement_eq_ok_iff.2 ⟨[], _, Parse.manyWhile_of_not_more ?_, .inl ⟨hk₀, rfl, rfl⟩⟩
    simp [hk₀]
  rw [run_of_next_none (h₀.next_of_ok ha)]
  exact ⟨rfl, rfl⟩

/-- **Whatever a run delivers without a failure is derived.** -/
theorem At.derived_of_run (h : a.At s) (hf : a.run.failure = none) :
    ∃ xs t, Derives IsEnd (.script a.run.statements) xs ∧ Reads s xs t ∧
      t.look.token.kind = .endOfInput ∧ t.look.fault = none ∧
      ∀ stmt ∈ a.run.statements, stmt.height ≤ Parse.nestingLimit := by
  fun_induction Session.run a generalizing s with
  | case1 a failure b hn => cases hf
  | case2 a b hn =>
    obtain ⟨r, ha, rfl⟩ := h.forgetCompleted.of_next hn
    obtain ⟨⟨xs, t, hxs, hr, ht⟩, hk⟩ := Parse.past_of_statement h.forgetCompleted.reader ha
    exact ⟨xs, t, hxs, hr, ht.token_eq ▸ hk, ht.sound, nofun⟩
  | case3 a stmt b hn hlt run =>
    rename_i ih
    obtain ⟨r, ha, rfl⟩ := h.forgetCompleted.of_next hn
    obtain ⟨⟨xs, u, hxs, hr, hu⟩, hle⟩ := Parse.past_of_statement h.forgetCompleted.reader ha
    obtain ⟨ys, t, hys, hr', hk, hft, hles⟩ := ih ⟨hu, h.sticky⟩ hf
    exact ⟨xs ++ ys, t, .next hxs hys, reads_append.2 ⟨u, hr, hr'⟩, hk, hft,
      List.forall_mem_cons.2 ⟨hle, hles⟩⟩
  | case4 a stmt b hn hlt =>
    obtain ⟨r, ha, rfl⟩ := h.forgetCompleted.of_next hn
    exact absurd (h.forgetCompleted.scansLeft_lt ha) hlt

end Session

variable {source filename : String}

/-- A script reads as some statements just when its run delivers these and does not fail. -/
theorem parse_eq_ok_iff :
    parse source filename = .ok stmts ↔
      (readScript source filename).failure = none ∧
        (readScript source filename).statements = stmts := by
  rw [parse, Run.outcome]
  cases (readScript source filename).failure <;> simp

/-- Reading a script fails just as its run does. -/
theorem parse_eq_error_iff {failure : Failure} :
    parse source filename = .error failure ↔
      (readScript source filename).failure = some failure := by
  rw [parse, Run.outcome]
  cases (readScript source filename).failure <;> simp

/-- **A script that is derived is accepted.** -/
theorem parse_of_derives {xs : List Terminal} (hd : Derives IsSeparator (.script stmts) xs)
    (hr : Reads (ofText source filename) xs t) (hk : t.look.token.kind = .endOfInput)
    (hf : t.look.fault = none) (hle : ∀ stmt ∈ stmts, stmt.height ≤ Parse.nestingLimit) :
    parse source filename = .ok stmts := by
  obtain ⟨b, hb, hs, hfail⟩ := (Session.at_start source filename).run_of_script hd hr hf hle
  obtain ⟨hs', hfail'⟩ := hb.run_of_end hk
  rw [parse, readScript, Run.outcome, hfail, hfail', hs, hs', List.append_nil]

/-- **A script that is accepted is derived**, its statements are legible, and
nothing is due at its end. -/
theorem derives_of_parse (h : parse source filename = .ok stmts) :
    ∃ xs t, Derives IsSeparator (.script stmts) xs ∧ Reads (ofText source filename) xs t ∧
      t.look.token.kind = .endOfInput ∧ t.look.fault = none ∧ Ready 0 [] t ∧
      (∀ stmt ∈ stmts, stmt.Legible) ∧ ∀ stmt ∈ stmts, stmt.height ≤ Parse.nestingLimit := by
  rw [parse, readScript, Run.outcome] at h
  split at h
  · cases h
  · next hf =>
    obtain rfl := Except.ok.inj h
    obtain ⟨xs, t, hd, hr, hk, hft, hle⟩ := (Session.at_start source filename).derived_of_run hf
    obtain ⟨hstrict, hl, ht⟩ := hd.strict (ready_ofText source filename) hr
    exact ⟨xs, t, hstrict, hr, hk, hft, ht, hl, hle⟩

end RcScript
