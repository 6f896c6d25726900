/-
# What is derived is read

Terminals that derive a statement in the strict grammar are read as that
statement, if the depth allows its height (`Derives.read`).  The induction is on
the derivation; that no repetition is cut short by its guard comes from the other
direction, by which whatever is read passes a terminal.

The proof needs a reader that stands at a scanner (`Reader.At`), takes the terminals off
one at a time, and has to find at each point that the reading function looks at a token of
the kind that the derivation has there.  The repetitions are the only steps that are not a
fixed sequence of tokens.  Each goes on as long as a condition on the look-ahead says so,
and `Continues` is what makes the two conditions of lists agree with where items may
stand.

The statement for phrases, `Phrase.IsRead`, has a clause for each kind of phrase, because
the grammar is a mutual one and each reading function goes with one of its kinds: a
statement with what reads one by its first token, a nested statement with what skips
separators before it, items with a repetition.  In each clause the depth is at least the
height of what is derived, and the reader comes to stand at the scanner behind the
terminals.  That the functions pass a token whenever they succeed is cited from
`RcScript.Proofs.Reader.Progress`; it keeps the guard of a repetition open.
-/

import RcScript.Proofs.Reader.Derived
import RcScript.Proofs.Grammar.Strict

namespace RcScript

open Terminal Scanner Parse

variable {r r' : Reader} {s t u : Scanner} {stmt : Stmt} {depth : Nat}

namespace Reader.At

/-- The first of some terminals that are read is the look-ahead, and it can be
passed. -/
theorem take {x : Terminal} {xs : List Terminal} (h : r.At s) (hr : Reads s (x :: xs) t)
    (hf : t.look.fault = none) (hx : x.kind ≠ .endOfInput) :
    r.token.kind = x.kind ∧ r.token.text = x.text ∧
      ∃ r' u, r.Passes x.begins r' ∧ r'.At u ∧ Reads u xs t := by
  obtain ⟨⟨hk, ht⟩, -, hr⟩ := hr
  rw [← h.token_eq] at hk ht
  obtain ⟨r', hp, h'⟩ := h.exists_passes (hk ▸ hx) (hr.fault_eq_none hf)
  exact ⟨hk, ht, r', _, hp, h', hr⟩

/-- A separator can be passed with either flag. -/
theorem take_separator {xs : List Terminal} (h : r.At s) (hr : Reads s (separator :: xs) t)
    (hf : t.look.fault = none) (begins : Bool) :
    r.token.kind = .semicolon ∧ ∃ r' u, r.Passes begins r' ∧ r'.At u ∧ Reads u xs t := by
  obtain ⟨⟨hk, ht⟩, -, hr⟩ := hr
  have hask := ask_of_beginsStatement (begins_look h.live hk) begins
  have hf' : (s.look.ask begins).look.fault = none := by
    rw [hask]
    exact hr.fault_eq_none hf
  rw [← h.token_eq] at hk
  obtain ⟨r', hp, h'⟩ := h.exists_passes (hk ▸ nofun) hf'
  rw [hask] at h'
  exact ⟨hk, r', _, hp, h', hr⟩

/-- A semicolon or a newline marker can be passed, where nothing else is left. -/
theorem take_end {x : Terminal} (h : r.At s) (hx : x.IsEnd) (hr : Reads s [x] t)
    (hf : t.look.fault = none) :
    r.token.kind = .semicolon ∧ ∃ r', r.Passes false r' ∧ r'.At t := by
  obtain ⟨hk, -, r', u, hp, h', hr⟩ := h.take hr hf (by rw [hx.kind_eq]; nofun)
  obtain rfl : t = u := hr
  exact ⟨hk.trans hx.kind_eq, r', hx.begins_eq ▸ hp, h'⟩

/-- A token that is passed leaves fewer scans, unless it is the end of input. -/
theorem passes_lt {begins : Bool} (h : r.At s) (hk : r.token.kind ≠ .endOfInput)
    (hp : r.Passes begins r') : r'.scansLeft < r.scansLeft := by
  obtain ⟨t, hr, h'⟩ := h.pass (x := ⟨r.token.kind, r.token.text, begins⟩) rfl rfl hk hp
  exact h.scansLeft_lt h' (List.forall_mem_singleton.2 hk) hr

end Reader.At

namespace Parse

/-- Separators are passed up to what is none. -/
theorem separators_of_reads {seps : List Terminal} (h : r.At s)
    (hs : ∀ x ∈ seps, x.IsSeparator) (hr : Reads s seps t) (hf : t.look.fault = none)
    (hk : t.look.token.kind ≠ .semicolon) :
    ∃ found r', separators r = .ok found r' ∧ r'.At t := by
  induction seps generalizing r s with
  | nil =>
    obtain rfl : t = s := hr
    exact ⟨[], r, manyWhile_of_not_more (by simpa [h.token_eq] using hk), h⟩
  | cons x seps ih =>
    obtain ⟨hx, hs'⟩ := List.forall_mem_cons.1 hs
    obtain rfl : x = separator := hx
    obtain ⟨hk₁, r₁, s₁, p₁, h₁, hr₁⟩ := h.take_separator hr hf true
    obtain ⟨found, r', ha, h'⟩ := ih h₁ hs' hr₁
    refine ⟨r.token :: found, r', ?_, h'⟩
    rw [separators, manyWhile_of_ok (by simpa using hk₁) p₁ (h.passes_lt (hk₁ ▸ nofun) p₁),
      map_eq_ok_iff]
    exact ⟨found, ha, rfl⟩

/-- Words are read as arguments, up to what is none. -/
theorem arguments_of_reads {command : String} {args : List String} (h : r.At s)
    (hr : Reads s (args.map word) t) (hf : t.look.fault = none)
    (hk : t.look.token.kind = .semicolon) :
    ∃ r', manyWhile (fun t => t.kind ≠ .semicolon) (argument command) r = .ok args r' ∧
      r'.At t := by
  induction args generalizing r s with
  | nil =>
    obtain rfl : t = s := hr
    exact ⟨r, manyWhile_of_not_more (by simpa [h.token_eq] using hk), h⟩
  | cons arg args ih =>
    obtain ⟨hk₁, ht₁, r₁, s₁, p₁, h₁, hr₁⟩ := h.take hr hf nofun
    obtain ⟨r', ha, h'⟩ := ih h₁ hr₁
    have harg : argument command r = .ok arg r₁ := argument_eq_ok_iff.2 ⟨hk₁, p₁, ht₁.symm⟩
    refine ⟨r', ?_, h'⟩
    rw [manyWhile_of_ok (by simp [hk₁, word]) harg (h.passes_lt (hk₁ ▸ nofun) p₁), map_eq_ok_iff]
    exact ⟨args, ha, rfl⟩

/-- A head and a body are read after their keyword. -/
theorem headed_of_reads {what : Expectation} {owner : String → Owner}
    {build : String → Stmt → Stmt} {item : Owner → Parse Stmt} {keyword name : String}
    {body : Stmt} {xs : List Terminal} (h : r.At s)
    (hr : Reads s (word keyword :: head name :: xs) t) (hf : t.look.fault = none)
    (hbody : ∀ {r u}, r.At u → Reads u xs t → ∃ r', item (owner name) r = .ok body r' ∧ r'.At t) :
    r.token.kind = .word ∧ r.token.text = keyword ∧
      ∃ r', headed what owner build item r = .ok (build name body) r' ∧ r'.At t := by
  obtain ⟨hk₁, ht₁, r₁, s₁, p₁, h₁, hr⟩ := h.take hr hf nofun
  obtain ⟨hk₂, ht₂, r₂, s₂, p₂, h₂, hr⟩ := h₁.take hr hf nofun
  obtain ⟨r', ha, h'⟩ := hbody h₂ hr
  have hname : r₁.token.text = name := ht₂
  refine ⟨hk₁, ht₁, r', headed_eq_ok_iff.2 ⟨r₁, r₂, body, p₁, hk₂, p₂, ?_, ?_⟩, h'⟩
  · rwa [hname]
  · rw [hname]

/-- What is nested passes its terminals and stays within the depth. -/
theorem nests_nested (depth : Nat) (owner : Owner) : Nests depth (nested (statement depth) owner) :=
  fun h ha => past_of_statement h (nested_eq_ok_iff.1 ha)

/-- What is nested passes a terminal. -/
theorem Nests.scansLeft_lt {p : Parse Stmt} (hp : Nests depth p) (h : r.At s)
    (ha : p r = .ok stmt r') : r'.scansLeft < r.scansLeft := by
  obtain ⟨⟨xs, t, hxs, hr, h'⟩, -⟩ := hp h ha
  obtain ⟨x, ys, rfl, -⟩ := hxs.nested_starts
  exact h.scansLeft_lt h' (hxs.kind_ne fun _ hx => hx.kind_eq) hr

end Parse

/-- Whether a condition on the look-ahead holds where a statement or a literal
semicolon may stand. -/
def Continues (more : Token → Bool) : Prop :=
  ∀ (token : Token) (x : Terminal), token.Is x → x.Starts IsSeparator → more token = true

/-- Neither a statement nor a separator stops a list between braces. -/
theorem continues_of_braces {kind : TokenKind} (h : kind = .openBraces ∨ kind = .closeBraces) :
    Continues (fun t => t.kind ≠ kind) := by
  rintro token x ⟨hk, -⟩ (rfl | hx | hx | hx)
  · rcases h with rfl | rfl <;> simp [hk, separator]
  all_goals rcases h with rfl | rfl <;> simp [hk, hx]

/-- Neither of them stops a line list. -/
theorem continues_newline : Continues (fun t => !t.isNewline) := by
  rintro token x ⟨hk, ht⟩ (rfl | hx | hx | hx)
  · simp [Token.isNewline, hk, ht, separator]
  all_goals simp [Token.isNewline, hk, hx]

/-- The token of a newline marker is one. -/
theorem Token.isNewline_of_is {token : Token} (h : token.Is newline) : token.isNewline = true := by
  simp [isNewline, h.1, h.2, newline]

/-- The text of a sigil makes a command of any text. -/
theorem Tree.exec?_eq_ok {g : Sigil} {sigil text command : String} (hs : sigil = g.text)
    (ht : command = text) :
    (exec? sigil command : Except BuildError Stmt) = .ok (.exec g text) := by
  rw [exec?, hs, Sigil.ofText?_text, ht]

/-- What reading a phrase from one scanner up to another means. -/
def Phrase.IsRead (s t : Scanner) : Phrase → Prop
  | .statement stmt => ∀ depth, stmt.height ≤ depth + 1 → ∀ r : Reader, r.At s →
      ∃ r', statementAt (Parse.nested (Parse.statement depth)) r = .ok stmt r' ∧ r'.At t
  | .nested stmt => ∀ depth, stmt.height ≤ depth → ∀ r : Reader, r.At s →
      ∃ r', Parse.statement depth r = .ok (some stmt) r' ∧ r'.At t
  | .items [] => False
  | .items (first :: others) => ∀ depth, (∀ item ∈ first :: others, item.height ≤ depth) →
      ∀ owner more, Continues more → more t.look.token = false → ∀ r : Reader, r.At s →
        ∃ r₁ r', Parse.nested (Parse.statement depth) owner r = .ok first r₁ ∧
          manyWhile more (Parse.nested (Parse.statement depth) owner) r₁ = .ok others r' ∧
          r'.At t
  | .script _ => True

/-- **What is derived in the strict grammar is read.** -/
theorem Derives.isRead {p : Phrase} {xs : List Terminal} (hd : Derives IsSeparator p xs)
    (hr : Reads s xs t) (hf : t.look.fault = none) : p.IsRead s t := by
  induction hd generalizing s t with
  | switch option ends =>
    obtain rfl := ends
    intro depth hle r h
    obtain ⟨hk₁, ht₁, r₁, s₁, p₁, h₁, hr⟩ := h.take hr hf nofun
    obtain ⟨hk₂, ht₂, r₂, s₂, p₂, h₂, hr⟩ := h₁.take hr hf nofun
    obtain ⟨hk₃, ht₃, r₃, s₃, p₃, h₃, hr⟩ := h₂.take hr hf nofun
    obtain rfl : t = s₃ := hr
    refine ⟨r₃, statementAt_eq_ok_iff.2 (.inl ⟨hk₁, ht₁, ?_⟩), h₃⟩
    exact setting_eq_ok_iff.2 ⟨r₁, r₂, p₁, hk₂, p₂, .inl ⟨hk₃, p₃, by rw [ht₂]; rfl⟩⟩
  | setting option value ends =>
    obtain rfl := ends
    intro depth hle r h
    obtain ⟨hk₁, ht₁, r₁, s₁, p₁, h₁, hr⟩ := h.take hr hf nofun
    obtain ⟨hk₂, ht₂, r₂, s₂, p₂, h₂, hr⟩ := h₁.take hr hf nofun
    obtain ⟨hk₃, ht₃, r₃, s₃, p₃, h₃, hr⟩ := h₂.take hr hf nofun
    obtain ⟨hk₄, ht₄, r₄, s₄, p₄, h₄, hr⟩ := h₃.take hr hf nofun
    obtain rfl : t = s₄ := hr
    refine ⟨r₄, statementAt_eq_ok_iff.2 (.inl ⟨hk₁, ht₁, ?_⟩), h₄⟩
    exact setting_eq_ok_iff.2 ⟨r₁, r₂, p₁, hk₂, p₂,
      .inr ⟨r₃, hk₃, p₃, hk₄, p₄, by rw [ht₂, ht₃]; rfl⟩⟩
  | binding nested ih =>
    intro depth hle r h
    obtain ⟨hk, ht, r', ha, h'⟩ := headed_of_reads h hr hf fun h₂ hr =>
      (ih hr hf depth (Nat.le_of_succ_le_succ hle) _ h₂).imp fun _ read =>
        read.imp_left nested_eq_ok_iff.2
    exact ⟨r', statementAt_eq_ok_iff.2 (.inr (.inl ⟨hk, ht, binding_eq ▸ ha⟩)), h'⟩
  | definition nested ih =>
    intro depth hle r h
    obtain ⟨hk, ht, r', ha, h'⟩ := headed_of_reads h hr hf fun h₂ hr =>
      (ih hr hf depth (Nat.le_of_succ_le_succ hle) _ h₂).imp fun _ read =>
        read.imp_left nested_eq_ok_iff.2
    exact ⟨r', statementAt_eq_ok_iff.2 (.inr (.inr (.inl ⟨hk, ht, definition_eq ▸ ha⟩))), h'⟩
  | call args free ends =>
    obtain rfl := ends
    intro depth hle r h
    obtain ⟨hk₁, ht₁, r₁, s₁, p₁, h₁, hr⟩ := h.take hr hf nofun
    obtain ⟨s₂, hr₂, hr₃⟩ := reads_append.1 hr
    obtain ⟨r₂, ha, h₂⟩ := arguments_of_reads h₁ hr₂ (hr₃.fault_eq_none hf) hr₃.1.1
    obtain ⟨hk₃, ht₃, r₃, s₃, p₃, h₃, hr⟩ := h₂.take hr₃ hf nofun
    obtain rfl : t = s₃ := hr
    have hname : r.token.text = _ := ht₁
    refine ⟨r₃, statementAt_eq_ok_iff.2 ?_, h₃⟩
    refine .inr (.inr (.inr (.inl ⟨hk₁, hname ▸ free, ?_⟩)))
    exact call_eq_ok_iff.2 ⟨r₁, args, r₂, p₁, ha, p₃, by rw [hname]; rfl⟩
  | line g text =>
    intro depth hle r h
    obtain ⟨hk₁, ht₁, r₁, s₁, p₁, h₁, hr⟩ := h.take hr hf nofun
    obtain ⟨hk₂, ht₂, r₂, s₂, p₂, h₂, hr⟩ := h₁.take hr hf nofun
    obtain ⟨hk₃, ht₃, r₃, s₃, p₃, h₃, hr⟩ := h₂.take hr hf nofun
    obtain rfl : t = s₃ := hr
    refine ⟨r₃, statementAt_eq_ok_iff.2 (.inr (.inr (.inr (.inr (.inr ⟨hk₁, ?_⟩))))), h₃⟩
    exact exec_eq_ok_iff.2 ⟨r₁, p₁, .inr ⟨r₂, hk₂, p₂, hk₃, p₃, Tree.exec?_eq_ok ht₁ ht₂⟩⟩
  | block g text ends =>
    intro depth hle r h
    obtain ⟨hk₁, ht₁, r₁, s₁, p₁, h₁, hr⟩ := h.take hr hf nofun
    obtain ⟨hk₂, ht₂, r₂, s₂, p₂, h₂, hr⟩ := h₁.take hr hf nofun
    obtain ⟨hk₃, ht₃, r₃, s₃, p₃, h₃, hr⟩ := h₂.take hr hf nofun
    obtain ⟨hk₄, ht₄, r₄, s₄, p₄, h₄, hr⟩ := h₃.take hr hf nofun
    obtain ⟨hk₅, r₅, p₅, h₅⟩ := h₄.take_end ends hr hf
    refine ⟨r₅, statementAt_eq_ok_iff.2 (.inr (.inr (.inr (.inr (.inr ⟨hk₁, ?_⟩))))), h₅⟩
    exact exec_eq_ok_iff.2 ⟨r₁, p₁, .inl ⟨r₂, r₃, r₄, hk₂, p₂, hk₃, p₃, hk₄, p₄, hk₅, p₅,
      Tree.exec?_eq_ok ht₁ ht₃⟩⟩
  | bracedList items ends ih =>
    intro depth hle r h
    obtain ⟨hk₁, ht₁, r₁, s₁, p₁, h₁, hr⟩ := h.take hr hf nofun
    obtain ⟨hk₂, ht₂, r₂, s₂, p₂, h₂, hr⟩ := h₁.take hr hf nofun
    obtain ⟨s₃, hr₃, hr₄⟩ := reads_append.1 hr
    have hk₃ : s₃.look.token.kind = .closeBraces := hr₄.1.1
    obtain ⟨r₃, r₄, hfirst, hothers, h₄⟩ := ih hr₃ (hr₄.fault_eq_none hf) depth
      (Tree.height_list_le_iff.1 hle) .bracedList (fun t => t.kind ≠ .closeBraces)
      (continues_of_braces (.inr rfl)) (by simp [hk₃]) r₂ h₂
    obtain ⟨-, -, r₅, s₅, p₅, h₅, hr⟩ := h₄.take hr₄ hf nofun
    obtain ⟨hk₆, r₆, p₆, h₆⟩ := h₅.take_end ends hr hf
    refine ⟨r₆, statementAt_eq_ok_iff.2 (.inr (.inr (.inr (.inr (.inl ⟨hk₁, ?_⟩))))), h₆⟩
    exact list_eq_ok_iff.2 ⟨r₁, r₂, _, _, r₃, p₁, rfl,
      .inl ⟨r₄, r₅, hk₂, p₂, hfirst, hothers, p₅, hk₆, p₆⟩⟩
  | lineList items ih =>
    intro depth hle r h
    obtain ⟨hk₁, ht₁, r₁, s₁, p₁, h₁, hr⟩ := h.take hr hf nofun
    obtain ⟨s₂, hr₂, hr₃⟩ := reads_append.1 hr
    have hn : s₂.look.token.isNewline = true := Token.isNewline_of_is hr₃.1
    obtain ⟨r₂, r₃, hfirst, hothers, h₃⟩ := ih hr₂ (hr₃.fault_eq_none hf) depth
      (Tree.height_list_le_iff.1 hle) .lineList (fun t => !t.isNewline)
      continues_newline (by simp [hn]) r₁ h₁
    obtain ⟨hk₄, -, r₄, s₄, p₄, h₄, hr⟩ := h₃.take hr₃ hf nofun
    obtain rfl : t = s₄ := hr
    refine ⟨r₄, statementAt_eq_ok_iff.2 (.inr (.inr (.inr (.inr (.inl ⟨hk₁, ?_⟩))))), h₄⟩
    -- items do not begin with braces, so it is a line list that the reader sees
    have hb : r₁.token.kind ≠ .openBraces := by
      obtain ⟨x, ys, rfl, hx⟩ := items.items_starts
      rw [h₁.token_eq]
      simpa using continues_of_braces (.inl rfl) _ x hr₂.1 hx
    exact list_eq_ok_iff.2 ⟨r₁, r₃, _, _, r₂, p₁, rfl, .inr ⟨hb, hfirst, hothers, hk₄, p₄⟩⟩
  | nested separate statement ih =>
    intro depth hle r h
    obtain ⟨depth, rfl⟩ := Nat.exists_eq_succ_of_ne_zero
      (Nat.pos_iff_ne_zero.1 (Nat.lt_of_lt_of_le (Tree.height_pos _) hle))
    obtain ⟨s₁, hr₁, hr₂⟩ := reads_append.1 hr
    have hk : s₁.look.token.kind ≠ .semicolon ∧ s₁.look.token.kind ≠ .endOfInput := by
      obtain ⟨x, ys, rfl, hx⟩ := statement.statement_starts
      rw [hr₂.1.1]
      rcases hx with hx | hx | hx <;> simp [hx]
    obtain ⟨found, r₁, hs, h₁⟩ := separators_of_reads h separate hr₁ (hr₂.fault_eq_none hf) hk.1
    obtain ⟨r₂, ha, h₂⟩ := ih hr₂ hf depth hle r₁ h₁
    rw [← h₁.token_eq] at hk
    exact ⟨_, statement_eq_ok_iff.2 ⟨found, r₁, hs, .inr ⟨_, r₂, hk.2, ha, rfl, rfl⟩⟩,
      at_complete h₂⟩
  | one nested ih =>
    intro depth hle owner more hm hstop r h
    obtain ⟨r', ha, h'⟩ := ih hr hf depth (hle _ (.head _)) r h
    refine ⟨r', r', nested_eq_ok_iff.2 ha, manyWhile_of_not_more ?_, h'⟩
    rw [h'.token_eq, hstop]
  | more nested items ih₁ ih₂ =>
    intro depth hle owner more hm hstop r h
    obtain ⟨s₁, hr₁, hr₂⟩ := reads_append.1 hr
    have hf₁ := hr₂.fault_eq_none hf
    obtain ⟨r₁, ha, h₁⟩ := ih₁ hr₁ hf₁ depth (hle _ (.head _)) r h
    obtain ⟨r₂, r', ha₂, hothers, h'⟩ := ih₂ hr₂ hf depth
      (fun item hi => hle item (.tail _ hi)) owner more hm hstop r₁ h₁
    refine ⟨r₁, r', nested_eq_ok_iff.2 ha, ?_, h'⟩
    -- the next item begins as statements do, so the repetition goes on
    have hmore : more r₁.token = true := by
      obtain ⟨x, ys, rfl, hx⟩ := items.items_starts
      rw [h₁.token_eq]
      exact hm _ x hr₂.1 hx
    rw [manyWhile_of_ok hmore ha₂ (Nests.scansLeft_lt (nests_nested depth owner) h₁ ha₂),
      map_eq_ok_iff]
    exact ⟨_, hothers, rfl⟩
  | finish separate => trivial
  | next nested script => trivial

end RcScript
