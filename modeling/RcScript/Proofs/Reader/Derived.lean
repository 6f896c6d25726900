/-
# What is read is derived

A reader that has read a statement stands past it (`Reader.Past`): the tokens that
it has passed derive the statement, in the loose grammar in which a newline marker
may stand for any semicolon, and the statement is no higher than the depth allows
(`past_of_statement`).  That the grammar can be tightened needs to know how the
scanner came by its markers and is left to `RcScript.Proofs.Grammar.Strict`.

Passing the look-ahead is one lemma for each kind of token (`At.pass_word` and its
neighbours): the token is turned into the terminal that it stands for, with the flag that
the scanner was asked with, and the reader stands at the scanner behind it.  The successes
of each kind of statement are known as equivalences, so the proofs here take one apart,
pass its tokens in order, and cite the production.  The statements within are behind an
assumption on the items (`Nests`), and the induction on the depth discharges it.

What is proved of a statement that was read is threefold: where the reader stands, that
the terminals between derive the statement, and that it is not too high.  The separators
before a nested statement are part of its phrase, and so is the flag that each terminal
carries; the derivation records what was asked of the scanner and not just what it gave.
At the end of a script the function gives no statement, and then the terminals passed are
separators.
-/

import RcScript.Proofs.Reader.Outcomes
import RcScript.Proofs.Scanner.Poised
import RcScript.Proofs.Scanner.Sound
import Mathlib.Data.List.Forall2

namespace RcScript

variable {r r' : Reader} {s t u : Scanner} {stmt : Stmt} {depth : Nat}

/-- A reader stands past a phrase that was read from a scanner. -/
def Reader.Past (r : Reader) (s : Scanner) (p : Phrase) : Prop :=
  ∃ xs t, Derives Terminal.IsEnd p xs ∧ Scanner.Reads s xs t ∧ r.At t

/-- After a separator a statement may begin, whatever the flag. -/
theorem Scanner.ask_of_beginsStatement (h : s.beginsStatement = true) (begins : Bool) :
    s.ask begins = s := by
  rw [ask, h, Bool.or_true, ← h]

namespace Reader.At

/-- The look-ahead is one that a scanner can give. -/
theorem token_sound (h : r.At s) : r.token.Sound := h.token_eq ▸ Scanner.sound_look h.live

/-- To pass the look-ahead is to read the terminal that it stands for. -/
theorem pass {x : Terminal} (h : r.At s) (hk : r.token.kind = x.kind) (ht : r.token.text = x.text)
    (hx : x.kind ≠ .endOfInput) (hp : r.Passes x.begins r') :
    ∃ t, Scanner.Reads s [x] t ∧ r'.At t := by
  refine ⟨s.look.ask x.begins, ⟨?_, h.sound, rfl⟩, h.of_passes (hk ▸ hx) hp⟩
  rw [← h.token_eq]
  exact ⟨hk, ht⟩

/-- A word is passed. -/
theorem pass_word (h : r.At s) (hk : r.token.kind = .word) (hp : r.Passes false r') :
    ∃ t, Scanner.Reads s [.word r.token.text] t ∧ r'.At t :=
  h.pass (x := .word r.token.text) hk rfl nofun hp

/-- A head is passed, and a statement begins behind it. -/
theorem pass_head (h : r.At s) (hk : r.token.kind = .word) (hp : r.Passes true r') :
    ∃ t, Scanner.Reads s [.head r.token.text] t ∧ r'.At t :=
  h.pass (x := .head r.token.text) hk rfl nofun hp

/-- The text of a command is passed. -/
theorem pass_command (h : r.At s) (hk : r.token.kind = .command) (hp : r.Passes false r') :
    ∃ t, Scanner.Reads s [.command r.token.text] t ∧ r'.At t :=
  h.pass (x := .command r.token.text) hk rfl nofun hp

/-- A colon is passed. -/
theorem pass_colon (h : r.At s) (hk : r.token.kind = .colon) (hp : r.Passes false r') :
    ∃ t, Scanner.Reads s [.colon] t ∧ r'.At t := by
  have hs := h.token_sound
  rw [Token.Sound, hk] at hs
  exact h.pass (x := .colon) hk hs nofun hp

/-- Opening braces are passed. -/
theorem pass_openBraces (h : r.At s) (hk : r.token.kind = .openBraces) (hp : r.Passes false r') :
    ∃ t, Scanner.Reads s [.openBraces] t ∧ r'.At t := by
  have hs := h.token_sound
  rw [Token.Sound, hk] at hs
  exact h.pass (x := .openBraces) hk hs nofun hp

/-- Closing braces are passed. -/
theorem pass_closeBraces (h : r.At s) (hk : r.token.kind = .closeBraces)
    (hp : r.Passes false r') : ∃ t, Scanner.Reads s [.closeBraces] t ∧ r'.At t := by
  have hs := h.token_sound
  rw [Token.Sound, hk] at hs
  exact h.pass (x := .closeBraces) hk hs nofun hp

/-- A sigil is passed, and its text tells which one it is. -/
theorem pass_sigil (h : r.At s) (hk : r.token.kind = .sigil) (hp : r.Passes false r') :
    ∃ g t, r.token.text = Sigil.text g ∧ Scanner.Reads s [.sigil g] t ∧ r'.At t := by
  have hs := h.token_sound
  rw [Token.Sound, hk] at hs
  obtain ⟨g, hg⟩ := hs
  obtain ⟨t, hr, ht⟩ := h.pass (x := .sigil g) hk hg nofun hp
  exact ⟨g, t, hg, hr, ht⟩

/-- A semicolon or a newline marker is passed with either flag. -/
theorem pass_end {begins : Bool} (h : r.At s) (hk : r.token.kind = .semicolon)
    (hp : r.Passes begins r') : ∃ x t, x.IsEnd ∧ Scanner.Reads s [x] t ∧ r'.At t := by
  have hs := h.token_sound
  rw [Token.Sound, hk] at hs
  have hb : s.look.beginsStatement = true := h.valid.look.separator (h.token_eq ▸ hk)
  have ht := h.of_passes (hk ▸ nofun) hp
  rw [Scanner.ask_of_beginsStatement hb] at ht
  rw [h.token_eq] at hk hs
  rcases hs with hs | hs
  · exact ⟨.separator, s.look, .inl rfl, ⟨⟨hk, hs⟩, h.sound, rfl⟩, ht⟩
  · exact ⟨.newline, s.look, .inr rfl, ⟨⟨hk, hs⟩, h.sound, rfl⟩, ht⟩

/-- A newline marker is passed. -/
theorem pass_newline (h : r.At s) (hn : r.token.isNewline = true) (hp : r.Passes false r') :
    ∃ t, Scanner.Reads s [.newline] t ∧ r'.At t := by
  rw [Token.isNewline, Bool.and_eq_true, decide_eq_true_iff, decide_eq_true_iff] at hn
  exact h.pass (x := .newline) hn.1 hn.2 nofun hp

end Reader.At

/-- Statements that are derived one by one are derived as items. -/
theorem Derives.items_of_forall {Sep : Terminal → Prop} {first : Stmt} {others : List Stmt}
    {xs : List Terminal} {xss : List (List Terminal)} (h : Derives Sep (.nested first) xs)
    (hs : List.Forall₂ (fun stmt xs => Derives Sep (.nested stmt) xs) others xss) :
    Derives Sep (.items (first :: others)) (xs ++ xss.flatten) := by
  induction hs generalizing first xs with
  | nil => simpa using .one h
  | cons hd _ ih => exact .more h (ih hd)

/-- Arguments that are read one by one are words. -/
theorem Terminal.flatten_words {args : List String} {xss : List (List Terminal)}
    (h : List.Forall₂ (fun arg xs => xs = [word arg]) args xss) :
    xss.flatten = args.map word := by
  induction h with
  | nil => rfl
  | cons hx _ ih => rw [List.flatten_cons, hx, ih]; rfl

/-- Separators that are read one by one may all end braces. -/
theorem Terminal.isEnd_of_mem_flatten {seps : List Token} {xss : List (List Terminal)}
    (h : List.Forall₂ (fun _ xs => ∃ x : Terminal, x.IsEnd ∧ xs = [x]) seps xss) :
    ∀ x ∈ xss.flatten, x.IsEnd := by
  induction h with
  | nil => exact nofun
  | cons hx _ ih =>
    obtain ⟨x, hx, rfl⟩ := hx
    exact List.forall_mem_cons.2 ⟨hx, ih⟩

namespace Parse

open Terminal Scanner

/-- A setting that is read is derived. -/
theorem past_of_setting (h : r.At s) (hk : r.token.kind = .word) (ht : r.token.text = "set")
    (ha : setting r = .ok stmt r') :
    r'.Past s (.statement stmt) ∧ stmt.height ≤ depth + 1 := by
  obtain ⟨r₁, r₂, p₁, hk₁, p₂, hc⟩ := setting_eq_ok_iff.1 ha
  obtain ⟨s₁, e₁, h₁⟩ := h.pass_word hk p₁
  obtain ⟨s₂, e₂, h₂⟩ := h₁.pass_word hk₁ p₂
  rw [ht] at e₁
  rcases hc with ⟨hk₂, p₃, rfl⟩ | ⟨r₃, hk₂, p₃, hk₃, p₄, rfl⟩
  · obtain ⟨x, t, hx, e₃, h₃⟩ := h₂.pass_end hk₂ p₃
    exact ⟨⟨_, t, .switch _ hx, e₁.cons (e₂.cons e₃), h₃⟩, Nat.le_add_left ..⟩
  · obtain ⟨s₃, e₃, h₃⟩ := h₂.pass_word hk₂ p₃
    obtain ⟨x, t, hx, e₄, h₄⟩ := h₃.pass_end hk₃ p₄
    exact ⟨⟨_, t, .setting _ _ hx, e₁.cons (e₂.cons (e₃.cons e₄)), h₄⟩, Nat.le_add_left ..⟩

/-- A call that is read is derived. -/
theorem past_of_call (h : r.At s) (hk : r.token.kind = .word) (hf : r.token.text ∉ keywords)
    (ha : call r = .ok stmt r') :
    r'.Past s (.statement stmt) ∧ stmt.height ≤ depth + 1 := by
  obtain ⟨r₁, args, r₂, p₁, hm, p₂, rfl⟩ := call_eq_ok_iff.1 ha
  obtain ⟨s₁, e₁, h₁⟩ := h.pass_word hk p₁
  obtain ⟨xss, s₂, hxss, e₂, h₂, hstop⟩ := at_of_manyWhile
    (P := fun arg xs => xs = [word arg])
    (by rintro arg _ rfl; exact ⟨nofun, by simp [word]⟩)
    (by
      intro r s arg r' h _ ha
      obtain ⟨hk, hp, rfl⟩ := argument_eq_ok_iff.1 ha
      obtain ⟨t, e, h'⟩ := h.pass_word hk hp
      exact ⟨_, t, rfl, e, h'⟩) h₁ hm
  obtain ⟨x, t, hx, e₃, h₃⟩ := h₂.pass_end (by simpa using hstop) p₂
  refine ⟨⟨_, t, .call args hf hx, e₁.cons ?_, h₃⟩, Nat.le_add_left ..⟩
  exact reads_append.2 ⟨s₂, flatten_words hxss ▸ e₂, e₃⟩

/-- A command that is read is derived. -/
theorem past_of_exec (h : r.At s) (hk : r.token.kind = .sigil) (ha : exec r = .ok stmt r') :
    r'.Past s (.statement stmt) ∧ stmt.height ≤ depth + 1 := by
  obtain ⟨r₁, p₁, hc⟩ := exec_eq_ok_iff.1 ha
  obtain ⟨g, s₁, hg, e₁, h₁⟩ := h.pass_sigil hk p₁
  have build : ∀ {text : String}, Tree.exec? r.token.text text = .ok stmt →
      stmt = .exec g text := by
    intro text he
    rw [Tree.exec?, hg, Sigil.ofText?_text] at he
    exact (Except.ok.inj he).symm
  rcases hc with ⟨r₂, r₃, r₄, hk₁, p₂, hk₂, p₃, hk₃, p₄, hk₄, p₅, he⟩ | ⟨r₂, hk₁, p₂, hk₂, p₃, he⟩
  · obtain rfl := build he
    obtain ⟨s₂, e₂, h₂⟩ := h₁.pass_openBraces hk₁ p₂
    obtain ⟨s₃, e₃, h₃⟩ := h₂.pass_command hk₂ p₃
    obtain ⟨s₄, e₄, h₄⟩ := h₃.pass_closeBraces hk₃ p₄
    obtain ⟨x, t, hx, e₅, h₅⟩ := h₄.pass_end hk₄ p₅
    exact ⟨⟨_, t, .block g _ hx, e₁.cons (e₂.cons (e₃.cons (e₄.cons e₅))), h₅⟩,
      Nat.le_add_left ..⟩
  · obtain rfl := build he
    obtain ⟨s₂, e₂, h₂⟩ := h₁.pass_command hk₁ p₂
    have hn : r₂.token.isNewline = true := by
      obtain ⟨-, -, rfl⟩ := e₁
      obtain ⟨-, -, rfl⟩ := e₂
      rw [h.token_eq] at hk
      rw [h₁.token_eq] at hk₁
      rw [h₂.token_eq]
      exact isNewline_after_command h.live (h.valid.fault_eq_none h.live) hk hk₁
    obtain ⟨t, e₃, h₃⟩ := h₂.pass_newline hn p₃
    exact ⟨⟨_, t, .line g _, e₁.cons (e₂.cons e₃), h₃⟩, Nat.le_add_left ..⟩

/-- Whether what a step reads is a nested statement that is not too high. -/
def Nests (depth : Nat) (p : Parse Stmt) : Prop :=
  ∀ {r s stmt r'}, r.At s → p r = .ok stmt r' → r'.Past s (.nested stmt) ∧ stmt.height ≤ depth

/-- Items that are read one after the other are derived one by one. -/
theorem Nests.items {p : Parse Stmt} {more : Token → Bool} {first : Stmt} {others : List Stmt}
    {r₁ : Reader} (hp : Nests depth p) (h : r.At s) (ha : p r = .ok first r₁)
    (hm : manyWhile more p r₁ = .ok others r') :
    r'.Past s (.items (first :: others)) ∧ (∀ item ∈ first :: others, item.height ≤ depth) ∧
      more r'.token = false := by
  obtain ⟨⟨xs, s₁, hxs, e₁, h₁⟩, hle⟩ := hp h ha
  obtain ⟨xss, t, hxss, e₂, h₂, hstop⟩ := at_of_manyWhile
    (P := fun stmt xs => stmt.height ≤ depth ∧ Derives IsEnd (.nested stmt) xs)
    (fun _ _ hd => by
      obtain ⟨x, ys, rfl, -⟩ := hd.2.nested_starts
      exact ⟨nofun, hd.2.kind_ne fun _ hx => hx.kind_eq⟩)
    (fun h _ ha => by
      obtain ⟨⟨xs, t, hxs, e, h'⟩, hle⟩ := hp h ha
      exact ⟨xs, t, ⟨hle, hxs⟩, e, h'⟩) h₁ hm
  obtain ⟨hles, hxss⟩ := (List.forall₂_and_left ..).1 hxss
  exact ⟨⟨_, t, hxs.items_of_forall hxss, reads_append.2 ⟨s₁, e₁, e₂⟩, h₂⟩,
    List.forall_mem_cons.2 ⟨hle, hles⟩, hstop⟩

section
variable {item : Owner → Parse Stmt} (hi : ∀ owner, Nests depth (item owner))
include hi

/-- A head and a body are derived after their keyword. -/
theorem past_of_headed {what : Expectation} {owner : String → Owner} {build : String → Stmt → Stmt}
    {keyword : String} (h : r.At s) (hk : r.token.kind = .word) (ht : r.token.text = keyword)
    (hderives : ∀ {name body xs}, Derives IsEnd (.nested body) xs →
      Derives IsEnd (.statement (build name body)) (word keyword :: head name :: xs))
    (hheight : ∀ name body, (build name body).height = body.height + 1)
    (ha : headed what owner build item r = .ok stmt r') :
    r'.Past s (.statement stmt) ∧ stmt.height ≤ depth + 1 := by
  obtain ⟨r₁, r₂, body, p₁, hk₁, p₂, hb, rfl⟩ := headed_eq_ok_iff.1 ha
  obtain ⟨s₁, e₁, h₁⟩ := h.pass_word hk p₁
  obtain ⟨s₂, e₂, h₂⟩ := h₁.pass_head hk₁ p₂
  obtain ⟨⟨xs, t, hxs, e₃, h₃⟩, hle⟩ := hi _ h₂ hb
  rw [ht] at e₁
  refine ⟨⟨_, t, hderives hxs, e₁.cons (e₂.cons e₃), h₃⟩, ?_⟩
  rw [hheight]
  exact Nat.succ_le_succ hle

/-- A list that is read is derived, from items no higher than the depth. -/
theorem past_of_list (h : r.At s) (hk : r.token.kind = .colon) (ha : list item r = .ok stmt r') :
    r'.Past s (.statement stmt) ∧ stmt.height ≤ depth + 1 := by
  obtain ⟨r₁, r₂, first, others, r₃, p₁, rfl, hc⟩ := list_eq_ok_iff.1 ha
  obtain ⟨s₁, e₁, h₁⟩ := h.pass_colon hk p₁
  rcases hc with ⟨r₄, r₅, hk₁, p₂, hf, ho, p₃, hk₅, p₄⟩ | ⟨-, hf, ho, hk₂, p₂⟩
  · obtain ⟨s₂, e₂, h₂⟩ := h₁.pass_openBraces hk₁ p₂
    obtain ⟨⟨xs, s₃, hxs, e₃, h₃⟩, hle, hstop⟩ := Nests.items (hi _) h₂ hf ho
    obtain ⟨s₄, e₄, h₄⟩ := h₃.pass_closeBraces (by simpa using hstop) p₃
    obtain ⟨x, t, hx, e₅, h₅⟩ := h₄.pass_end hk₅ p₄
    refine ⟨⟨_, t, .bracedList hxs hx, e₁.cons (e₂.cons ?_), h₅⟩, Tree.height_list_le_iff.2 hle⟩
    exact reads_append.2 ⟨s₃, e₃, e₄.cons e₅⟩
  · obtain ⟨⟨xs, s₂, hxs, e₂, h₂⟩, hle, hstop⟩ := Nests.items (hi _) h₁ hf ho
    obtain ⟨t, e₃, h₃⟩ := h₂.pass_newline (by simpa using hstop) p₂
    refine ⟨⟨_, t, .lineList hxs, e₁.cons ?_, h₃⟩, Tree.height_list_le_iff.2 hle⟩
    exact reads_append.2 ⟨s₂, e₂, e₃⟩

/-- A statement that is read is derived, whatever its kind. -/
theorem past_of_statementAt (h : r.At s) (ha : statementAt item r = .ok stmt r') :
    r'.Past s (.statement stmt) ∧ stmt.height ≤ depth + 1 := by
  rcases statementAt_eq_ok_iff.1 ha with ⟨hk, ht, ha⟩ | ⟨hk, ht, ha⟩ | ⟨hk, ht, ha⟩ |
    ⟨hk, hf, ha⟩ | ⟨hk, ha⟩ | ⟨hk, ha⟩
  · exact past_of_setting h hk ht ha
  · exact past_of_headed hi h hk ht .binding (fun _ _ => rfl) (binding_eq ▸ ha)
  · exact past_of_headed hi h hk ht .definition (fun _ _ => rfl) (definition_eq ▸ ha)
  · exact past_of_call h hk hf ha
  · exact past_of_list hi h hk ha
  · exact past_of_exec h hk ha

end

/-- Separators are read before anything else. -/
theorem past_of_separators {seps : List Token} (h : r.At s) (ha : separators r = .ok seps r') :
    ∃ xs t, (∀ x ∈ xs, x.IsEnd) ∧ Reads s xs t ∧ r'.At t := by
  obtain ⟨xss, t, hxss, e, ht, -⟩ := at_of_manyWhile
    (P := fun _ xs => ∃ x, x.IsEnd ∧ xs = [x])
    (by
      rintro _ _ ⟨x, hx, rfl⟩
      exact ⟨nofun, by simp [hx.kind_eq]⟩)
    (by
      intro r s a r' h hm ha
      obtain ⟨hp, -⟩ := advance_eq_ok_iff.1 ha
      obtain ⟨x, t, hx, e, h'⟩ := h.pass_end (by simpa using hm) hp
      exact ⟨[x], t, ⟨x, hx, rfl⟩, e, h'⟩) h ha
  exact ⟨_, t, isEnd_of_mem_flatten hxss, e, ht⟩

/-- To note that a statement is complete moves no reader. -/
theorem at_complete (h : r.At s) : ({ r with completed := stmt :: r.completed } : Reader).At s :=
  ⟨h.scanner, h.valid, h.live, h.sound⟩

/-- **A statement that is read is derived**, and no higher than the depth allows.
At the end of the script only separators were left. -/
theorem past_of_statement {found : Option Stmt} (h : r.At s)
    (ha : statement depth r = .ok found r') :
    match found with
    | some stmt => r'.Past s (.nested stmt) ∧ stmt.height ≤ depth
    | none => r'.Past s (.script []) ∧ r'.token.kind = .endOfInput := by
  induction depth generalizing r s found r' with
  | zero => cases ha
  | succ depth ih =>
    have hi : ∀ owner, Nests depth (nested (statement depth) owner) :=
      fun owner _ _ _ _ h ha => ih h (nested_eq_ok_iff.1 ha)
    obtain ⟨seps, r₁, hs, hc⟩ := statement_eq_ok_iff.1 ha
    obtain ⟨xs, s₁, hxs, e₁, h₁⟩ := past_of_separators h hs
    rcases hc with ⟨hk, rfl, rfl⟩ | ⟨stmt, r₂, -, hb, rfl, rfl⟩
    · exact ⟨⟨xs, s₁, .finish hxs, e₁, h₁⟩, hk⟩
    · obtain ⟨⟨ys, t, hys, e₂, h₂⟩, hle⟩ := past_of_statementAt hi h₁ hb
      exact ⟨⟨_, t, .nested hxs hys, reads_append.2 ⟨s₁, e₁, e₂⟩, at_complete h₂⟩, hle⟩

end Parse
end RcScript
