/-
# Reading terminals

`Reads s xs t` says that from `s` the scanner gives the tokens of `xs`, each asked
for with the flag of the one before it, and then stands at `t`, before the token
that follows.  Readings are put one after the other (`reads_append`), and a whole
script is read just when `Scanner.tokens` lists its terminals (`yields_iff`).

A reading is a relation between two scanners and says nothing of what comes after.  So it
is the right thing to prove of phrases: the scanner before a phrase, the one behind it,
and the terminals of the phrase, whatever stands around them.  The flag of a terminal is
part of it, for it is the scan after the terminal that is asked with it; the first
terminal is read with whatever flag has been asked for already.
-/

import RcScript.Proofs.Grammar.Basic
import RcScript.Proofs.Scanner.Valid

namespace RcScript

/-- Whether a token is the one that a terminal stands for. -/
def Token.Is (token : Token) (x : Terminal) : Prop := token.kind = x.kind ∧ token.text = x.text

namespace Scanner

variable {s t u : Scanner}

/-- From one scanner the terminals are read, and the other one stands after
them. -/
def Reads : Scanner → List Terminal → Scanner → Prop
  | s, [], t => t = s
  | s, x :: xs, t => s.look.token.Is x ∧ s.look.fault = none ∧ Reads (s.look.ask x.begins) xs t

/-- **Terminals are read one part after the other.** -/
theorem reads_append {xs ys : List Terminal} :
    Reads s (xs ++ ys) t ↔ ∃ u, Reads s xs u ∧ Reads u ys t := by
  induction xs generalizing s with
  | nil => simp [Reads]
  | cons x xs ih => simp only [List.cons_append, Reads, ih, and_assoc, exists_and_left]

/-- Terminals are read one by one. -/
theorem reads_cons {x : Terminal} {xs : List Terminal} :
    Reads s (x :: xs) t ↔ ∃ u, Reads s [x] u ∧ Reads u xs t := by
  rw [← List.singleton_append, reads_append]

/-- A terminal is read before others. -/
theorem Reads.cons {x : Terminal} {xs : List Terminal} (hx : Reads s [x] u) (hr : Reads u xs t) :
    Reads s (x :: xs) t := reads_cons.2 ⟨u, hx, hr⟩

/-- Where the terminals have been read is one place. -/
theorem Reads.unique {xs : List Terminal} (h : Reads s xs t) (h' : Reads s xs u) : t = u := by
  induction xs generalizing s with
  | nil => exact h.trans h'.symm
  | cons x xs ih => exact ih h.2.2 h'.2.2

/-- Terminals read from one scanner are read from any other that looks the same. -/
theorem Reads.congr {x : Terminal} {xs : List Terminal} (h : s.look = u.look)
    (hr : Reads s (x :: xs) t) : Reads u (x :: xs) t := by
  simpa only [Reads, h] using hr

/-- The scanner of a script yields the terminals, asked with their flags, and
then the end of the script, without a fault. -/
def Yields (source filename : String) (xs : List Terminal) : Prop :=
  ∃ tokens final, (start source filename).tokens (xs.map Terminal.begins) = (tokens, final) ∧
    tokens.map Token.kind = xs.map Terminal.kind ++ [.endOfInput] ∧
    tokens.map Token.text = xs.map Terminal.text ++ [""] ∧ final.fault = none

/-- A look keeps a scanner valid. -/
theorem Valid.look (h : s.Valid) : s.look.Valid := h.scan false

/-- A look at a token that is not the end goes on. -/
theorem Valid.tokens_look (h : s.Valid) (hk : s.look.token.kind ≠ .endOfInput)
    (begins : Bool) (flags : List Bool) :
    s.look.tokens (begins :: flags) =
      (s.look.token :: ((s.look.ask begins).look.tokens flags).1,
        ((s.look.ask begins).look.tokens flags).2) := by
  have hd := h.look.not_done hk
  rw [look_ask hd, tokens, if_neg hk, dif_pos (h.look.scansLeft_scan_lt hd _)]
  rfl

/-- At the end of input there is one token. -/
theorem tokens_of_end (hk : s.token.kind = .endOfInput) (flags : List Bool) :
    s.tokens flags = ([s.token], s) := by
  rw [tokens, if_pos hk]

/-- The look-ahead is the first of the tokens. -/
theorem exists_tokens_eq_cons (flags : List Bool) (s : Scanner) :
    ∃ rest, (s.tokens flags).1 = s.token :: rest := by
  rw [Scanner.tokens]
  split
  · exact ⟨[], rfl⟩
  · split
    · exact ⟨_, rfl⟩
    · exact ⟨[], rfl⟩

/-- **What is read is listed.** -/
theorem Valid.exists_tokens_of_reads {xs : List Terminal} (hs : s.Valid) (hd : s.done = false)
    (hx : ∀ x ∈ xs, x.kind ≠ .endOfInput) (hr : Reads s xs t)
    (hk : t.look.token.kind = .endOfInput) :
    ∃ tokens, s.look.tokens (xs.map Terminal.begins) = (tokens, t.look) ∧
      tokens.map Token.kind = xs.map Terminal.kind ++ [.endOfInput] ∧
      tokens.map Token.text = xs.map Terminal.text ++ [""] := by
  induction xs generalizing s with
  | nil =>
    obtain rfl : t = s := hr
    have htext := congrArg Token.text (hs.look.ended ((done_look_iff hd).2 hk))
    exact ⟨_, tokens_of_end hk _, by simp [hk], by simp [htext, Token.endAt]⟩
  | cons x xs ih =>
    obtain ⟨hx, hxs⟩ := List.forall_mem_cons.1 hx
    obtain ⟨⟨hkind, htext⟩, -, hr⟩ := hr
    have hk₁ : s.look.token.kind ≠ .endOfInput := hkind ▸ hx
    obtain ⟨tokens, ht, hkinds, htexts⟩ :=
      ih (hs.look.ask x.begins) (hs.look.not_done hk₁) hxs hr
    refine ⟨s.look.token :: tokens, ?_, by simp [hkind, hkinds], by simp [htext, htexts]⟩
    rw [List.map_cons, hs.tokens_look hk₁, ht]

/-- **What is listed is read.** -/
theorem Valid.exists_reads_of_tokens {xs : List Terminal} {tokens : List Token} (hs : s.Valid)
    (hd : s.done = false) (hx : ∀ x ∈ xs, x.kind ≠ .endOfInput)
    (ht : s.look.tokens (xs.map Terminal.begins) = (tokens, u))
    (hkinds : tokens.map Token.kind = xs.map Terminal.kind ++ [.endOfInput])
    (htexts : tokens.map Token.text = xs.map Terminal.text ++ [""]) :
    ∃ t, Reads s xs t ∧ t.look = u ∧ t.look.token.kind = .endOfInput := by
  obtain ⟨rest, hrest⟩ := exists_tokens_eq_cons (xs.map Terminal.begins) s.look
  rw [ht] at hrest
  obtain rfl : tokens = s.look.token :: rest := hrest
  induction xs generalizing s rest with
  | nil =>
    have hk : s.look.token.kind = .endOfInput := (List.cons_eq_cons.1 hkinds).1
    rw [tokens_of_end hk] at ht
    exact ⟨s, rfl, congrArg Prod.snd ht, hk⟩
  | cons x xs ih =>
    obtain ⟨hx, hxs⟩ := List.forall_mem_cons.1 hx
    obtain ⟨hkind, hkinds⟩ := List.cons_eq_cons.1 hkinds
    obtain ⟨htext, htexts⟩ := List.cons_eq_cons.1 htexts
    have hk : s.look.token.kind ≠ .endOfInput := hkind ▸ hx
    have hd' : s.look.done = false := hs.look.not_done hk
    rw [List.map_cons, hs.tokens_look hk] at ht
    obtain ⟨hrest, hu⟩ := Prod.mk.inj ht
    obtain ⟨rest', hrest'⟩ :=
      exists_tokens_eq_cons (xs.map Terminal.begins) (s.look.ask x.begins).look
    obtain rfl : rest = _ := (List.cons_eq_cons.1 hrest).2.symm
    rw [hrest'] at hkinds htexts
    obtain ⟨t, hr, hl, hend⟩ := ih (s := s.look.ask x.begins) (hs.look.ask x.begins) hd' hxs rest'
      (Prod.ext hrest' hu) hkinds htexts
    exact ⟨t, ⟨⟨hkind, htext⟩, hs.look.fault_eq_none hd', hr⟩, hl, hend⟩

/-- **A script yields its terminals just when they are read to its end.** -/
theorem yields_iff {source filename : String} {xs : List Terminal}
    (hx : ∀ x ∈ xs, x.kind ≠ .endOfInput) :
    Yields source filename xs ↔ ∃ t, Reads (ofText source filename) xs t ∧
      t.look.token.kind = .endOfInput ∧ t.look.fault = none := by
  have hs := valid_ofText source filename
  constructor
  · rintro ⟨tokens, final, ht, hkinds, htexts, hf⟩
    obtain ⟨t, hr, rfl, hk⟩ := hs.exists_reads_of_tokens rfl hx ht hkinds htexts
    exact ⟨t, hr, hk, hf⟩
  · rintro ⟨t, hr, hk, hf⟩
    obtain ⟨tokens, ht, hkinds, htexts⟩ := hs.exists_tokens_of_reads rfl hx hr hk
    exact ⟨tokens, t.look, ht, hkinds, htexts, hf⟩

end Scanner
end RcScript
