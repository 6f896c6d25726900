/-
# What a script can be read as

The texts of the statements that a script is read as are legible: what should be a word is
one, and no call has a name that another kind of statement begins with.  The latter needs
more than the scanner.  A word is told from a colon or a sigil by the flag with which it is
asked for, so the flag has to be up wherever a statement begins, whether this is after a
separator, a newline marker, a colon, braces, or keys and a name with separators behind
them.  The scanner is `Heeding` there (`Occurs.exists_heeding`).

Occurrences of statements are places in a derivation (`RcScript.Proofs.Grammar.Places`),
not in a run, so nested statements are covered as well as those that are delivered.  Any
derivation from the tokens will do: that a token could be a semicolon or a newline marker
to the reader makes no difference to where statements begin.
-/

import RcScript.Proofs.Grammar.Occurs
import RcScript.Proofs.Session.Script
import Mathlib.Data.List.Permutation

namespace RcScript

open Terminal

namespace Scanner

variable {s u v : Scanner} {dues : Int} {lists : Nat} {saved : List Nat}

/-- The token after a scanner is read as one that may begin a statement: this is asked for,
or a colon stands before it, and reading is told so. -/
structure Heeding (s : Scanner) : Prop where
  asked : s.beginsStatement = true ∨ s.mode = .colon
  told : ∃ u : Scanner, u.skipBlanks.rest = s.skipBlanks.rest ∧
    s.look = (u.readToken true).2.hold (u.readToken true).1

/-- Where a statement begins and its first token is no separator, the token is heeded. -/
theorem Ready.heeding (h : Ready dues saved s) (hk : s.look.token.kind ≠ .semicolon) :
    s.Heeding := by
  obtain ⟨owed, lists, -, -, h'⟩ := h.owing
  rcases h'.look_cases with ⟨-, hn, -⟩ | ⟨ho, -⟩
  · rw [hn] at hk
    exact absurd rfl hk
  · refine ⟨.inl h.begins, s.resume, rfl, ?_⟩
    rw [look_eq_of_mode h'.live (h'.owed.trans ho), h'.mode, h.begins]
    rfl

/-- What is heeded once a line list is open is heeded after its colon. -/
theorem StandsFor.heeding (h : u.StandsFor v) (hu : u.Heeding) : v.Heeding := by
  obtain ⟨hlook, rfl | ⟨hm, rfl⟩⟩ := h
  · exact hu
  · obtain ⟨w, hw, htold⟩ := hu.told
    have hrest : v.openLine.skipBlanks.rest = v.resume.skipBlanks.rest := by
      rw [Scanner.skipBlanks, rest_skipWhile]
      change (v.resume.skipBlanks.rest).dropWhile Text.isBlank = _
      rw [Scanner.skipBlanks, rest_skipWhile, List.dropWhile_idempotent]
    exact ⟨.inr hm, w, hw.trans hrest, hlook.symm.trans htold⟩

end Scanner

/-- **Wherever a statement begins the scanner heeds it.** -/
theorem Occurs.exists_heeding {Sep : Terminal → Prop} (hsep : ∀ x, Sep x → x.IsEnd)
    {node : Stmt} {p : Phrase} {xs ys before : List Terminal} {depth : Nat}
    (h : Occurs Sep (.statement node) ys p xs depth before)
    {s t : Scanner} {dues : Int} {saved : List Nat} (hs : s.Ready dues saved)
    (hr : s.Reads xs t) : ∃ v, s.Reads before v ∧ v.Heeding := by
  obtain ⟨u, v, w, hv, hstands, ⟨_, _, hu⟩, hread⟩ := h.exists_ready hsep hs hr
  obtain ⟨x, ys, rfl, hx⟩ := h.part.statement_starts
  refine ⟨v, hv, hstands.heeding (hu.heeding fun hk => ?_)⟩
  rw [hread.1.1] at hk
  rcases hx with hx | hx | hx
  all_goals
    rw [hx] at hk
    cases hk

variable {source filename : String} {stmts : List Stmt}

/-- **What a script can be read as.**  All texts in the statements of a script that is
accepted are legible.  However its tokens are taken for these statements, with separators
or newline markers wherever the reader lets them stand, every statement in them begins
behind some of the tokens; and wherever one begins, the scanner that has read the tokens
before it reads the next one as the beginning of a statement. -/
theorem legible_of_parse (h : parse source filename = .ok stmts) :
    (∀ stmt ∈ stmts, ∀ node ∈ stmt.walk, Stmt.TextsFit Readable node) ∧
      (∃ xs, Derives IsEnd (.script stmts) xs ∧ Scanner.Yields source filename xs) ∧
      ∀ xs, Derives IsEnd (.script stmts) xs → Scanner.Yields source filename xs →
        (∀ stmt ∈ stmts, ∀ node ∈ stmt.walk, NodeOccurs IsEnd (.script stmts) xs node) ∧
        ∀ node ys depth before, Occurs IsEnd (.statement node) ys (.script stmts) xs depth before →
          ∃ s, (Scanner.ofText source filename).Reads before s ∧ s.Heeding := by
  obtain ⟨hf, rfl⟩ := parse_eq_ok_iff.1 h
  obtain ⟨xs, t, hd, hr, hk, hft, -⟩ := (Session.at_start source filename).derived_of_run hf
  have hl := (hd.strict (Scanner.ready_ofText source filename) hr).2.1
  have hy : Scanner.Yields source filename xs :=
    (Scanner.yields_iff (hd.kind_ne fun _ => IsEnd.kind_eq)).2 ⟨t, hr, hk, hft⟩
  refine ⟨hl, ⟨xs, hd, hy⟩, fun zs hzs hy => ⟨hzs.nodeOccurs, fun node ys depth before ho => ?_⟩⟩
  obtain ⟨t, hr, -⟩ := (Scanner.yields_iff (hzs.kind_ne fun _ => IsEnd.kind_eq)).1 hy
  exact ho.exists_heeding (fun _ => id) (Scanner.ready_ofText source filename) hr

/-- A separator stands between keys and the line list that they are bound to, and the call
in this list begins behind both. -/
theorem legible_of_parse_keys :
    parse "map j ; :cd ~;\n" unnamed = .ok [.map "j" (.list (.call "cd" ["~"]) [])] ∧
      IsWord "j" ∧ IsName "cd" ∧ IsWord "~" ∧
        ∃ xs, Derives IsEnd (.script [.map "j" (.list (.call "cd" ["~"]) [])]) xs ∧
          ∃ ys depth before s,
            Occurs IsEnd (.statement (.call "cd" ["~"])) ys
              (.script [.map "j" (.list (.call "cd" ["~"]) [])]) xs depth before ∧
            (Scanner.ofText "map j ; :cd ~;\n" unnamed).Reads before s ∧ s.Heeding := by
  have h : parse "map j ; :cd ~;\n" unnamed = .ok [.map "j" (.list (.call "cd" ["~"]) [])] := by
    cbv
  obtain ⟨htexts, ⟨xs, hd, hy⟩, hheads⟩ := legible_of_parse h
  have hcall : Tree.call "cd" ["~"] ∈
      (Tree.map "j" (.list (.call "cd" ["~"]) []) : Stmt).walk := by simp [Tree.walk]
  obtain ⟨ys, depth, before, ho⟩ := (hheads xs hd hy).1 _ (.head _) _ hcall
  obtain ⟨s, hr, hs⟩ := (hheads xs hd hy).2 _ ys depth before ho
  obtain ⟨hname, hargs⟩ := htexts _ (.head _) _ hcall
  exact ⟨h, htexts _ (.head _) _ (.head _), hname, hargs _ (.head _), xs, hd, ys, depth, before, s,
    ho, hr, hs⟩

end RcScript
