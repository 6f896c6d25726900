/-
# Which scripts are accepted

A script is accepted just when the tokens that its scanner yields derive some
statements in the strict grammar of `RcScript.Proofs.Grammar.Basic`, none of them
nested too deep; then these statements are its reading (`parse_eq_ok_iff_derives`).
The reader is more lenient than that wherever a semicolon may stand, but no script
makes use of it.

The tokens are those that the scanner yields with the flags that the reader would give it
(`Yields`), and the grammar says nothing about scanning.  So the two are told apart: which
tokens a text has is decided by the scanner, whether they are a script by the grammar, and
the reader adds the bound on nesting and nothing else.  Any loose derivation of what a
scanner yields is a strict one, which is why the reader need not tell a semicolon from a
newline marker.
-/

import RcScript.Proofs.Session.Script
import Mathlib

namespace RcScript

open Terminal Scanner

variable {source filename : String} {stmts : List Stmt}

/-- What a script yields is read from its beginning to its end. -/
theorem Derives.yields_iff {Sep : Terminal → Prop} (hsep : ∀ x, Sep x → x.kind = .semicolon)
    {p : Phrase} {xs : List Terminal} (hd : Derives Sep p xs) :
    Yields source filename xs ↔ ∃ t, Reads (ofText source filename) xs t ∧
      t.look.token.kind = .endOfInput ∧ t.look.fault = none :=
  Scanner.yields_iff (hd.kind_ne hsep)

/-- **The reader accepts the strict grammar and nothing else.**  A script reads as
some statements just when they are not nested too deep and derived from tokens that
the scanner yields, asked with a flag after the keys of a binding and the name of a
definition alone.  And however the tokens of a script are taken for statements, even
with a newline marker allowed for each semicolon, there is no newline marker that
ends a setting or a call or stands before a statement. -/
theorem parse_eq_ok_iff_derives :
    (parse source filename = .ok stmts ↔
      (∀ stmt ∈ stmts, stmt.height ≤ Parse.nestingLimit) ∧
        ∃ xs, Derives IsSeparator (.script stmts) xs ∧ Yields source filename xs) ∧
    ∀ xs, Derives IsEnd (.script stmts) xs → Yields source filename xs →
      Derives IsSeparator (.script stmts) xs := by
  refine ⟨⟨fun h => ?_, ?_⟩, fun xs hd hy => ?_⟩
  · obtain ⟨xs, t, hd, hr, hk, hf, -, -, hle⟩ := derives_of_parse h
    exact ⟨hle, xs, hd, (hd.yields_iff fun _ => IsSeparator.kind_eq).2 ⟨t, hr, hk, hf⟩⟩
  · rintro ⟨hle, xs, hd, hy⟩
    obtain ⟨t, hr, hk, hf⟩ := (hd.yields_iff fun _ => IsSeparator.kind_eq).1 hy
    exact parse_of_derives hd hr hk hf hle
  · obtain ⟨t, hr, -⟩ := (hd.yields_iff fun _ => IsEnd.kind_eq).1 hy
    exact (hd.strict (ready_ofText source filename) hr).1

/-- The loose reading of a line list is a strict one, for both of its newline markers stand
where the strict grammar has them, and by it the script is accepted. -/
theorem parse_eq_ok_iff_derives_shell :
    ∃ xs, Derives IsEnd (.script [.list (.call "cd" ["~"]) [.exec .wait "ls"]]) xs ∧
      Yields ":cd ~; !ls\n" unnamed xs ∧
      Derives IsSeparator (.script [.list (.call "cd" ["~"]) [.exec .wait "ls"]]) xs ∧
      parse ":cd ~; !ls\n" unnamed = .ok [.list (.call "cd" ["~"]) [.exec .wait "ls"]] := by
  have hcall : Derives IsEnd (.statement (.call "cd" ["~"])) [word "cd", word "~", separator] :=
    .call ["~"] (by decide) (.inl rfl)
  have hlist := Derives.lineList (.more hcall.nest (.one (Derives.line .wait "ls").nest))
  have hd : Derives IsEnd (.script [.list (.call "cd" ["~"]) [.exec .wait "ls"]]) (_ ++ []) :=
    .next hlist.nest (.finish (List.forall_mem_nil _))
  have hy : Yields ":cd ~; !ls\n" unnamed
      [colon, word "cd", word "~", separator, sigil .wait, command "ls", newline, newline] :=
    ⟨_, _, rfl, by cbv, by cbv, by cbv⟩
  have hs := parse_eq_ok_iff_derives.2 _ hd hy
  have hheight : ∀ stmt ∈ [(.list (.call "cd" ["~"]) [.exec .wait "ls"] : Stmt)],
      stmt.height ≤ Parse.nestingLimit := by decide
  exact ⟨_, hd, hy, hs, parse_eq_ok_iff_derives.1.2 ⟨hheight, _, hs, hy⟩⟩

end RcScript
