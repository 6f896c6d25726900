/-
# Line ends with carriage returns

A script may be written with a carriage return before every line feed.  It is accepted like
the script without them and means the same, but that its commands have the carriage returns
in their texts, just when no command on a line goes on over a line break
(`parse_returned_iff`).  A command goes on where a backslash escapes the line break; with a
carriage return between the two the backslash escapes that one, and what was the rest of the
command is read as statements of the script (`parse_returned_ne_lineBreak`).

Both directions follow the tokens of the script and of the one with carriage returns
together (`RcScript.Proofs.Scanner.Returns`).  Outside of command texts a carriage return
is a blank; at the end of a command on a line it is dropped; in a block it stays in the
text.  So the tokens correspond one to one until a command goes on over its line break, and
from there on they do not: the derivation that was there has a text with a line break in
it, and no script with carriage returns can have a command on a line with such a text.
-/

import RcScript.Proofs.Grammar.LineEnds
import RcScript.Proofs.Session.Accepted
import Mathlib

namespace RcScript

open Terminal Scanner

variable {source filename : String} {stmts : List Stmt} {xs : List Terminal} {t : Scanner}

/-- No command is awaited at the beginning of a script. -/
theorem awaitsCommand_ofText (source filename : String) :
    AwaitsCommand false (ofText source filename) :=
  ⟨iff_of_false nofun nofun, nofun⟩

/-- To put carriage returns into statements is to put them into the texts that they have. -/
theorem texts_map_returned (stmts : List Stmt) :
    (stmts.map Stmt.returned).flatMap Tree.texts =
      (stmts.flatMap Tree.texts).map Text.returned := by
  rw [← Tree.flatMap_texts_mapTextsAll, Tree.mapTextsAll_eq]
  rfl

section
variable (hfree : '\r' ∉ source.toList) (hd : Derives IsSeparator (.script stmts) xs)
  (hr : Reads (ofText source filename) xs t)
include hfree hd hr

/-- Where no command on a line goes on over a line break, a script means the same. -/
theorem parse_returned (hle : ∀ stmt ∈ stmts, stmt.height ≤ Parse.nestingLimit)
    (hk : t.look.token.kind = .endOfInput) (hf : t.look.fault = none)
    (hlines : HoldLines false xs) :
    parse (Text.returned source) filename = .ok (stmts.map Stmt.returned) := by
  have hkinds := hd.kind_ne fun _ => IsSeparator.kind_eq
  have hawaits := awaitsCommand_ofText source filename
  obtain ⟨t', hr', hbeside, hlive⟩ :=
    hr.beside (beside_ofText filename hfree) rfl hawaits hlines hkinds
  -- at the end of the script no command is read
  have hend := (hbeside.look hlive hf).resolve_right fun hparted => by
    have hcommand := hk.symm.trans hparted.kind
    cases hcommand
  refine parse_of_derives (hd.returned fun _ => .inl) hr' (hend.same.1.trans hk)
    hend.beside.fault ?_
  exact List.forall_mem_map.2 fun stmt hs => (Tree.height_mapTexts stmt).trans_le (hle stmt hs)

/-- Where a script means the same, no command on a line goes on over a line break. -/
theorem holdLines_of_parse
    (hparse : parse (Text.returned source) filename = .ok (stmts.map Stmt.returned)) :
    HoldLines false xs := by
  have hsep : ∀ x, IsSeparator x → x.IsEnd := fun _ => .inl
  obtain ⟨ys, t', hd', hr', hk', -⟩ := derives_of_parse hparse
  have hcommands : commands ys = (commands xs).map Text.returned := by
    rw [hd'.commands_eq hsep, hd.commands_eq hsep]
    exact texts_map_returned stmts
  have hkinds := hd.kind_ne fun _ => IsSeparator.kind_eq
  have hawaits := awaitsCommand_ofText source filename
  exact holdLines_of_reads (beside_ofText filename hfree) rfl hawaits hr hr' (hd.leads hsep).1
    (hd'.leads hsep).1 hkinds hk' hcommands

end

/-- **A script means the same with carriage returns just when no command on a line goes on
over a line break.**  A script that is accepted has a derivation from the tokens that the
scanner yields, and any derivation tells. -/
theorem parse_returned_iff (h : parse source filename = .ok stmts)
    (hfree : '\r' ∉ source.toList) :
    (∃ xs, Derives IsSeparator (.script stmts) xs ∧ Yields source filename xs) ∧
      ∀ xs, Derives IsSeparator (.script stmts) xs → Yields source filename xs →
        (parse (Text.returned source) filename = .ok (stmts.map Stmt.returned) ↔
          HoldLines false xs) := by
  obtain ⟨xs, t, hd, hr, hk, hf, -, -, hle⟩ := derives_of_parse h
  have hkind : ∀ x, IsSeparator x → x.kind = .semicolon := fun _ => IsSeparator.kind_eq
  refine ⟨⟨xs, hd, (hd.yields_iff hkind).2 ⟨t, hr, hk, hf⟩⟩, fun ys hd hy => ?_⟩
  obtain ⟨t, hr, hk, hf⟩ := (hd.yields_iff hkind).1 hy
  exact ⟨holdLines_of_parse hfree hd hr, parse_returned hfree hd hr hle hk hf⟩

/-- A backslash in a command, a block that holds a line break, and a list on a line: with
carriage returns only the text of the block is another one. -/
theorem parse_returned_iff_block :
    parse "$a \\x\n: !\x7b\x7bb\nc\x7d\x7d; quit;\n" unnamed =
        .ok [.exec .shell "a \\x", .list (.exec .wait "b\nc") [.call "quit" []]] ∧
      parse "$a \\x\r\n: !\x7b\x7bb\r\nc\x7d\x7d; quit;\r\n" unnamed =
        .ok [.exec .shell "a \\x", .list (.exec .wait "b\r\nc") [.call "quit" []]] := by
  have h : parse "$a \\x\n: !\x7b\x7bb\nc\x7d\x7d; quit;\n" unnamed =
      .ok [.exec .shell "a \\x", .list (.exec .wait "b\nc") [.call "quit" []]] := by cbv
  have hblock : Derives IsSeparator (.statement (.exec .wait "b\nc"))
      [sigil .wait, Terminal.openBraces, command "b\nc", Terminal.closeBraces, separator] :=
    .block .wait "b\nc" (.inl rfl)
  have hcall : Derives IsSeparator (.statement (.call "quit" [])) [word "quit", separator] :=
    .call [] (by decide) rfl
  have hlist := Derives.lineList (.more hblock.nest (.one hcall.nest))
  have hd : Derives IsSeparator
      (.script [.exec .shell "a \\x", .list (.exec .wait "b\nc") [.call "quit" []]])
      ([sigil .shell, command "a \\x", newline] ++ (_ ++ [])) :=
    .next (Derives.line .shell "a \\x").nest (.next hlist.nest (.finish (List.forall_mem_nil _)))
  have hy : Yields "$a \\x\n: !\x7b\x7bb\nc\x7d\x7d; quit;\n" unnamed
      [sigil .shell, command "a \\x", newline, colon, sigil .wait, Terminal.openBraces,
        command "b\nc", Terminal.closeBraces, separator, word "quit", separator, newline] :=
    ⟨_, _, rfl, by cbv, by cbv, by cbv⟩
  refine ⟨h, ((parse_returned_iff h (by decide)).2 _ hd hy).2 ?_⟩
  simp [HoldLines, sigil, command, newline, colon, separator, word, Terminal.openBraces,
    Terminal.closeBraces]

/-- Where a command goes on over a line break it ends there with carriage returns, and what was
the rest of its text is a statement. -/
theorem parse_returned_ne_lineBreak :
    '\r' ∉ "$a \\\nquit;\n".toList ∧
      parse "$a \\\nquit;\n" unnamed = .ok [.exec .shell "a \\\nquit;"] ∧
      parse "$a \\\r\nquit;\r\n" unnamed = .ok [.exec .shell "a \\", .call "quit" []] ∧
      parse (Text.returned "$a \\\nquit;\n") unnamed ≠
        .ok ([Tree.exec .shell "a \\\nquit;"].map Stmt.returned) := by
  have h : parse "$a \\\r\nquit;\r\n" unnamed = .ok [.exec .shell "a \\", .call "quit" []] := by
    cbv
  have hsource : Text.returned "$a \\\nquit;\n" = "$a \\\r\nquit;\r\n" := by decide
  refine ⟨by decide, by cbv, h, ?_⟩
  rw [hsource, h]
  decide

end RcScript
