/-
# Where line lists of a script end

A newline marker does not say what it closes: it comes from the end of a line, after a
command, closing braces or an item, and one line break brings as many markers as it has
things to close.  In a script that is accepted they are counted right all the same: each
line list is closed by a marker of the line break at which the line of its colon ends
(`lineListEnds_of_parse`).

The counting is done on the tokens alone (`RcScript.Proofs.Grammar.LineLists`), for each
of them carries how many line lists are open after it and which line break it stands for.
What is left for a script that is accepted is to say that its lists are the ones that were
counted; this is so for every derivation from its tokens, also for one that takes a
newline marker for the semicolon of a call.
-/

import RcScript.Proofs.Grammar.LineLists
import RcScript.Proofs.Session.Accepted
import Mathlib

namespace RcScript

open Terminal Scanner

variable {source filename : String} {stmts : List Stmt}

/-- **Line lists end with their lines.**  However the tokens of a script that is accepted are
taken for its statements, with separators or newline markers wherever the reader lets them
stand, and wherever a line list occurs in them: the marker that closes it stands at the first
line break behind its colon that is neither in the text of a command nor between the braces
of a list in it, or at the end of the script; and the line lists in it with no braces between
them are closed by markers of the same line break. -/
theorem lineListEnds_of_parse (h : parse source filename = .ok stmts) :
    (∃ xs, Derives IsEnd (.script stmts) xs ∧ Yields source filename xs) ∧
      ∀ xs, Derives IsEnd (.script stmts) xs → Yields source filename xs →
        ∀ first others ys depth before,
          LineListOccurs IsEnd first others ys (.script stmts) xs depth before →
            LineListEnds source filename xs before first others ys := by
  have hsep : ∀ x, IsEnd x → x.kind = .semicolon := fun _ => IsEnd.kind_eq
  obtain ⟨xs, t, hd, hr, hk, hf, -⟩ := derives_of_parse h
  have hd : Derives IsEnd (.script stmts) xs := hd.mono fun _ => .inl
  refine ⟨⟨xs, hd, (hd.yields_iff hsep).2 ⟨t, hr, hk, hf⟩⟩, ?_⟩
  intro xs hd hy first others ys depth before ho
  obtain ⟨t, hr, -⟩ := (hd.yields_iff hsep).1 hy
  have hready := ready_ofText source filename
  exact ho.ends hready hr (hd.strict hready hr).2.2 (behind_ofText source filename)
    (tracks_ofText source filename) (located_ofText source filename)

/-- The line break between the braces of the innermost list does not end the two line lists
around it; the one behind the command ends the outer one. -/
theorem lineListEnds_of_parse_nested :
    parse ":: :\x7b\x7bcd;\n\x7d\x7d; !ls\n" unnamed =
        .ok [.list (.list (.list (.call "cd" []) []) [.exec .wait "ls"]) []] ∧
      LineListEnds ":: :\x7b\x7bcd;\n\x7d\x7d; !ls\n" unnamed
        [colon, colon, colon, Terminal.openBraces, word "cd", separator, Terminal.closeBraces,
          separator, sigil .wait, command "ls", newline, newline, newline] []
        (.list (.list (.call "cd" []) []) [.exec .wait "ls"]) []
        [colon, colon, Terminal.openBraces, word "cd", separator, Terminal.closeBraces,
          separator, sigil .wait, command "ls", newline, newline] ∧
      offsetBehind? ":: :\x7b\x7bcd;\n\x7d\x7d; !ls\n" unnamed
        [colon, colon, colon, Terminal.openBraces, word "cd", separator, Terminal.closeBraces,
          separator, sigil .wait, command "ls", newline, newline] = some 17 := by
  have h : parse ":: :\x7b\x7bcd;\n\x7d\x7d; !ls\n" unnamed =
      .ok [.list (.list (.list (.call "cd" []) []) [.exec .wait "ls"]) []] := by cbv
  have hcall : Derives IsEnd (.statement (.call "cd" [])) [word "cd", separator] :=
    .call [] (by decide) (.inl rfl)
  have hbraces := Derives.bracedList (.one hcall.nest) (.inl rfl : separator.IsEnd)
  have hinner := Derives.lineList (.more hbraces.nest (.one (Derives.line .wait "ls").nest))
  have houter := Derives.lineList (.one hinner.nest)
  have hd : Derives IsEnd
      (.script [.list (.list (.list (.call "cd" []) []) [.exec .wait "ls"]) []]) (_ ++ []) :=
    .next houter.nest (.finish (List.forall_mem_nil _))
  have hy : Yields ":: :\x7b\x7bcd;\n\x7d\x7d; !ls\n" unnamed
      [colon, colon, colon, Terminal.openBraces, word "cd", separator, Terminal.closeBraces,
        separator, sigil .wait, command "ls", newline, newline, newline] :=
    ⟨_, _, rfl, by cbv, by cbv, by cbv⟩
  have ho := Occurs.next (.nested (List.forall_mem_nil _) (.here houter))
    (.finish (List.forall_mem_nil _))
  exact ⟨h, (lineListEnds_of_parse h).2 _ hd hy _ _ _ _ _ ⟨.one hinner.nest, ho⟩, by cbv⟩

end RcScript
