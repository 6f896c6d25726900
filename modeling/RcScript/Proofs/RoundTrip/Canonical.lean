/-
# Well-formed statements come back

Statements whose texts can be written (`Stmt.WellFormed`) are what their canonical
script reads as, whatever their shape, as long as they are not nested deeper than
the reader goes (`parse_scriptText`).

What was read is nearly well-formed.  The texts of a statement that comes from a script are
legible (`Stmt.Legible`), so a script can be written again once it has been read, and it
comes back as long as the line form of a command loses nothing of its text.  A text that
ends in a backslash and was followed by a carriage return is the only one that does: when it
is written again, the backslash stands before the line break itself.  The statements without
such a text are the settled ones, and they are exactly those that survive
(`parse_scriptText_iff_settled`).
-/

import Mathlib
import RcScript.Proofs.RoundTrip.Returns
import RcScript.Proofs.Session.Script
import RcScript.Proofs.Stmt.Written

namespace RcScript

variable {source filename : String} {stmts : List Stmt}

/-! ### Statements -/

/-- **What is written is read back.** -/
theorem parse_scriptText (hw : ∀ stmt ∈ stmts, stmt.WellFormed)
    (hle : ∀ stmt ∈ stmts, stmt.height ≤ Parse.nestingLimit) (filename : String) :
    parse (Stmt.scriptText stmts) filename = .ok stmts := by
  obtain ⟨xs, t, hd, hr, ht⟩ := Stmt.reads_scriptText hw filename
  exact parse_of_derives hd hr ht.look_end ht.poised.fault_look hle

/-- Two statements that together use every shape, and both forms of a command: the
one on a line stands in a list in a binding. -/
def nestedSample : List Stmt :=
  [.map "gx" (.list (.exec .shell "echo \x7b\x7d")
      [.cmd "top" (.exec .wait "w"), .set "sort" "size"]),
    .call "cd" ["~", "-P"]]

/-- The sample comes back. -/
theorem parse_scriptText_nestedSample :
    parse (Stmt.scriptText nestedSample) unnamed = .ok nestedSample :=
  parse_scriptText (by decide) (by decide) unnamed

/-! ### Scripts -/

/-- **A script survives just when its statements are settled**: it reads as them
again in canonical form if and only if every command text that no block can hold
leaves the line break alone. -/
theorem parse_scriptText_iff_settled (h : parse source filename = .ok stmts) (filename' : String) :
    parse (Stmt.scriptText stmts) filename' = .ok stmts ↔ ∀ stmt ∈ stmts, stmt.Settled := by
  refine ⟨settled_of_parse_scriptText, fun hs => ?_⟩
  obtain ⟨-, -, -, -, -, -, -, hl, hle⟩ := derives_of_parse h
  have hw : ∀ stmt ∈ stmts, stmt.WellFormed := fun stmt hm =>
    Stmt.wellFormed_iff.2 ⟨hl stmt hm, hs stmt hm⟩
  obtain ⟨xs, t, hd, hr, ht⟩ := Stmt.reads_scriptText hw filename'
  exact parse_of_derives hd hr ht.look_end ht.poised.fault_look hle

/-- A command on a line survives where its backslash takes a letter along. -/
theorem parse_scriptText_iff_settled_line :
    parse "$\x7d\x7d\\a\r\n" unnamed = .ok [.exec .shell "\x7d\x7d\\a"] ∧
      (parse (Stmt.scriptText [.exec .shell "\x7d\x7d\\a"]) unnamed =
          .ok [.exec .shell "\x7d\x7d\\a"] ↔
        ∀ stmt ∈ [Tree.exec .shell "\x7d\x7d\\a"], Stmt.Settled stmt) := by
  have h : parse "$\x7d\x7d\\a\r\n" unnamed = .ok [.exec .shell "\x7d\x7d\\a"] := by cbv
  exact ⟨h, parse_scriptText_iff_settled h unnamed⟩

/-- It does not where the backslash takes a carriage return along: written again,
the text goes on over the line break. -/
theorem parse_scriptText_ne_return :
    parse "$\x7d\x7d\\\r\n" unnamed = .ok [.exec .shell "\x7d\x7d\\"] ∧
      parse (Stmt.scriptText [.exec .shell "\x7d\x7d\\"]) unnamed =
        .ok [.exec .shell "\x7d\x7d\\\n"] ∧
      parse (Stmt.scriptText [.exec .shell "\x7d\x7d\\"]) unnamed ≠
        .ok [.exec .shell "\x7d\x7d\\"] := by
  have h : parse (Stmt.scriptText [.exec .shell "\x7d\x7d\\"]) unnamed =
      .ok [.exec .shell "\x7d\x7d\\\n"] := by
    have htext : Stmt.scriptText [.exec .shell "\x7d\x7d\\"] = "$\x7d\x7d\\\n" := by
      decide +kernel
    rw [htext]
    cbv
  refine ⟨by cbv, h, ?_⟩
  rw [h]
  decide

end RcScript
