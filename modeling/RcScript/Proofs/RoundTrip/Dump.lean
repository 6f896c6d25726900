/-
# What is dumped is read again

A check that dumps writes each statement of a script on a line of its own, in
canonical form, without the line breaks at its end and with one of its own.  Where a
statement ends with a command on a line, that one takes the place of the line break
after the command.  But a command may itself end in an escaped line break, and then
both are lost and one is put back: the backslash takes it along, and the line goes on
with the statement below.  `parse_dump_iff` says that a dump reads as the statements
dumped unless that happens, or a statement would not survive being written at all.

The proof reads the lines one by one (`Scanner.Before`).  A statement that keeps its line
break is read from its line as it would be from its canonical text.  The first one that
does not is read together with the line below, and since that line begins with something
to read, it is read as another statement: this is the half that says when a dump is not
the same script.

What the channel shows is settled first, from the events of a check: one line for each
statement that was delivered, and nothing for anything else (`outLines_checkText`).  After
this only texts are left.  The line of a statement is its canonical text but for the line
breaks at its end, so it differs from it in one case only, that of a last command whose
text ends in a line break; such a text ends in a backslash before the line break, and the
backslash takes the line break of the dump in its place.
-/

import RcScript.Checker.Basic
import RcScript.Proofs.RoundTrip.Returns
import RcScript.Proofs.Stmt.LastCommand
import Mathlib.Algebra.Order.BigOperators.Group.List
import Mathlib.Algebra.Order.Group.Nat
import Mathlib.Data.List.Permutation

namespace RcScript

open Scanner Terminal

variable {source filename : String} {stmt : Stmt} {stmts : List Stmt} {s : Scanner}

/-! ### The lines of a dump -/

section
variable {display : Display} {events events' : List Event}

/-- What events are dumped as are lines one after the other. -/
theorem outLines_append :
    display.outLines (events ++ events') = display.outLines events ++ display.outLines events' :=
  List.filterMap_append

/-- A delivery is dumped as one line. -/
theorem outLines_delivered (hd : display.dump = true) :
    display.outLines (.delivered stmt :: events) = dumpLine stmt :: display.outLines events :=
  List.filterMap_cons_some (if_pos hd)

/-- What was completed on the way to a statement is not dumped. -/
theorem outLines_completed : display.outLines (stmts.map .completed) = [] := by
  rw [Display.outLines, List.filterMap_map]
  exact List.filterMap_eq_nil_iff.2 fun _ _ => rfl

/-- A warning is not dumped. -/
theorem outLines_record (c : Checker) : display.outLines (c.record filename stmt).events = [] := by
  rw [Checker.record]
  split <;> rfl

/-- What a record of deliveries dumps are the lines of their statements. -/
theorem outLines_recordAll (hd : display.dump = true) (deliveries : List Delivery) (c : Checker) :
    display.outLines (Checker.recordAll filename deliveries c).events =
      deliveries.map fun delivery => dumpLine delivery.statement := by
  induction deliveries generalizing c with
  | nil => rfl
  | cons delivery deliveries ih =>
    rw [Checker.recordAll, outLines_append, outLines_append, outLines_completed, outLines_record,
      outLines_delivered hd, ih]
    rfl

/-- **A dump shows the statements of a script**, each on its line. -/
theorem outLines_checkText (hd : display.dump = true) (c : Checker) (source filename : String) :
    display.outLines (c.checkText source filename).events =
      (readScript source filename).statements.map dumpLine := by
  rw [Checker.checkText, outLines_append, outLines_recordAll hd, Run.statements, List.map_map]
  cases (readScript source filename).failure with
  | none => exact List.append_nil _
  | some failure => rw [outLines_completed, List.append_nil]; rfl

end

namespace Stmt

/-- What is dumped of a statement: its line. -/
def dumped (stmt : Stmt) : List Char := (dumpLine stmt).toList ++ ['\n']

/-- Whether a statement keeps the line break that is put behind it: it does unless it
ends with a command that ends in an escaped one. -/
def KeepsLine (stmt : Stmt) : Prop :=
  ∀ command, stmt.lastCommand? = some command → command.toList.getLast? ≠ some '\n'

/-- A line is the canonical text of its statement without the line breaks at its end. -/
theorem toList_dumpLine (stmt : Stmt) :
    (dumpLine stmt).toList = (text stmt).toList.rdropWhile (· = '\n') := String.toList_ofList

/-- A statement that ends with a semicolon is dumped as it is written. -/
theorem dumped_of_none (h : stmt.lastCommand? = none) :
    dumped stmt = (text stmt).toList ++ ['\n'] := by
  have hlast := getLast?_text h
  have hsplit := List.dropLast_append_getLast? ';' hlast
  rw [dumped, toList_dumpLine, ← hsplit, List.rdropWhile_concat_neg _ _ _ (by decide)]

/-- A statement that ends with a command is dumped without the line breaks at its end, and with
one of its own. -/
theorem dumped_of_lastCommand? {command : String} (h : stmt.lastCommand? = some command) :
    dumped stmt = (beforeCommand stmt ++ command.toList).rdropWhile (· = '\n') ++ ['\n'] := by
  rw [dumped, toList_dumpLine, toList_text_of_lastCommand? h, ← List.append_assoc,
    List.rdropWhile_concat_pos _ _ _ (by decide)]

/-- The line break behind a command stands for its own, if its text does not end in one. -/
theorem dumped_of_keepsLine {command : String} (h : stmt.lastCommand? = some command)
    (hw : stmt.WellFormed) (hn : command.toList.getLast? ≠ some '\n') :
    dumped stmt = (text stmt).toList := by
  have hne : command.toList ≠ [] := by simpa using (hw.fitsLine h).1.nonempty
  have hsplit := List.dropLast_append_getLast hne
  rw [List.getLast?_eq_some_getLast hne] at hn
  rw [dumped_of_lastCommand? h, toList_text_of_lastCommand? h, ← hsplit, ← List.append_assoc,
    List.rdropWhile_concat_neg _ _ _ (by simpa using hn)]
  simp

/-- The line break behind a command stands for the one that it escapes. -/
theorem dumped_of_escaped {command : String} (hw : stmt.WellFormed)
    (h : stmt.lastCommand? = some command) (hn : command.toList.getLast? = some '\n') :
    dumped stmt = beforeCommand stmt ++ command.toList := by
  have hsplit : command.toList.dropLast ++ ['\n'] = command.toList :=
    List.dropLast_append_getLast? '\n' hn
  have hbreaks := (hw.fitsLine h).1.breaks
  rw [← hsplit] at hbreaks
  have hlast := Lexeme.getLast?_of_holdsBareBreak hbreaks
  have hsplit' := List.dropLast_append_getLast? '\\' hlast
  rw [dumped_of_lastCommand? h, ← hsplit, ← List.append_assoc,
    List.rdropWhile_concat_pos _ _ _ (by decide), ← hsplit', ← List.append_assoc,
    List.rdropWhile_concat_neg _ _ _ (by decide)]

/-- The line of a statement begins with something to read. -/
theorem exists_dumped_eq_cons (hw : stmt.WellFormed) :
    ∃ c cs, dumped stmt = c :: cs ∧ Text.isSpace c = false := by
  obtain ⟨c, cs, hc, hs⟩ := exists_text_eq_cons hw
  cases hl : stmt.lastCommand? with
  | none => exact ⟨c, cs ++ ['\n'], by rw [dumped_of_none hl, hc]; rfl, hs⟩
  | some command =>
    by_cases hn : command.toList.getLast? = some '\n'
    · obtain ⟨d, ds, hd, hs'⟩ := exists_beforeCommand_eq_cons hl
      exact ⟨d, ds ++ command.toList, by rw [dumped_of_escaped hw hl hn, hd]; rfl, hs'⟩
    · exact ⟨c, cs, by rw [dumped_of_keepsLine hl hw hn, hc], hs⟩

/-- The last line of a dump is ended too. -/
theorem getLast?_flatMap_dumped (stmt : Stmt) (stmts : List Stmt) :
    ((stmt :: stmts).flatMap dumped).getLast? = some '\n' := by
  induction stmts generalizing stmt with
  | nil => simp [dumped]
  | cons next stmts ih => rw [List.flatMap_cons, List.getLast?_append, ih next, Option.some_or]

end Stmt

/-- The text of a dump are the lines of its statements, each with a line break. -/
theorem toList_unlines_dump (stmts : List Stmt) :
    (unlines (stmts.map dumpLine)).toList = stmts.flatMap Stmt.dumped := by
  rw [unlines, String.toList_join, List.map_map, List.flatMap_map]
  exact congrArg (List.flatMap · stmts) (funext fun stmt => String.toList_append)

/-! ### Reading the lines -/

/-- A scanner before the lines of some statements; a line break may still be left of the
line before them. -/
structure Scanner.Before (rest : List Char) (s : Scanner) : Prop where
  poised : Poised .normal 0 0 [] s
  begins : s.beginsStatement = true
  rest : s.rest = rest ∨ s.rest = '\n' :: rest

namespace Scanner

variable {more : List Char}

/-- Behind the line break that is left the scanner stands at the next line. -/
theorem Before.rest_skip {c : Char} {cs : List Char} (h : Before (c :: cs) s)
    (hc : Text.isSpace c = false) : s.skip.rest = c :: cs := by
  rcases h.rest with hr | hr
  · exact Scanner.rest_skip hr hc
  · exact rest_skip_space hr hc (.inr ⟨rfl, h.poised.lists⟩)

/-- Where no line is left the script ends. -/
theorem Before.look_end (h : Before [] s) : s.look.token.kind = .endOfInput := by
  have hr : s.resume.skip.rest = [] := by
    rw [skip, rest_skipWhile, if_pos (show s.resume.lineLists = 0 from h.poised.lists)]
    rcases h.rest with hr | hr <;> rw [show s.resume.rest = _ from hr] <;> decide
  rw [h.poised.look_of_read (.finish hr h.poised.lists)]
  rfl

/-- **A statement is read from its line**, if it keeps the line break or no other line
comes after it. -/
theorem Before.reads_dumped (h : Before (stmt.dumped ++ more) s) (hw : stmt.WellFormed)
    (hk : stmt.KeepsLine ∨ more = []) :
    ∃ xs t, Derives IsSeparator (.statement stmt) xs ∧ Reads s xs t ∧ Before more t := by
  have hskip : s.skip.rest = stmt.dumped ++ more := by
    obtain ⟨c, cs, hc, hs⟩ := Stmt.exists_dumped_eq_cons hw
    rw [hc] at h ⊢
    exact h.rest_skip hs
  cases hl : stmt.lastCommand? with
  | none =>
    rw [Stmt.dumped_of_none hl, List.append_assoc] at hskip
    obtain ⟨xs, t, hd, hr, ht⟩ := Stmt.reads_text stmt hw h.poised h.begins hskip
    rw [Stmt.StandsBehind, Stmt.endsLine_eq, hl] at ht
    exact ⟨xs, t, hd, hr, ht.poised, ht.begins, .inr ht.rest⟩
  | some command =>
    by_cases hn : command.toList.getLast? = some '\n'
    · obtain rfl : more = [] := hk.resolve_left fun hk => hk command hl hn
      rw [Stmt.dumped_of_escaped hw hl hn, List.append_assoc] at hskip
      obtain ⟨xs, t, hd, hr, ht⟩ :=
        Stmt.reads_withCommand [] [] hw hl h.poised h.begins hskip hn rfl
      rw [List.append_nil, Lexeme.trimReturns_eq_self (hw.fitsLine hl).1.last,
        String.ofList_toList, Stmt.withCommand_of_lastCommand? hl] at hd
      exact ⟨xs, t, hd, hr, ht.poised, ht.begins, .inl ht.rest⟩
    · rw [Stmt.dumped_of_keepsLine hl hw hn] at hskip
      obtain ⟨xs, t, hd, hr, ht⟩ := Stmt.reads_text stmt hw h.poised h.begins hskip
      have ht := ht.of_not_open
      exact ⟨xs, t, hd, hr, ht.poised, ht.begins, .inl ht.rest⟩

/-- **A statement that keeps no line break goes on over the line below it**: another one
is read. -/
theorem Before.reads_glued {command : String} {c : Char} {cs : List Char}
    (h : Before (stmt.dumped ++ c :: cs) s) (hw : stmt.WellFormed)
    (hl : stmt.lastCommand? = some command) (hn : command.toList.getLast? = some '\n')
    (hc : Text.isSpace c = false) (hend : (c :: cs).getLast? = some '\n') :
    ∃ other xs t, other ≠ command ∧
      Derives IsSeparator (.statement (stmt.withCommand other)) xs ∧ Reads s xs t ∧
      t.look.fault = none := by
  have hskip : s.skip.rest = stmt.dumped ++ c :: cs := by
    obtain ⟨d, ds, hd, hs⟩ := Stmt.exists_dumped_eq_cons hw
    rw [hd] at h ⊢
    exact h.rest_skip hs
  rw [Stmt.dumped_of_escaped hw hl hn, List.append_assoc] at hskip
  cases hline : Lexeme.commandText (c :: cs) with
  | none =>
    rw [Lexeme.getLast?_of_commandText_eq_none hline] at hend
    cases hend
  | some line =>
    have hbreak : ∀ tail, c :: cs ≠ '\n' :: tail := by
      rintro tail ⟨⟩
      exact absurd hc (by decide)
    obtain ⟨d, ds, rfl⟩ := List.exists_cons_of_ne_nil
      (Lexeme.commandText_ne_nil hline (List.cons_ne_nil c cs) hbreak)
    obtain ⟨-, -, after, hcs, -⟩ := Lexeme.of_commandText hline
    obtain rfl : c = d := (List.cons_eq_cons.1 hcs).1
    rw [hcs] at hskip hline
    obtain ⟨xs, t, hd, hr, ht⟩ := Stmt.reads_withCommand _ _ hw hl h.poised h.begins hskip hn hline
    have hreturn : c ≠ '\r' := by
      rintro rfl
      exact absurd hc (by decide)
    have hother : String.ofList (Lexeme.trimReturns (command.toList ++ c :: ds)) ≠ command := by
      intro heq
      have hlist := congrArg String.toList heq
      rw [String.toList_ofList] at hlist
      exact Lexeme.trimReturns_append_ne rfl hreturn hlist
    exact ⟨_, xs, t, hother, hd, hr, ht.poised.fault_look⟩

end Scanner

namespace Session

variable {a : Session}

/-- **The lines are read as the statements dumped**, if each but the last keeps its line
break. -/
theorem At.run_of_dumped (h : a.At s) (hs : Before (stmts.flatMap Stmt.dumped) s)
    (hw : ∀ stmt ∈ stmts, stmt.WellFormed)
    (hle : ∀ stmt ∈ stmts, stmt.height ≤ Parse.nestingLimit)
    (hk : ∀ stmt ∈ stmts.dropLast, stmt.KeepsLine) :
    a.run.statements = stmts ∧ a.run.failure = none := by
  induction stmts generalizing a s with
  | nil => exact h.run_of_end hs.look_end
  | cons stmt stmts ih =>
    obtain ⟨hw₁, hw₂⟩ := List.forall_mem_cons.1 hw
    obtain ⟨hle₁, hle₂⟩ := List.forall_mem_cons.1 hle
    have hkeeps : (stmt.KeepsLine ∨ stmts.flatMap Stmt.dumped = []) ∧
        ∀ stmt ∈ stmts.dropLast, stmt.KeepsLine := by
      cases stmts with
      | nil => exact ⟨.inr rfl, nofun⟩
      | cons next stmts =>
        obtain ⟨hk₁, hk₂⟩ := List.forall_mem_cons.1 hk
        exact ⟨.inl hk₁, hk₂⟩
    obtain ⟨xs, t, hd, hr, ht⟩ := hs.reads_dumped hw₁ hkeeps.1
    obtain ⟨b, delivery, hb, rfl, hrun⟩ := h.run_of_nested hd.nest hr ht.poised.fault_look hle₁
    obtain ⟨hstmts, hfail⟩ := ih hb ht hw₂ hle₂ hkeeps.2
    rw [hrun]
    exact ⟨congrArg (delivery.statement :: ·) hstmts, hfail⟩

/-- **If the statements dumped are what the lines are read as, each but the last keeps its
line break**: the first that does not is read as another statement. -/
theorem At.keepsLine_of_run (h : a.At s) (hs : Before (stmts.flatMap Stmt.dumped) s)
    (hw : ∀ stmt ∈ stmts, stmt.WellFormed)
    (hle : ∀ stmt ∈ stmts, stmt.height ≤ Parse.nestingLimit) (hrun : a.run.statements = stmts) :
    ∀ stmt ∈ stmts.dropLast, stmt.KeepsLine := by
  induction stmts generalizing a s with
  | nil => exact nofun
  | cons stmt stmts ih =>
    cases stmts with
    | nil => exact nofun
    | cons next stmts =>
      obtain ⟨hw₁, hw₂⟩ := List.forall_mem_cons.1 hw
      obtain ⟨hle₁, hle₂⟩ := List.forall_mem_cons.1 hle
      have hkeeps : stmt.KeepsLine := by
        intro command hl hn
        have hend := Stmt.getLast?_flatMap_dumped next stmts
        obtain ⟨c, cs, hc, hspace⟩ := Stmt.exists_dumped_eq_cons (List.forall_mem_cons.1 hw₂).1
        have hmore : (next :: stmts).flatMap Stmt.dumped =
            c :: (cs ++ stmts.flatMap Stmt.dumped) := by
          rw [List.flatMap_cons, hc, List.cons_append]
        rw [List.flatMap_cons, hmore] at hs
        rw [hmore] at hend
        obtain ⟨other, xs, t, hother, hd, hr, hf⟩ := hs.reads_glued hw₁ hl hn hspace hend
        have hheight := Stmt.height_withCommand other stmt
        obtain ⟨b, delivery, -, hdelivery, hrun'⟩ :=
          h.run_of_nested hd.nest hr hf (le_of_eq_of_le hheight hle₁)
        rw [hrun'] at hrun
        have hstmt : delivery.statement = stmt := (List.cons_eq_cons.1 hrun).1
        exact hother (Stmt.eq_of_withCommand_eq hl (hdelivery.symm.trans hstmt))
      obtain ⟨xs, t, hd, hr, ht⟩ := hs.reads_dumped hw₁ (.inl hkeeps)
      obtain ⟨b, delivery, hb, hdelivery, hrun'⟩ :=
        h.run_of_nested hd.nest hr ht.poised.fault_look hle₁
      rw [hrun'] at hrun
      have hstmts : b.run.statements = next :: stmts := (List.cons_eq_cons.1 hrun).2
      exact List.forall_mem_cons.2 ⟨hkeeps, ih hb ht hw₂ hle₂ hstmts⟩

end Session

/-- A dump has no more carriage returns than what is dumped. -/
theorem count_unlines_dump_le (stmts : List Stmt) :
    (unlines (stmts.map dumpLine)).toList.count '\r' ≤
      (stmts.map fun stmt => (Stmt.text stmt).toList.count '\r').sum := by
  rw [toList_unlines_dump, List.count_flatMap]
  refine List.sum_le_sum fun stmt _ => ?_
  have hline : stmt.dumped.count '\r' = (dumpLine stmt).toList.count '\r' :=
    List.count_append.trans (Nat.add_zero _)
  rw [Function.comp_apply, hline, Stmt.toList_dumpLine]
  exact (List.rdropWhile_prefix _ _).sublist.count_le '\r'

/-- **A dump is the same script, with two exceptions.**  What a check that dumps writes of
a script that it accepts reads as the statements of the script if and only if every
command that no block can hold leaves the line break alone, and no statement but the last
ends with a command that ends in an escaped line break. -/
theorem parse_dump_iff {display : Display} (hdump : display.dump = true) (c : Checker)
    (h : (c.checkText source filename).result = .ok stmts) (filename' : String) :
    parse (unlines (display.outLines (c.checkText source filename).events)) filename' =
        .ok stmts ↔
      (∀ stmt ∈ stmts, stmt.Settled) ∧ ∀ stmt ∈ stmts.dropLast, stmt.KeepsLine := by
  have hparse : parse source filename = .ok stmts := h
  obtain ⟨-, -, -, -, -, -, -, hl, hle⟩ := derives_of_parse hparse
  rw [outLines_checkText hdump, (parse_eq_ok_iff.1 hparse).2]
  have hstart := Session.at_start (unlines (stmts.map dumpLine)) filename'
  have hbefore : Before (stmts.flatMap Stmt.dumped)
      (ofText (unlines (stmts.map dumpLine)) filename') :=
    ⟨poised_ofText _ _, rfl, .inl (toList_unlines_dump stmts)⟩
  have hw : (∀ stmt ∈ stmts, stmt.Settled) → ∀ stmt ∈ stmts, stmt.WellFormed :=
    fun hs stmt hm => Stmt.wellFormed_iff.2 ⟨hl stmt hm, hs stmt hm⟩
  constructor
  · intro hagain
    have hs := settled_of_parse hagain (count_unlines_dump_le stmts)
    have hrun := (parse_eq_ok_iff.1 hagain).2
    exact ⟨hs, hstart.keepsLine_of_run hbefore (hw hs) hle hrun⟩
  · rintro ⟨hs, hk⟩
    obtain ⟨hstmts, hfail⟩ := hstart.run_of_dumped hbefore (hw hs) hle hk
    exact parse_eq_ok_iff.2 ⟨hfail, hstmts⟩

/-- A command on a line is dumped as it is where it ends in no line break. -/
theorem parse_dump_iff_line :
    (Checker.fresh.checkText "$\x7d\x7d a\ncd ~;" unnamed).result =
        .ok [.exec .shell "\x7d\x7d a", .call "cd" ["~"]] ∧
      (parse (unlines ((Display.mk false true).outLines
          (Checker.fresh.checkText "$\x7d\x7d a\ncd ~;" unnamed).events)) unnamed =
          .ok [.exec .shell "\x7d\x7d a", .call "cd" ["~"]] ↔
        (∀ stmt ∈ [Tree.exec .shell "\x7d\x7d a", .call "cd" ["~"]], Stmt.Settled stmt) ∧
          ∀ stmt ∈ [Tree.exec .shell "\x7d\x7d a", .call "cd" ["~"]].dropLast,
            Stmt.KeepsLine stmt) := by
  have h : (Checker.fresh.checkText "$\x7d\x7d a\ncd ~;" unnamed).result =
      .ok [.exec .shell "\x7d\x7d a", .call "cd" ["~"]] := by cbv
  exact ⟨h, parse_dump_iff rfl Checker.fresh h unnamed⟩

/-- It is not where its backslash takes the line break along: the line below becomes part
of the command. -/
theorem parse_dump_ne_lineBreak :
    (Checker.fresh.checkText "$\x7d\x7d\\\n\ncd ~;" unnamed).result =
        .ok [.exec .shell "\x7d\x7d\\\n", .call "cd" ["~"]] ∧
      parse (unlines ((Display.mk false true).outLines
          (Checker.fresh.checkText "$\x7d\x7d\\\n\ncd ~;" unnamed).events)) unnamed =
        .ok [.exec .shell "\x7d\x7d\\\ncd ~;"] ∧
      parse (unlines ((Display.mk false true).outLines
          (Checker.fresh.checkText "$\x7d\x7d\\\n\ncd ~;" unnamed).events)) unnamed ≠
        .ok [.exec .shell "\x7d\x7d\\\n", .call "cd" ["~"]] := by
  have hlines : unlines ((Display.mk false true).outLines
      (Checker.fresh.checkText "$\x7d\x7d\\\n\ncd ~;" unnamed).events) =
        "$\x7d\x7d\\\ncd ~;\n" := by
    have hs : (readScript "$\x7d\x7d\\\n\ncd ~;" unnamed).statements =
        [.exec .shell "\x7d\x7d\\\n", .call "cd" ["~"]] := by cbv
    rw [outLines_checkText rfl, hs]
    decide +kernel
  have h : parse "$\x7d\x7d\\\ncd ~;\n" unnamed =
      .ok [.exec .shell "\x7d\x7d\\\ncd ~;"] := by cbv
  rw [hlines, h]
  exact ⟨by cbv, rfl, by decide⟩

end RcScript
