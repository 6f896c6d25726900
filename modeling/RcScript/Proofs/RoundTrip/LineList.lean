/-
# Lists on one line

A list can be written between braces, which close it, or behind a colon on a line of its
own, where the end of the line closes it.  The two are the same list
(`parse_lineListText_iff`), whatever braces and blocks its statements have: a line break
inside of these belongs to them, and the line list is open again behind them.  Only a
command on a line ends the line with its own text, so no statement but the last may end
with one; if another does, the list is over there.

The condition is exact, so both directions are proved.  Where it holds, the items are read
one after the other with the list open behind each of them, and the list is closed by the
line break at its end or by the last item itself.  Where it does not hold, some item but
the last ends its line; the markers that its line break brings close the list there, and
what was written behind it is not in the list that is read.

Where an item ends the line too early, what is read first is a list of the items up to
this one.  What comes then is a statement of its own or a fault, but it cannot be part of
the list, and the list that was meant has more items; so the two differ without its being
known how the script goes on.
-/

import RcScript.Proofs.Grammar.Completed
import RcScript.Proofs.RoundTrip.Canonical

namespace RcScript

open Scanner Terminal

variable {s t : Scanner} {lists : Nat} {saved : List Nat} {tail rest : List Char}
  {first : Stmt} {others : List Stmt}

namespace Stmt

/-- The text of a list that its line closes. -/
def lineListText (stmts : List Stmt) : String := ": " ++ " ".intercalate (stmts.map text) ++ "\n"

/-- The text of a line list is a colon, its statements with a blank before each, and a line
break. -/
theorem toList_lineListText (first : Stmt) (others : List Stmt) :
    (lineListText (first :: others)).toList = ':' :: ' ' :: ((text first).toList ++
      (others.flatMap (fun stmt => ' ' :: (text stmt).toList) ++ ['\n'])) := by
  rw [lineListText, String.toList_append, String.toList_append, List.map_cons,
    toList_intercalate_cons (d := ' ') rfl, List.flatMap_map]
  simp

/-- No statement begins with braces. -/
theorem text_append_ne_openBraces {stmt : Stmt} (hw : stmt.WellFormed) (tail cs : List Char) :
    (text stmt).toList ++ tail ≠ '{' :: '{' :: cs := by
  intro h
  cases stmt with
  | set option value =>
    by_cases hv : value = ""
    · rw [hv, toList_text_switch] at h
      cases h
    · rw [toList_text_set hv] at h
      cases h
  | map keys body =>
    rw [toList_text_map] at h
    cases h
  | cmd name body =>
    rw [toList_text_cmd] at h
    cases h
  | call name args =>
    have hname := (forall_walk_call.1 hw).1.word
    rw [toList_text_call, List.append_assoc, List.append_assoc, List.singleton_append] at h
    refine Scanner.append_ne_openBraces (by simpa using hname.nonempty) hname.opens ?_ cs h
    intro c hc
    rintro rfl
    exact absurd (stops_words args '{' hc) (by decide)
  | exec g command =>
    have hg : g.char ≠ '{' := by cases g <;> decide
    have hhead : ∃ l, (text (.exec g command)).toList = g.char :: l := by
      cases hf : fitsBlock command with
      | true => exact ⟨_, toList_text_block hf⟩
      | false => exact ⟨_, toList_text_line hf⟩
    obtain ⟨l, hl⟩ := hhead
    rw [hl] at h
    exact hg (List.cons_eq_cons.1 h).1
  | list first others =>
    rw [toList_text_list] at h
    cases h
  | hole value => exact value.elim

/-- A line list waits for the end of its line behind a statement: the line break is left, or
the statement has ended the line itself. -/
theorem StandsBehind.closing {stmt : Stmt} (h : stmt.StandsBehind lists saved rest t)
    (hr : rest = '\n' :: tail ∨ rest = tail ∧ stmt.endsLine = true) :
    Closing lists saved tail t := by
  rw [StandsBehind] at h
  split at h
  · refine ⟨lists, 0, Int.natCast_nonneg lists, Int.add_zero _, h.poised, ?_⟩
    exact hr.imp h.rest.trans fun hr => ⟨h.rest.trans hr.1, rfl⟩
  · next he =>
    obtain rfl := hr.resolve_right fun hr => he hr.2
    exact h.closing

/-- The statements of a line list are read as they are written, if none but the last ends
the line. -/
theorem reads_lineItems (hw : ∀ stmt ∈ others, stmt.WellFormed)
    (hopen : ∀ stmt ∈ (first :: others).dropLast, stmt.endsLine = false) {xs : List Terminal}
    (hd : Derives IsSeparator (.nested first) xs) (hr : Reads s xs t)
    (ht : first.StandsBehind lists saved
      (others.flatMap (fun stmt => ' ' :: (text stmt).toList) ++ rest) t) :
    ∃ ys u, Derives IsSeparator (.items (first :: others)) ys ∧ Reads s ys u ∧
      ((first :: others).getLast (List.cons_ne_nil _ _)).StandsBehind lists saved rest u := by
  induction others generalizing first xs s t with
  | nil => exact ⟨xs, t, .one hd, hr, ht⟩
  | cons second others ih =>
    obtain ⟨hw₁, hw₂⟩ := List.forall_mem_cons.1 hw
    obtain ⟨hopen₁, hopen₂⟩ := List.forall_mem_cons.1 hopen
    rw [StandsBehind, hopen₁, if_neg Bool.false_ne_true, List.flatMap_cons, List.cons_append,
      List.cons_append, List.append_assoc] at ht
    obtain ⟨ys, u, hys, hr₁, hu⟩ := reads_text second hw₁ ht.poised ht.begins
      (rest_skip_text hw₁ ht (.inl rfl))
    obtain ⟨zs, v, hzs, hr₂, hv⟩ := ih hw₂ hopen₂ hys.nest hr₁ hu
    exact ⟨_, v, .more hd hzs, reads_append.2 ⟨t, hr, hr₂⟩, hv⟩

/-- **A line list is read as it is written**, up to the statement that ends its line or to
the line break behind the last one. -/
theorem reads_lineList (hw : ∀ stmt ∈ first :: others, stmt.WellFormed)
    (hopen : ∀ stmt ∈ (first :: others).dropLast, stmt.endsLine = false)
    (h : Poised .normal 0 lists saved s) (hb : s.beginsStatement = true)
    (hr : s.skip.rest = ':' :: ' ' :: ((text first).toList ++
      (others.flatMap (fun stmt => ' ' :: (text stmt).toList) ++ rest)))
    (hrest : rest = '\n' :: tail ∨
      rest = tail ∧ ((first :: others).getLast (List.cons_ne_nil _ _)).endsLine = true) :
    ∃ xs t, Derives IsSeparator (.statement (.list first others)) xs ∧ Reads s xs t ∧
      Closing lists saved tail t := by
  obtain ⟨hw₁, hw₂⟩ := List.forall_mem_cons.1 hw
  have hcolon := (h.resume.skip.forward 1).setMode .colon
  obtain ⟨s₁, e₁, h₁⟩ := hcolon.reads_of_look (x := .colon) (h.look_of_read (.colon hr hb))
    ⟨rfl, rfl⟩ (by simp) rfl
  -- Behind the colon one more line list is open.
  obtain ⟨c, cs, hc, hs⟩ := exists_text_eq_cons hw₁
  have hskip : s₁.resume.skipBlanks.rest = (text first).toList ++
      (others.flatMap (fun stmt => ' ' :: (text stmt).toList) ++ rest) := by
    have hrest₁ : s₁.resume.rest = ' ' :: ((text first).toList ++
        (others.flatMap (fun stmt => ' ' :: (text stmt).toList) ++ rest)) := by
      refine h₁.rest.trans ?_
      change (s.resume.skip.forward 1).rest = _
      rw [rest_forward, show s.resume.skip.rest = _ from hr]
      rfl
    rw [skipBlanks, rest_skipWhile, hrest₁, List.dropWhile_cons_of_pos (by decide), hc]
    exact List.dropWhile_cons_of_neg (by simp [Text.isBlank_of_isSpace hs])
  obtain ⟨hline, hlook⟩ := h₁.poised.look_openLine fun cs hcs =>
    text_append_ne_openBraces hw₁ _ cs (hskip.symm.trans hcs)
  obtain ⟨xs, s₂, hxs, e₂, h₂⟩ := reads_text first hw₁ hline rfl
    ((rest_skip_openLine s₁).trans hskip)
  obtain ⟨ys, s₃, hys, e₃, h₃⟩ := reads_lineItems hw₂ hopen hxs.nest e₂ h₂
  obtain ⟨t, e₄, h₄⟩ := (h₃.closing hrest).reads_newline (Int.natCast_nonneg lists)
  obtain ⟨y, zs, rfl, -⟩ := hys.items_starts
  have e₃' := Reads.congr hlook e₃
  exact ⟨_, t, .lineList hys, e₁.cons (reads_append.2 ⟨s₃, e₃', e₄⟩), h₄⟩

end Stmt

/-- A list whose line is ended by one of its statements is over there. -/
theorem exists_of_endsLine (h : ∃ stmt ∈ (first :: others).dropLast, stmt.endsLine = true) :
    ∃ kept more, others = kept ++ more ∧ more ≠ [] ∧
      (∀ stmt ∈ (first :: kept).dropLast, stmt.endsLine = false) ∧
      ((first :: kept).getLast (List.cons_ne_nil _ _)).endsLine = true := by
  induction others generalizing first with
  | nil =>
    obtain ⟨stmt, hm, -⟩ := h
    cases hm
  | cons second others ih =>
    cases hf : first.endsLine with
    | true => exact ⟨[], _, rfl, List.cons_ne_nil _ _, nofun, hf⟩
    | false =>
      obtain ⟨stmt, hm, he⟩ := h
      have hm : stmt ∈ (second :: others).dropLast := by
        rcases List.mem_cons.1 hm with rfl | hm
        · rw [hf] at he
          cases he
        · exact hm
      obtain ⟨kept, more, rfl, hmore, hopen, hend⟩ := ih ⟨stmt, hm, he⟩
      exact ⟨second :: kept, more, rfl, hmore, List.forall_mem_cons.2 ⟨hf, hopen⟩, hend⟩

/-- A well-formed statement on its own is what its canonical text reads as. -/
theorem parse_text {stmt : Stmt} (hw : stmt.WellFormed) (hle : stmt.height ≤ Parse.nestingLimit)
    (filename : String) : parse (Stmt.text stmt) filename = .ok [stmt] := by
  have hscript : Stmt.scriptText [stmt] = Stmt.text stmt := rfl
  obtain ⟨xs, t, hd, hr, ht⟩ := Stmt.reads_scriptText (List.forall_mem_singleton.2 hw) filename
  rw [hscript] at hr
  exact parse_of_derives hd hr ht.look_end ht.poised.fault_look (List.forall_mem_singleton.2 hle)

/-- **A list may be written on one line just when no statement but its last ends the line**;
then it reads as the list between braces does. -/
theorem parse_lineListText_iff (hw : ∀ stmt ∈ first :: others, stmt.WellFormed)
    (hle : (Tree.list first others).height ≤ Parse.nestingLimit) (filename : String) :
    parse (Stmt.text (.list first others)) filename = .ok [.list first others] ∧
      (parse (Stmt.lineListText (first :: others)) filename = .ok [.list first others] ↔
        ∀ stmt ∈ (first :: others).dropLast, stmt.endsLine = false) := by
  refine ⟨parse_text (Tree.forall_walk_list.2 ⟨trivial, hw⟩) hle filename, ?_⟩
  have hstart := poised_ofText (Stmt.lineListText (first :: others)) filename
  have hskip : (ofText (Stmt.lineListText (first :: others)) filename).skip.rest =
      ':' :: ' ' :: ((Stmt.text first).toList ++
        (others.flatMap (fun stmt => ' ' :: (Stmt.text stmt).toList) ++ ['\n'])) :=
    rest_skip (Stmt.toList_lineListText first others) (by decide)
  constructor
  · intro hparse
    by_contra hopen
    have hends : ∃ stmt ∈ (first :: others).dropLast, stmt.endsLine = true := by
      simpa using hopen
    -- The list that is read stops at the statement that ends the line.
    obtain ⟨kept, more, rfl, hmore, hkept, hlast⟩ := exists_of_endsLine hends
    rw [List.flatMap_append, List.append_assoc] at hskip
    have hw' : ∀ stmt ∈ first :: kept, stmt.WellFormed := fun stmt hm =>
      hw stmt (List.mem_append_left more hm)
    obtain ⟨xs, t, hd, hr, owed, lists, -, -, ht, -⟩ :=
      Stmt.reads_lineList hw' hkept hstart rfl hskip (.inr ⟨rfl, hlast⟩)
    have hheight : (Tree.list first kept).height ≤ Parse.nestingLimit := by
      rw [Parse.nestingLimit, Tree.height_list_le_iff] at hle ⊢
      exact fun item hm => hle item (List.mem_append_left more hm)
    obtain ⟨b, delivery, -, hdelivery, hrun⟩ :=
      (Session.at_start _ filename).run_of_nested hd.nest hr ht.fault_look hheight
    have hstmts := (parse_eq_ok_iff.1 hparse).2
    rw [readScript, hrun] at hstmts
    have hlist : delivery.statement = .list first (kept ++ more) := (List.cons_eq_cons.1 hstmts).1
    rw [hdelivery, Tree.list.injEq] at hlist
    exact hmore (List.append_right_eq_self.1 hlist.2.symm)
  · intro hopen
    obtain ⟨xs, t, hd, hr, ht⟩ := Stmt.reads_lineList hw hopen hstart rfl hskip (.inl rfl)
    obtain ⟨hk, hf⟩ := ht.look_end
    have hscript : Derives IsSeparator (.script [.list first others]) (xs ++ []) :=
      .next hd.nest (.finish (List.forall_mem_nil _))
    rw [List.append_nil] at hscript
    exact parse_of_derives hscript hr hk hf (List.forall_mem_singleton.2 hle)

/-- Statements for one line: a command on a line stands between braces, a line break in a
block, and the last statement ends the line. -/
def lineSample : List Stmt :=
  [.exec .wait "cat\n\x7b\x7b x", .cmd "top" (.map "t" (.exec .async "echo \x7d\x7d"))]

/-- They stand on one line behind a list between braces. -/
theorem parse_lineListText_iff_sample :
    parse (Stmt.text (.list (.map "gx" (.list (.exec .shell "a \x7d") [.call "cd" ["~"]]))
        lineSample)) unnamed =
        .ok [.list (.map "gx" (.list (.exec .shell "a \x7d") [.call "cd" ["~"]])) lineSample] ∧
      parse (Stmt.lineListText (.map "gx" (.list (.exec .shell "a \x7d") [.call "cd" ["~"]]) ::
        lineSample)) unnamed =
        .ok [.list (.map "gx" (.list (.exec .shell "a \x7d") [.call "cd" ["~"]])) lineSample] := by
  have h := @parse_lineListText_iff
    (.map "gx" (.list (.exec .shell "a \x7d") [.call "cd" ["~"]])) lineSample
    (by decide) (by decide) unnamed
  exact ⟨h.1, h.2.2 (by decide)⟩

end RcScript
