/-
# Completing what is begun

A script that ends in the middle of a statement can be completed if its terminals so far
begin one of the strict grammar: more text is read so that the phrase is whole
(`Begun.completed`).  The text is put together from inside out: what the innermost
statement still needs, a line break for the line lists around it, closing braces for each
list between braces.  What is carried along is that no more is owed and open than the
statements outside wait for, and that a line break to close them is left or has been read
(`Closing`).  A newline marker that was taken for a semicolon is what cannot be made up for.

A scanner that stands at the end of its script has to be compared with one that has the
text to read.  They are the same up to the text (`Resumes`): the one is the other with more
to come, behind a space, or behind a line break where the text of a command reaches the
end.  So completing is a statement about the terminals read so far and the phrase that they
begin, and its induction is on how the phrase is begun.  The lemmas `Completes.of_text`,
`Completes.lineList` and `Completes.bracedList` are its steps.

The shortest statement is what is written where a statement is needed and none is there: a
call of one letter.  It is read in any mode in which a statement may begin, it needs one
level of depth, and it closes nothing.  With it every phrase that is begun has a
completion, and which one it is does not matter to the statement, which only says that
there is some text.
-/

import RcScript.Proofs.Grammar.Begun
import RcScript.Proofs.Grammar.Strict
import RcScript.Proofs.Scanner.Before
import RcScript.Proofs.Scanner.Longer

namespace RcScript

open Terminal

namespace Scanner

variable {s t u u' : Scanner} {dues : Int} {lists : Nat} {saved : List Nat} {x : Terminal}
  {tail text : List Char}

/-- The shortest name begins with neither a colon nor a sigil. -/
theorem head_shortest : ∀ c ∈ "a".toList.head?, c ≠ ':' ∧ Sigil.ofChar? c = none := by
  intro c hc
  obtain rfl : 'a' = c := by simpa using hc
  decide

/-- The shortest statement is read as it is written. -/
theorem Poised.reads_shortest (h : Poised .normal 0 lists saved s)
    (hr : s.skip.rest = 'a' :: ';' :: tail) :
    ∃ t, Reads s [word "a", separator] t ∧ Stands .normal 0 lists saved true tail t := by
  obtain ⟨v, e₁, h₁⟩ := h.reads_word (by decide) hr (by simp) (fun _ => head_shortest) false
  obtain ⟨t, e₂, h₂⟩ := h₁.poised.reads_separator (rest_skip h₁.rest (by decide))
  exact ⟨t, e₁.cons e₂, h₂⟩

/-- After a colon the shortest statement makes a line list. -/
theorem Poised.reads_shortest_colon (h : Poised .colon 0 lists saved s)
    (hr : s.resume.skipBlanks.rest = 'a' :: ';' :: tail) :
    ∃ t, Reads s [word "a", separator] t ∧ Stands .normal 0 (lists + 1) saved true tail t := by
  obtain ⟨hopen, hlook⟩ := h.look_openLine fun cs hc => by
    rw [hr] at hc
    cases hc
  obtain ⟨t, e, ht⟩ := hopen.reads_shortest ((rest_skip_openLine s).trans hr)
  exact ⟨t, Reads.congr hlook e, ht⟩

/-- A scanner after a phrase, with the text after the next line break left: as much is owed
and open as is due, and the line break is left, or has closed the line lists. -/
def Closing (dues : Int) (saved : List Nat) (tail : List Char) (s : Scanner) : Prop :=
  ∃ owed lists, 0 ≤ owed ∧ owed + (lists : Nat) = dues ∧ Poised .normal owed lists saved s ∧
    (s.rest = '\n' :: tail ∨ s.rest = tail ∧ lists = 0)

/-- Before a line break, where nothing is owed, the line lists can be closed. -/
theorem Stands.closing {begins : Bool}
    (h : Stands .normal 0 lists saved begins ('\n' :: tail) s) : Closing lists saved tail s :=
  ⟨0, lists, Int.le_refl 0, Int.zero_add _, h.poised, .inl h.rest⟩

/-- **A line break closes the line lists that are open**, one newline marker each. -/
theorem Closing.reads_newline (h : Closing (dues + 1) saved tail s) (hd : 0 ≤ dues) :
    ∃ t, Reads s [newline] t ∧ Closing dues saved tail t := by
  obtain ⟨owed, lists, ho, hdues, h, hr⟩ := h
  by_cases hzero : owed = 0
  · subst hzero
    have hlists : s.resume.lineLists ≠ 0 := by
      rw [h.resume.lists]
      omega
    have hline : s.resume.skip.rest = '\n' :: tail := by
      have hr := hr.resolve_right fun hr => hlists (h.resume.lists.trans hr.2)
      rw [skip, rest_skipWhile, if_neg hlists, show s.resume.rest = _ from hr]
      rfl
    have hafter : Poised .normal (lists - 1) 0 saved (s.resume.skip.takeLineEnd 0).2 :=
      h.resume.skip.takeLineEnd (by omega)
    obtain ⟨t, e, ht⟩ := hafter.reads_of_look (x := newline)
      (h.look_of_read (.lineEnd (.inr ⟨tail, hline⟩) hlists)) ⟨rfl, rfl⟩ (by simp) rfl
    refine ⟨t, e, _, 0, by omega, by omega, ht.poised, .inr ⟨ht.rest.trans ?_, rfl⟩⟩
    change (s.resume.skip.endLine 0).rest = tail
    rw [rest_endLine, hline]
    rfl
  · have hne : s.owed ≠ 0 := h.owed ▸ hzero
    have hafter : Poised .normal (owed - 1) lists saved
        { s with owed := s.owed - 1, beginsStatement := true } :=
      ⟨h.mode, congrArg (· - 1) h.owed, h.lists, h.saved, h.live, h.sound⟩
    obtain ⟨t, e, ht⟩ := hafter.reads_of_look (x := newline) ((Step.owed hne).eq_look h.live)
      ⟨rfl, rfl⟩ (by simp) rfl
    have hrest : t.rest = s.rest := ht.rest
    exact ⟨t, e, _, lists, by omega, by omega, ht.poised, hrest ▸ hr⟩

/-- Where nothing is due the line break is passed. -/
theorem Closing.rest_skip {c : Char} {cs : List Char} (h : Closing 0 saved (c :: cs) s)
    (hc : Text.isSpace c = false) :
    Poised .normal 0 0 saved s ∧ s.skip.rest = c :: cs := by
  obtain ⟨owed, lists, ho, hdues, h, hr⟩ := h
  obtain ⟨rfl, rfl⟩ : owed = 0 ∧ lists = 0 := by omega
  refine ⟨h, ?_⟩
  rcases hr with hr | ⟨hr, -⟩
  · exact rest_skip_space hr hc (.inr ⟨rfl, h.lists⟩)
  · exact Scanner.rest_skip hr hc

/-- Where nothing is due the script is at its end. -/
theorem Closing.look_end (h : Closing 0 [] [] t) :
    t.look.token.kind = .endOfInput ∧ t.look.fault = none := by
  obtain ⟨owed, lists, ho, hdues, h, hr⟩ := h
  obtain ⟨rfl, rfl⟩ : owed = 0 ∧ lists = 0 := by omega
  have hrest : t.resume.skip.rest = [] := by
    rw [skip, rest_skipWhile, if_pos h.resume.lists]
    rcases hr with hr | ⟨hr, -⟩
    · rw [show t.resume.rest = _ from hr]
      rfl
    · rw [show t.resume.rest = _ from hr]
      rfl
  have hlook := h.look_of_read (.finish hrest h.resume.lists)
  exact ⟨by rw [hlook]; rfl, h.fault_look⟩

/-- After the text of a block its closing braces are left. -/
theorem Poised.not_ended_blockText {text : String} (h : Poised .sigil 0 lists saved s)
    (hr : Reads s [.openBraces, command text] t) : ¬t.look.Ended := by
  obtain ⟨⟨hk₁, -⟩, -, ⟨hk₂, -⟩, -, rfl⟩ := hr
  have h₁ := h.look_of_sigil.1 hk₁
  have step := step_look h₁.live
  intro he
  have hkind := he.token.imp (congrArg Token.kind) (congrArg Token.kind)
  rcases step.command_of_block h₁.owed h₁.mode with ⟨-, -, ho, hm, cs, rest⟩ | ⟨hk, -⟩
  · have hlive := (h₁.look_of_block hk₂).live
    have hclose := ((step_look hlive).closeBraces_of_rest ho hm rest).1
    change s.look.look.look.token.kind = _ ∨ s.look.look.look.token.kind = _ at hkind
    simp [hclose] at hkind
  · cases hk.symm.trans hk₂

/-- A scanner before the end of its script; it owes markers only if a command text reaches
the end. -/
structure AtEnd (s : Scanner) : Prop where
  ended : s.look.Ended
  sound : s.look.fault = none
  owes : s.owed ≠ 0 → s.rest = [] ∧ s.beginsStatement = false

/-- A script that goes on behind a line break is longer. -/
theorem longer_extend (tail : List Char) (s : Scanner) :
    Longer tail s (s.extend ('\n' :: tail)) := ⟨⟨rfl, rfl, rfl, rfl, rfl, rfl⟩, rfl, rfl⟩

/-- A scanner that has a text to read where another one is at the end of its script: after
a space, unless a command text reaches the end, which takes a line break. -/
def Resumes (text : List Char) (s s' : Scanner) : Prop :=
  s.owed = 0 ∧ s' = s.extend (' ' :: text) ∨
    s.owed ≠ 0 ∧ ∃ tail, text = '\n' :: tail ∧ Continues tail s s'

end Scanner

open Scanner

variable {depth depth' : Nat} {part part' : Part} {xs xs' : List Terminal} {dues : Int}
  {lists : Nat} {saved : List Nat} {s u u' : Scanner}

/-- Some text after the end of the script makes a whole of the terminals that were read. -/
def Completes (part : Part) (depth : Nat) (dues : Int) (saved : List Nat) (xs : List Terminal)
    (u : Scanner) : Prop :=
  ∃ text, (u.owed ≠ 0 → ∀ c ∈ text.head?, c = '\n') ∧
    ∀ tail u', Resumes (text ++ '\n' :: tail) u u' →
      ∃ ys t, Whole IsSeparator part depth (xs ++ ys) ∧ Reads u' ys t ∧ Closing dues saved tail t

/-- What completes a part completes what it is a part of, if nothing more is needed. -/
theorem Completes.imp (h : Completes part depth dues saved xs u)
    (hw : ∀ ys, Whole IsSeparator part depth (xs ++ ys) →
      Whole IsSeparator part' depth' (xs' ++ ys)) :
    Completes part' depth' dues saved xs' u := by
  obtain ⟨text, hhead, h⟩ := h
  refine ⟨text, hhead, fun tail u' hu => ?_⟩
  obtain ⟨ys, t, hwhole, hr, ht⟩ := h tail u' hu
  exact ⟨ys, t, hw ys hwhole, hr, ht⟩

/-- Where no marker is owed, a text after a space completes what it is read to complete. -/
theorem Completes.of_text (ho : u.owed = 0) (text : List Char)
    (h : ∀ tail, ∃ ys t, Whole IsSeparator part depth (xs ++ ys) ∧
      Reads (u.extend (' ' :: (text ++ '\n' :: tail))) ys t ∧ Closing dues saved tail t) :
    Completes part depth dues saved xs u := by
  refine ⟨text, fun hne => absurd ho hne, fun tail u' hu => ?_⟩
  obtain ⟨-, rfl⟩ | ⟨hne, -⟩ := hu
  · exact h tail
  · exact absurd ho hne

/-- The shortest statement completes what needs one. -/
theorem Scanner.Poised.completes_shortest (h : Poised .normal 0 lists saved u) (hu : u.AtEnd)
    (hw : Whole IsSeparator part depth (xs ++ [word "a", separator])) :
    Completes part depth lists saved xs u := by
  refine .of_text h.owed ['a', ';'] fun tail => ?_
  have hrest := rest_skip_extend 'a' (';' :: '\n' :: tail) (h.rest_of_ended hu.ended) (by decide)
  obtain ⟨t, e, ht⟩ := (h.extend _).reads_shortest hrest
  exact ⟨_, t, hw, e, ht.closing⟩

/-- A semicolon completes what needs no more. -/
theorem Scanner.Poised.completes_separator (h : Poised .normal 0 lists saved u) (hu : u.AtEnd)
    (hw : Whole IsSeparator part depth (xs ++ [separator])) :
    Completes part depth lists saved xs u := by
  refine .of_text h.owed [';'] fun tail => ?_
  have hrest := rest_skip_extend ';' ('\n' :: tail) (h.rest_of_ended hu.ended) (by decide)
  obtain ⟨t, e, ht⟩ := (h.extend _).reads_separator hrest
  exact ⟨_, t, hw, e, ht.closing⟩

/-- A semicolon completes what has its braces closed. -/
theorem Scanner.Poised.completes_terminator (h : Poised .terminator 0 lists saved u)
    (hu : u.AtEnd) (hw : Whole IsSeparator part depth (xs ++ [separator])) :
    Completes part depth lists saved xs u := by
  refine .of_text h.owed [';'] fun tail => ?_
  have hrest := rest_skipBlanks_extend ';' ('\n' :: tail)
    (h.rest_of_ended_terminator hu.ended hu.sound) (by decide)
  obtain ⟨t, e, ht⟩ := (h.extend _).reads_terminator hrest
  exact ⟨_, t, hw, e, ht.closing⟩

/-- A binding or a definition without a head needs one, and a statement. -/
theorem Scanner.Poised.completes_keyword (h : Poised .normal 0 lists saved u) (hu : u.AtEnd)
    (hw : Whole IsSeparator part depth (xs ++ [head "a", word "a", separator])) :
    Completes part depth lists saved xs u := by
  refine .of_text h.owed ['a', ' ', 'a', ';'] fun tail => ?_
  have hrest := rest_skip_extend 'a' (' ' :: 'a' :: ';' :: '\n' :: tail)
    (h.rest_of_ended hu.ended) (by decide)
  have hspace : ∀ c ∈ (' ' :: 'a' :: ';' :: '\n' :: tail).head?,
      Text.isSpace c = true ∨ c = ';' := by
    rintro _ ⟨⟩
    exact .inl (by decide)
  obtain ⟨v, e₁, h₁⟩ :=
    (h.extend _).reads_word (by decide) hrest hspace (fun _ => head_shortest) true
  obtain ⟨t, e₂, ht⟩ := h₁.poised.reads_shortest
    (rest_skip_space h₁.rest (by decide) (.inl rfl))
  exact ⟨_, t, hw, Reads.cons e₁ e₂, ht.closing⟩

/-- A colon with nothing after it begins a line list. -/
theorem Scanner.Poised.completes_colon (h : Poised .colon 0 lists saved u) (hu : u.AtEnd) :
    Completes .one (depth + 2) lists saved [colon] u := by
  refine .of_text h.owed ['a', ';'] fun tail => ?_
  have hrest := rest_skipBlanks_extend 'a' (';' :: '\n' :: tail)
    (h.rest_of_ended_colon hu.ended) (by decide)
  obtain ⟨v, e₁, h₁⟩ := (h.extend _).reads_shortest_colon hrest
  have hclosing : Closing (lists + 1) saved tail v := h₁.closing
  obtain ⟨t, e₂, ht⟩ := hclosing.reads_newline (Int.natCast_nonneg lists)
  exact ⟨_, t, (Whole.shortest isSeparator_separator).first.lineList,
    reads_append.2 ⟨v, e₁, e₂⟩, ht⟩

/-- The text of a command on a line is followed by the end of the line. -/
theorem Scanner.Poised.completes_line (h : Poised .normal (lists + 1) 0 saved u) (hu : u.AtEnd)
    (hw : Whole IsSeparator part depth (xs ++ [newline])) :
    Completes part depth lists saved xs u := by
  have hne : u.owed ≠ 0 := by
    rw [h.owed]
    omega
  refine ⟨[], fun _ => nofun, fun tail u' hresumes => ?_⟩
  obtain ⟨he, -⟩ | ⟨-, tail', he, hcont⟩ := hresumes
  · exact absurd he hne
  · obtain rfl : tail = tail' := (List.cons_eq_cons.1 he).2
    have hrest : u'.rest = '\n' :: tail ∨ u'.rest = tail ∧ 0 = 0 := by
      rcases hcont.rest with hr | ⟨-, hr, -⟩
      · rw [(hu.owes hne).1] at hr
        exact .inl hr
      · exact .inr ⟨hr, rfl⟩
    have hclosing : Closing (lists + 1) saved tail u' :=
      ⟨_, 0, by omega, by omega, hcont.poised h, hrest⟩
    obtain ⟨t, e, ht⟩ := hclosing.reads_newline (Int.natCast_nonneg lists)
    exact ⟨_, t, hw, e, ht⟩

/-- **A line list is closed by the line break** that its last statement leaves. -/
theorem Completes.lineList (h : Completes .several depth (lists + 1) saved xs u) :
    Completes .one (depth + 1) lists saved (colon :: xs) u := by
  obtain ⟨text, hhead, h⟩ := h
  refine ⟨text, hhead, fun tail u' hu => ?_⟩
  obtain ⟨ys, v, hw, hr, hv⟩ := h tail u' hu
  obtain ⟨t, e, ht⟩ := hv.reads_newline (Int.natCast_nonneg lists)
  refine ⟨ys ++ [newline], t, ?_, reads_append.2 ⟨v, hr, e⟩, ht⟩
  simpa using hw.lineList

/-- **A list between braces is closed by braces**, after a line break that closes whatever
its last statement has left open. -/
theorem Completes.bracedList (h : Completes .several depth 0 (lists :: saved) xs u) :
    Completes .one (depth + 1) lists saved (colon :: openBraces :: xs) u := by
  obtain ⟨text, hhead, h⟩ := h
  refine ⟨text ++ ['\n', '}', '}', ';'], fun hne c hc => ?_, fun tail u' hu => ?_⟩
  · cases text with
    | nil => exact (Option.some.inj hc).symm
    | cons d text => exact hhead hne c hc
  · have hu : Resumes (text ++ '\n' :: '}' :: '}' :: ';' :: '\n' :: tail) u u' := by
      simpa using hu
    obtain ⟨ys, v, hw, hr, hv⟩ := h _ u' hu
    obtain ⟨hpoised, hskip⟩ := hv.rest_skip (by decide)
    obtain ⟨t, e, ht⟩ := hpoised.reads_closeBraces hskip
    refine ⟨ys ++ [.closeBraces, .separator], t, ?_, reads_append.2 ⟨v, hr, e⟩, ht.closing⟩
    simpa using hw.bracedList (.inl rfl)

/-- **What is begun in the strict grammar is completed by some text.** -/
theorem Begun.completed (hb : Begun IsSeparator part depth xs) (hs : Ready dues saved s)
    (hr : Reads s xs u) (hu : u.AtEnd) : Completes part depth dues saved xs u := by
  induction hb generalizing s dues saved with
  | nothing =>
    obtain rfl : u = s := hr
    have ho : u.owed = 0 := by
      by_contra hne
      exact absurd ((hu.owes hne).2.symm.trans hs.begins) Bool.false_ne_true
    obtain ⟨owed, lists, -, rfl, h⟩ := hs.owing
    obtain rfl : owed = 0 := h.owed.symm.trans ho
    rw [Int.zero_add]
    exact h.completes_shortest hu (Whole.shortest isSeparator_separator)
  | separator ends begun ih =>
    obtain rfl := ends
    obtain ⟨s₁, hr₁, hr⟩ := reads_cons.1 hr
    exact (ih (hs.owing.read_separator hr₁) hr).imp fun ys hw => hw.separator rfl
  | set =>
    obtain ⟨lists, rfl, h⟩ := hs.owing.poised_words (List.cons_ne_nil _ _) (by simp [word]) hr
    exact h.completes_shortest hu (.switch "a" rfl)
  | option option =>
    obtain ⟨lists, rfl, h⟩ := hs.owing.poised_words (List.cons_ne_nil _ _) (by simp [word]) hr
    exact h.completes_separator hu (.switch option rfl)
  | value option value =>
    obtain ⟨lists, rfl, h⟩ := hs.owing.poised_words (List.cons_ne_nil _ _) (by simp [word]) hr
    exact h.completes_separator hu (.setting option value rfl)
  | keyword known =>
    obtain ⟨lists, rfl, h⟩ := hs.owing.poised_words (List.cons_ne_nil _ _) (by simp [word]) hr
    exact h.completes_keyword hu ((Whole.shortest isSeparator_separator).body known "a")
  | body known text begun ih =>
    obtain ⟨s₁, -, hr, h₁, -⟩ := hs.read_headed hr
    exact (ih h₁ hr).imp fun ys hw => hw.body known text
  | call args free =>
    obtain ⟨lists, rfl, h⟩ := hs.owing.poised_words (List.cons_ne_nil _ _) (by simp [word]) hr
    exact h.completes_separator hu (.call args free rfl)
  | sigil g =>
    -- behind a sigil the end of the script is a fault
    obtain ⟨lists, rfl, h⟩ := hs.owing.read_sigil hr
    exact absurd hu.ended (h.not_ended_command (.inl rfl) hu.sound)
  | line g text =>
    obtain ⟨s₁, hr₁, hr⟩ := reads_cons.1 hr
    obtain ⟨lists, rfl, h⟩ := hs.owing.read_sigil hr₁
    obtain ⟨⟨hk, -⟩, -, rfl⟩ := hr
    exact ((h.look_of_sigil.2 hk).ask _).completes_line hu (.line g text)
  | openBlock g =>
    obtain ⟨s₁, hr₁, hr⟩ := reads_cons.1 hr
    obtain ⟨lists, rfl, h⟩ := hs.owing.read_sigil hr₁
    obtain ⟨⟨hk, -⟩, -, rfl⟩ := hr
    exact absurd hu.ended
      (((h.look_of_sigil.1 hk).ask _).not_ended_command (.inr rfl) hu.sound)
  | blockText g text =>
    -- a text that was read in a block has closing braces behind it
    obtain ⟨s₁, hr₁, hr⟩ := reads_cons.1 hr
    obtain ⟨lists, rfl, h⟩ := hs.owing.read_sigil hr₁
    exact absurd hu.ended (h.not_ended_blockText hr)
  | block g text =>
    obtain ⟨s₁, hr₁, hr⟩ := reads_cons.1 hr
    obtain ⟨lists, rfl, h⟩ := hs.owing.read_sigil hr₁
    obtain ⟨h₂, -⟩ := h.read_block hr
    exact h₂.completes_terminator hu (.block g text (.inl rfl))
  | colon =>
    obtain ⟨lists, rfl, h⟩ := hs.owing.read_colon hr
    exact h.completes_colon hu
  | lineList begun ih =>
    obtain ⟨s₁, hr₁, hr⟩ := reads_cons.1 hr
    obtain ⟨lists, rfl, h⟩ := hs.owing.read_colon hr₁
    have hne := (begun.starts _ rfl).kind_ne fun _ => .inl
    obtain ⟨v, hv, hr⟩ := h.exists_ready_of_reads hr hne
    exact (ih hv hr).lineList
  | bracedList begun ih =>
    obtain ⟨lists, s₁, rfl, -, hr, h⟩ := hs.read_listHead hr
    exact (ih h hr).bracedList
  | closed whole =>
    obtain ⟨lists, s₁, rfl, -, hr, h₁⟩ := hs.read_listHead hr
    obtain ⟨s₂, hr₂, hr₃⟩ := reads_append.1 hr
    obtain ⟨first, others, -, hd⟩ := id whole
    have h₂ := hd.keeps_dues h₁ hr₂
    have h₃ := h₂.owing.read_closeBraces hr₃
    exact h₃.completes_terminator hu (by simpa using whole.bracedList (.inl rfl))
  | first begun ih => exact (ih hs hr).imp fun ys hw => hw.first
  | next whole begun ih =>
    obtain ⟨s₁, hr₁, hr⟩ := reads_append.1 hr
    obtain ⟨stmt, -, hd⟩ := id whole
    refine (ih (hd.keeps_dues hs hr₁) hr).imp fun ys hw => ?_
    rw [List.append_assoc]
    exact whole.next hw

end RcScript
