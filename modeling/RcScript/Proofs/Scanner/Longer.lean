/-
# Scanning a longer script

A line break and more text after a script change none of its tokens.  A scanner
`Continues` another one when it is in the same state and has the line break and
the text more to read; where the end of the script has ended the last line, it has
passed the line break for it and has the text left.  Every token but the end of
input is then read by both, and one continues the other after it
(`Continues.look`, `Reads.continues`).

The line break between the two texts takes the place of the end of the first one, and the
end of a script acts on a line list as a line break does; so both scanners end their last
line, one because it has met the end and the other because of the line break.  What is
different then is only that the one has nothing left and the other one has a script to
read, in the same state.

Two relations are needed because the line break is passed by one scanner while the other
one does not move.  As long as something of the script is left, or the line has not been
ended, the scanners are `Longer`: both have the same to read, one of them with the line
break and the text behind it.  When the end of the script has ended the last line, the one
has nothing left, and the other one stands behind the line break with the same markers to
pay.  `Continues` is the two together, and it is what a look keeps.  Where the first scanner
comes to the end of input, `Continues.exists_forward` says how far the other one is from
its own text: some spaces, which nobody reads.
-/

import RcScript.Proofs.Scanner.Level
import RcScript.Proofs.Scanner.Written

namespace RcScript
namespace Scanner

/-- A scanner in the same state as another one, with a line break and a text more
to read. -/
structure Longer (tail : List Char) (s s' : Scanner) : Prop where
  level : Level s s'
  fault : s'.fault = s.fault
  rest : s'.rest = s.rest ++ '\n' :: tail

/-- A scanner that is longer than another one, or that has passed a line break where
the other one has met the end of its script. -/
structure Continues (tail : List Char) (s s' : Scanner) : Prop where
  level : Level s s'
  fault : s'.fault = s.fault
  rest : s'.rest = s.rest ++ '\n' :: tail ∨
    s.rest = [] ∧ s'.rest = tail ∧ s.mode = .normal ∧ s.lineLists = 0

variable {s s' t : Scanner} {tail : List Char}

/-- What is longer continues. -/
theorem Longer.continues (h : Longer tail s s') : Continues tail s s' :=
  ⟨h.level, h.fault, .inl h.rest⟩

section
variable (h : Longer tail s s')
include h

/-- Using up mode and request leaves the scanner longer. -/
theorem Longer.resume : Longer tail s.resume s'.resume := { h with level := h.level.resume }

/-- Taking the same mode leaves the scanner longer. -/
theorem Longer.setMode (mode : Mode) :
    Longer tail { s with mode := mode } { s' with mode := mode } :=
  { h with level := h.level.setMode mode }

/-- Being asked alike leaves the scanner longer. -/
theorem Longer.setBegins (begins : Bool) :
    Longer tail { s with beginsStatement := begins } { s' with beginsStatement := begins } :=
  { h with level := h.level.setBegins begins }

/-- Opening a line list leaves the scanner longer. -/
theorem Longer.openLine :
    Longer tail { s with lineLists := s.lineLists + 1 } { s' with lineLists := s'.lineLists + 1 } :=
  { h with level := h.level.openLine }

/-- Opening braces leaves the scanner longer. -/
theorem Longer.openBraces (ofList : Bool) :
    Longer tail (s.openBraces ofList) (s'.openBraces ofList) :=
  { h with level := h.level.openBraces ofList }

/-- Closing braces leaves the scanner longer. -/
theorem Longer.closeBraces : Longer tail s.closeBraces s'.closeBraces := by
  have hl := h.level.closeBraces
  rw [closeBraces_eq, closeBraces_eq] at hl ⊢
  exact { h with level := hl }

/-- Passing characters of the script leaves the scanner longer. -/
theorem Longer.forward {k : Nat} (hk : k ≤ s.rest.length) :
    Longer tail (s.forward k) (s'.forward k) := by
  refine { h with level := { h.level with }, rest := ?_ }
  rw [rest_forward, rest_forward, h.rest, List.drop_append_of_le_length hk]

/-- What stops short of a line break stops before it in a longer script. -/
theorem Longer.skipWhile {p : Char → Bool} (hp : p '\n' = false ∨ (s.skipWhile p).rest ≠ []) :
    Longer tail (s.skipWhile p) (s'.skipWhile p) := by
  refine { h with level := { h.level with }, rest := ?_ }
  rw [rest_skipWhile] at hp
  rw [rest_skipWhile, rest_skipWhile, h.rest, List.dropWhile_append]
  split
  · next he =>
    rw [List.isEmpty_iff] at he
    have hn : p '\n' = false := hp.resolve_right (absurd he)
    rw [he, List.dropWhile_cons_of_neg (by simp [hn]), List.nil_append]
  · rfl

/-- Blanks stop before the line break of the longer script. -/
theorem Longer.skipBlanks : Longer tail s.skipBlanks s'.skipBlanks :=
  h.skipWhile (.inl Text.lineBreak_not_blank.2)

/-- What separates tokens stops before the line break as well, if a line list is open or
something is left. -/
theorem Longer.skip (hr : s.lineLists ≠ 0 ∨ s.skip.rest ≠ []) : Longer tail s.skip s'.skip := by
  rw [Scanner.skip, Scanner.skip, h.level.lists]
  refine h.skipWhile (hr.imp_left fun hl => ?_)
  rw [if_neg hl]
  exact Text.lineBreak_not_blank.2

/-- Where a line ends, a line break is left of the longer script. -/
theorem Longer.exists_lineBreak (hr : s.rest = [] ∨ ∃ cs, s.rest = '\n' :: cs) :
    ∃ cs, s'.rest = '\n' :: cs := by
  rw [h.rest]
  rcases hr with hr | ⟨cs, hr⟩ <;> rw [hr]
  · exact ⟨tail, rfl⟩
  · exact ⟨cs ++ '\n' :: tail, rfl⟩

/-- **The end of a script ends its last line as a line break does.** -/
theorem Longer.endLine (hm : s.mode = .normal) (hr : s.rest = [] ∨ ∃ cs, s.rest = '\n' :: cs)
    (extra : Int) : Continues tail (s.endLine extra) (s'.endLine extra) := by
  refine { h with level := h.level.endLine extra, rest := ?_ }
  rw [rest_endLine, rest_endLine, h.rest]
  rcases hr with hr | ⟨cs, hr⟩ <;> rw [hr]
  · exact .inr ⟨rfl, rfl, hm, rfl⟩
  · exact .inl rfl

end

section
variable (h : Continues tail s s')
include h

/-- The same request leaves the scanner continuing. -/
theorem Continues.ask (begins : Bool) : Continues tail (s.ask begins) (s'.ask begins) :=
  { h with level := h.level.ask begins }

/-- Paying a marker leaves the scanner continuing. -/
theorem Continues.payOne :
    Continues tail { s with owed := s.owed - 1, beginsStatement := true }
      { s' with owed := s'.owed - 1, beginsStatement := true } :=
  { h with level := h.level.payOne }

/-- Holding tokens of the same kind leaves the scanner continuing. -/
theorem Continues.hold {token token' : Token} (hk : token'.kind = token.kind) :
    Continues tail (s.hold token) (s'.hold token') := { h with level := h.level.hold hk }

/-- The scanner that continues is poised with the same. -/
theorem Continues.poised {mode : Mode} {owed : Int} {lists : Nat} {saved : List Nat}
    (hp : Poised mode owed lists saved s) : Poised mode owed lists saved s' :=
  ⟨h.level.mode.trans hp.mode, h.level.owed.trans hp.owed, h.level.lists.trans hp.lists,
    h.level.saved.trans hp.saved, h.level.done.trans hp.live, h.fault.trans hp.sound⟩

/-- Where more is left than the end of the script, the other scanner is longer. -/
theorem Continues.longer (hs : s.mode ≠ .normal ∨ s.rest ≠ [] ∨ s.lineLists ≠ 0) :
    Longer tail s s' := by
  refine { h with rest := h.rest.resolve_right ?_ }
  rintro ⟨hr, -, hm, hl⟩
  exact hs.elim (absurd hm) (·.elim (absurd hr) (absurd hl))

end

/-- What follows two characters that are no line breaks is the script's own. -/
theorem append_lineBreak_ne {a b : Char} {cs : List Char} (ha : a ≠ '\n') (hb : b ≠ '\n')
    (h : ∀ after, cs ≠ a :: b :: after) (after : List Char) :
    cs ++ '\n' :: tail ≠ a :: b :: after := by
  rcases cs with _ | ⟨c, _ | ⟨d, cs⟩⟩
  · exact fun hc => ha (List.cons_eq_cons.1 hc).1.symm
  · exact fun hc => hb (List.cons_eq_cons.1 (List.cons_eq_cons.1 hc).2).1.symm
  · intro hc
    simp only [List.cons_append, List.cons.injEq] at hc
    exact h cs (by rw [hc.1, hc.2.1])

/-- **The tokens of a script are the same in a longer one.** -/
theorem TokenRead.continues {begins : Bool} {token : Token} {after : Scanner}
    (read : TokenRead begins s token after) (h : Longer tail s s') (hm : s.mode = .normal)
    (hk : token.kind ≠ .endOfInput) :
    ∃ token' after', TokenRead begins s' token' after' ∧ token'.kind = token.kind ∧
      token'.text = token.text ∧ Continues tail after after' := by
  have hskip : ∀ {c cs}, s.skip.rest = c :: cs → Longer tail s.skip s'.skip ∧
      s'.skip.rest = c :: (cs ++ '\n' :: tail) := fun hr => by
    have hs := h.skip (.inr (by rw [hr]; exact List.cons_ne_nil _ _))
    exact ⟨hs, by rw [hs.rest, hr]; rfl⟩
  cases read with
  | finish => exact absurd rfl hk
  | lineEnd rest lists =>
    have hs := h.skip (.inl lists)
    exact ⟨_, _, .lineEnd (.inr (hs.exists_lineBreak rest)) (h.level.lists ▸ lists), rfl, rfl,
      (hs.endLine hm rest 0).payOne⟩
  | separator rest =>
    obtain ⟨hs, hr⟩ := hskip rest
    exact ⟨_, _, .separator hr, rfl, rfl, ((hs.forward (by simp [rest])).setBegins true).continues⟩
  | openBraces rest =>
    obtain ⟨hs, hr⟩ := hskip rest
    exact ⟨_, _, .openBraces hr, rfl, rfl,
      ((hs.forward (by simp [rest])).openBraces false).continues⟩
  | closeBraces rest =>
    obtain ⟨hs, hr⟩ := hskip rest
    exact ⟨_, _, .closeBraces hr, rfl, rfl,
      ((hs.forward (by simp [rest])).setMode .terminator).closeBraces.continues⟩
  | colon rest head =>
    obtain ⟨hs, hr⟩ := hskip rest
    exact ⟨_, _, .colon hr head, rfl, rfl, ((hs.forward (by simp [rest])).setMode .colon).continues⟩
  | sigil rest head =>
    obtain ⟨hs, hr⟩ := hskip rest
    exact ⟨_, _, .sigil hr head, rfl, rfl, ((hs.forward (by simp [rest])).setMode .sigil).continues⟩
  | word rest opens closes space separator head =>
    obtain ⟨hs, hr⟩ := hskip rest
    have hw : Lexeme.word s'.skip.rest = Lexeme.word s.skip.rest := by
      rw [hs.rest, Lexeme.word_append_lineBreak]
    have hle : (Lexeme.word s.skip.rest).length ≤ s.skip.rest.length :=
      List.IsPrefix.length_le ⟨_, Lexeme.word_append_drop _⟩
    have read' := TokenRead.word hr
      (hs.rest ▸ append_lineBreak_ne (by decide) (by decide) opens)
      (hs.rest ▸ append_lineBreak_ne (by decide) (by decide) closes) space separator head
    rw [hw] at read'
    exact ⟨_, _, read', rfl, rfl, (hs.forward hle).continues⟩

/-- Where a token is read that is not the end of input, the script is not over. -/
theorem TokenRead.not_over {begins : Bool} {token : Token} {after : Scanner}
    (read : TokenRead begins s token after) (hk : token.kind ≠ .endOfInput) :
    s.rest ≠ [] ∨ s.lineLists ≠ 0 := by
  by_contra hover
  obtain ⟨hr, hl⟩ := not_or.1 hover
  rw [not_not] at hr hl
  have hs : s.skip.rest = [] := by rw [Scanner.skip, rest_skipWhile, hr, List.dropWhile_nil]
  cases read with
  | finish => exact hk rfl
  | lineEnd rest lists => exact lists hl
  | separator rest | openBraces rest | closeBraces rest | colon rest | sigil rest | word rest =>
    rw [hs] at rest
    cases rest

/-- **The steps on a script go on in a longer one**: to the end of input, or to a
fault, they need not come. -/
theorem Step.continues (step : Step s t) (h : Continues tail s s') (hf : t.fault = none)
    (hk : t.token.kind ≠ .endOfInput) :
    ∃ t', Step s' t' ∧ t'.token.kind = t.token.kind ∧ t'.token.text = t.token.text ∧
      Continues tail t t' := by
  have howed := h.level.owed
  have hmode := h.level.mode
  have hlonger : s.mode ≠ .normal → Longer tail s.resume.skipBlanks s'.resume.skipBlanks ∧
      Longer tail s.resume s'.resume := fun hm =>
    ⟨(h.longer (.inl hm)).resume.skipBlanks, (h.longer (.inl hm)).resume⟩
  cases step with
  | owed owed =>
    exact ⟨_, .owed (howed ▸ owed), rfl, rfl, h.payOne.hold rfl⟩
  | token owed mode read =>
    have hs : Longer tail s s' := h.longer (.inr (read.not_over hk))
    obtain ⟨token', after', read', hkind, htext, h'⟩ := read.continues hs.resume rfl hk
    rw [← h.level.begins] at read'
    exact ⟨_, .token (howed.trans owed) (hmode.trans mode) read', hkind, htext, h'.hold hkind⟩
  | bracedList owed mode rest =>
    obtain ⟨hb, -⟩ := hlonger (by simp [mode])
    have hr := hb.rest
    rw [rest] at hr
    refine ⟨_, .bracedList (howed.trans owed) (hmode.trans mode) hr, rfl, rfl, ?_⟩
    have hle : 2 ≤ s.resume.skipBlanks.rest.length := by simp [rest]
    exact (((hb.setBegins true).forward hle).openBraces true).continues.hold rfl
  | lineList owed mode rest read =>
    obtain ⟨hb, -⟩ := hlonger (by simp [mode])
    have hl : Longer tail { s.resume.skipBlanks with lineLists := s.lineLists + 1 }
        { s'.resume.skipBlanks with lineLists := s'.lineLists + 1 } := hb.openLine
    obtain ⟨token', after', read', hkind, htext, h'⟩ := read.continues hl rfl hk
    exact ⟨_, .lineList (howed.trans owed) (hmode.trans mode)
      (hb.rest ▸ append_lineBreak_ne (by decide) (by decide) rest) read', hkind, htext,
      h'.hold hkind⟩
  | block owed mode rest =>
    obtain ⟨hb, -⟩ := hlonger (by simp [mode])
    have hr := hb.rest
    rw [rest] at hr
    refine ⟨_, .block (howed.trans owed) (hmode.trans mode) hr, rfl, rfl, ?_⟩
    have hle : 2 ≤ s.resume.skipBlanks.rest.length := by simp [rest]
    exact (((hb.forward hle).openBraces false).setMode .block).continues.hold rfl
  | noCommand | openCommand | openBlock | stray => cases hf
  | @command text owed mode rest opens space found =>
    obtain ⟨hb, -⟩ := hlonger (by simp [mode])
    obtain ⟨-, -, after, ha, hend⟩ := Lexeme.of_commandText found
    have found' := Lexeme.commandText_append_lineBreak found tail
    rw [← hb.rest] at found'
    have rest' : s'.resume.skipBlanks.rest ≠ [] := by simp [hb.rest]
    have space' : ∀ cs, s'.resume.skipBlanks.rest ≠ '\n' :: cs := by
      obtain ⟨c, cs, hc⟩ := List.exists_cons_of_ne_nil rest
      rw [hb.rest, hc]
      rintro _ ⟨⟩
      exact space cs hc
    have hle : text.length ≤ s.resume.skipBlanks.rest.length := by simp [ha]
    refine ⟨_, .command (howed.trans owed) (hmode.trans mode) rest'
      (hb.rest ▸ append_lineBreak_ne (by decide) (by decide) opens) space' found', rfl, rfl, ?_⟩
    refine ((hb.forward hle).endLine rfl ?_ 1).hold rfl
    rw [rest_forward, ha, List.drop_left]
    cases after with
    | nil => exact .inl rfl
    | cons c cs => exact .inr ⟨cs, congrArg (· :: cs) (hend c rfl)⟩
  | @blockText text owed mode found =>
    obtain ⟨-, hs⟩ := hlonger (by simp [mode])
    have found' := Lexeme.blockText_append_right found ('\n' :: tail)
    rw [← hs.rest] at found'
    have hle : text.length ≤ s.resume.rest.length :=
      List.IsPrefix.length_le ⟨_, Lexeme.blockText_append_drop found⟩
    exact ⟨_, .blockText (howed.trans owed) (hmode.trans mode) found', rfl, rfl,
      (hs.forward hle).continues.hold rfl⟩
  | terminator owed mode rest read =>
    obtain ⟨hb, -⟩ := hlonger (by simp [mode])
    have hr := hb.rest
    rw [rest] at hr
    obtain ⟨token', after', read', hkind, htext, h'⟩ := read.continues hb rfl hk
    rw [← h.level.begins] at read'
    exact ⟨_, .terminator (howed.trans owed) (hmode.trans mode) hr read', hkind, htext,
      h'.hold hkind⟩
  | lineEnd owed mode rest =>
    obtain ⟨hb, -⟩ := hlonger (by simp [mode])
    exact ⟨_, .lineEnd (howed.trans owed) (hmode.trans mode) (.inr (hb.exists_lineBreak rest)),
      rfl, rfl, (hb.endLine rfl rest 1).payOne.hold rfl⟩

/-- **A look at a token before the end is the same in a longer script.** -/
theorem Continues.look (h : Continues tail s s') (hd : s.done = false)
    (hf : s.look.fault = none) (hk : s.look.token.kind ≠ .endOfInput) :
    s'.look.token.kind = s.look.token.kind ∧ s'.look.token.text = s.look.token.text ∧
      Continues tail s.look s'.look := by
  obtain ⟨t', step', hkind, htext, h'⟩ := (step_look hd).continues h hf hk
  rw [step'.eq_look (h.level.done.trans hd)]
  exact ⟨hkind, htext, h'⟩

/-- **What is read from a script is read from a longer one.** -/
theorem Reads.continues {xs : List Terminal} (hr : Reads s xs t) (hs : s.Valid)
    (hd : s.done = false) (hx : ∀ x ∈ xs, x.kind ≠ .endOfInput) (h : Continues tail s s') :
    ∃ t', Reads s' xs t' ∧ Continues tail t t' := by
  induction xs generalizing s s' with
  | nil =>
    obtain rfl : t = s := hr
    exact ⟨s', rfl, h⟩
  | cons x xs ih =>
    obtain ⟨hx, hxs⟩ := List.forall_mem_cons.1 hx
    obtain ⟨⟨hk, ht⟩, hf, hr⟩ := hr
    have hend : s.look.token.kind ≠ .endOfInput := hk ▸ hx
    obtain ⟨hkind, htext, h'⟩ := h.look hd hf hend
    obtain ⟨t', hr', ht'⟩ :=
      ih hr (hs.look.ask x.begins) (hs.look.not_done hend) hxs (h'.ask x.begins)
    exact ⟨t', ⟨⟨hkind.trans hk, htext.trans ht⟩, h'.fault.trans hf, hr'⟩, ht'⟩

/-- At the end of a script nothing but spaces is left. -/
theorem Poised.isSpace_of_end (h : Poised .normal 0 0 [] s)
    (hk : s.look.token.kind = .endOfInput) : ∀ c ∈ s.rest, Text.isSpace c = true := by
  rcases h.look_cases with ⟨ho, -⟩ | ⟨-, token, after, read, hl⟩
  · exact absurd rfl ho
  · rw [hl] at hk
    cases read with
    | finish rest lists =>
      rw [Scanner.skip, if_pos lists, rest_skipWhile, List.dropWhile_eq_nil_iff] at rest
      exact rest
    | _ => cases hk

/-- What is read next depends on what is left after the spaces. -/
theorem readToken_congr {u : Scanner} (h : s.skip = u.skip) (begins : Bool) :
    s.readToken begins = u.readToken begins := by
  have hs : s.skip = s.skipWhile (if s.lineLists = 0 then Text.isSpace else Text.isBlank) := rfl
  have hu : u.skip = u.skipWhile (if u.lineLists = 0 then Text.isSpace else Text.isBlank) := rfl
  unfold readToken
  rw [← hs, ← hu, h]

/-- What separates tokens can be passed before a look, and makes no difference to it. -/
theorem Poised.look_forward {spaces cs : List Char} {lists : Nat} {saved : List Nat}
    (h : Poised .normal 0 lists saved s) (hr : s.rest = spaces ++ cs)
    (hspaces : ∀ c ∈ spaces, (if lists = 0 then Text.isSpace else Text.isBlank) c = true) :
    (s.forward spaces.length).look = s.look := by
  have hcursor : (s.cursor.forward spaces.length).skipWhile
        (if lists = 0 then Text.isSpace else Text.isBlank) =
      s.cursor.skipWhile (if lists = 0 then Text.isSpace else Text.isBlank) := by
    have hrest : s.cursor.rest = spaces ++ cs := hr
    rw [Cursor.skipWhile, Cursor.skipWhile, Cursor.rest_forward, Cursor.forward_forward, hrest,
      List.drop_left, List.takeWhile_append_of_pos hspaces, List.length_append]
  have hskip : (s.forward spaces.length).resume.skip = s.resume.skip := by
    have hl : (s.forward spaces.length).resume.lineLists = lists := h.lists
    have hl' : s.resume.lineLists = lists := h.lists
    rw [Scanner.skip, Scanner.skip, hl, hl']
    exact congrArg (fun cursor => { s.resume with cursor := cursor }) hcursor
  have hf := h.forward spaces.length
  rw [look_eq_of_mode h.live h.owed, look_eq_of_mode hf.live hf.owed, h.mode, hf.mode]
  exact congrArg (fun read => settle (Prod.map .ok id read)) (readToken_congr hskip _)

/-- **At the end of a script a longer one has its own text to read**, once the
spaces before it are passed. -/
theorem Continues.exists_forward (h : Continues tail s s') (hs : Poised .normal 0 0 [] s)
    (hk : s.look.token.kind = .endOfInput) :
    ∃ k, (s'.forward k).rest = tail ∧ (s'.forward k).look = s'.look := by
  have hs' := h.poised hs
  rcases h.rest with hr | ⟨-, hr, -, -⟩
  · have hrest : s'.rest = (s.rest ++ ['\n']) ++ tail := by rw [hr, List.append_assoc]; rfl
    refine ⟨(s.rest ++ ['\n']).length, ?_, hs'.look_forward hrest fun c hc => ?_⟩
    · rw [rest_forward, hrest, List.drop_left]
    · rcases List.mem_append.1 hc with hc | hc
      · exact hs.isSpace_of_end hk c hc
      · rw [List.mem_singleton.1 hc]
        decide
  · exact ⟨0, hr, rfl⟩

end Scanner
end RcScript
