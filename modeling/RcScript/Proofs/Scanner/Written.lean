/-
# Reading what is written

Where a scanner stands in front of a word, a separator, braces or a command as
they are written, it reads just that and then stands in front of what comes after
it (`Stands`).  One lemma for each piece of text that a statement is written
with; how the pieces make up statements is left to
`RcScript.Proofs.Stmt.Written`.

The premises say what comes after the piece, since that decides where it ends: a word
needs a space or a semicolon behind it, closing braces need their terminator.  The
canonical text puts just these behind its pieces.  A command on a line has no such freedom,
for its line break is both its end and the end of every line list around it, and this is
why one lemma stands for all the ways in which a statement can go on after it.

What has been read is described by `Stands`, which adds to `Poised` the two things that
the next piece depends on, the flag with which the scanner was asked and the characters
that are left.  So the lemmas can be put one behind the other: each begins where a scanner
stands in front of its piece, and ends where one stands behind it, and the pieces of a
statement are read by citing them in order.  None of them mentions the grammar.
-/

import RcScript.Proofs.Grammar.Reads
import RcScript.Proofs.Scanner.Poised
import RcScript.Proofs.Scanner.Sound

namespace RcScript
namespace Scanner

/-- A scanner that can go on, in front of given characters. -/
structure Stands (mode : Mode) (owed : Int) (lists : Nat) (saved : List Nat) (begins : Bool)
    (rest : List Char) (s : Scanner) : Prop where
  poised : Poised mode owed lists saved s
  begins : s.beginsStatement = begins
  rest : s.rest = rest

variable {s t : Scanner} {mode : Mode} {owed : Int} {lists : Nat} {saved : List Nat}
  {begins : Bool} {c : Char} {cs tail : List Char}

/-- A space in front of something else is skipped, and a line break too where no
line list is open. -/
theorem rest_skip_space {d : Char} (hr : s.rest = d :: c :: cs) (hc : Text.isSpace c = false)
    (hd : d = ' ' ∨ d = '\n' ∧ s.lineLists = 0) : s.skip.rest = c :: cs := by
  rw [skip, rest_skipWhile, hr]
  rcases hd with rfl | ⟨rfl, hl⟩
  · split
    · rw [List.dropWhile_cons_of_pos (by decide), List.dropWhile_cons_of_neg (by simp [hc])]
    · rw [List.dropWhile_cons_of_pos (by decide),
        List.dropWhile_cons_of_neg (by simp [Text.isBlank_of_isSpace hc])]
  · rw [if_pos hl, List.dropWhile_cons_of_pos (by decide),
      List.dropWhile_cons_of_neg (by simp [hc])]

/-- No blank in front means that none is skipped. -/
theorem rest_skipBlanks (hr : s.rest = c :: cs) (hc : Text.isSpace c = false) :
    s.skipBlanks.rest = c :: cs := by
  have hb := Text.isBlank_of_isSpace hc
  rw [skipBlanks, rest_skipWhile, hr, List.dropWhile_cons_of_neg (by simp [hb])]

/-- A look at a token reads the terminal that it stands for. -/
theorem Poised.reads_of_look {u : Scanner} {token : Token} {x : Terminal}
    (h : Poised mode owed lists saved u) (hl : s.look = u.hold token) (hx : token.Is x)
    (hk : token.kind ≠ .endOfInput) (hb : (x.begins || u.beginsStatement) = begins) :
    ∃ t, Reads s [x] t ∧ Stands mode owed lists saved begins u.rest t := by
  refine ⟨s.look.ask x.begins, ⟨?_, ?_, rfl⟩, ?_, ?_, ?_⟩ <;> rw [hl]
  · exact hx
  · exact h.sound
  · exact (h.hold hk).ask _
  · exact hb
  · rfl

/-- A token that is read in the normal mode is the look-ahead. -/
theorem Poised.look_of_read (h : Poised .normal 0 lists saved s) {token : Token} {after : Scanner}
    (read : TokenRead s.beginsStatement s.resume token after) : s.look = after.hold token :=
  (Step.token h.owed h.mode read).eq_look h.live

/-- A text that does not begin with opening braces does not begin with them before
something that is no brace either. -/
theorem append_ne_openBraces {text : List Char} (hn : text ≠ []) (ho : ¬['{', '{'] <+: text)
    (ht : ∀ c ∈ tail.head?, c ≠ '{') (cs : List Char) : text ++ tail ≠ '{' :: '{' :: cs := by
  intro h
  rcases text with _ | ⟨c, _ | ⟨d, l⟩⟩
  · exact hn rfl
  · obtain rfl : tail = '{' :: cs := (List.cons_eq_cons.1 h).2
    exact ht '{' rfl rfl
  · obtain ⟨rfl, h'⟩ := List.cons_eq_cons.1 h
    obtain ⟨rfl, -⟩ := List.cons_eq_cons.1 h'
    exact ho ⟨l, rfl⟩

/-- **A word is read as it is written**, if a space or a semicolon comes after it. -/
theorem Poised.reads_word (h : Poised .normal 0 lists saved s) {w : String} (hw : IsWord w)
    (hr : s.skip.rest = w.toList ++ tail)
    (ht : ∀ c ∈ tail.head?, Text.isSpace c = true ∨ c = ';')
    (hb : s.beginsStatement = true → ∀ c ∈ w.toList.head?, c ≠ ':' ∧ Sigil.ofChar? c = none)
    (begins : Bool) :
    ∃ t, Reads s [⟨.word, w, begins⟩] t ∧ Stands .normal 0 lists saved begins tail t := by
  have hlex : Lexeme.word s.resume.skip.rest = w.toList := by
    rw [show s.resume.skip.rest = _ from hr, Lexeme.word_append hw.spaceless hw.closed ht]
  have hne : w.toList ≠ [] := by simpa using hw.nonempty
  obtain ⟨c, l, hl⟩ := List.exists_cons_of_ne_nil hne
  have hc := hw.spaceless c (by rw [hl]; exact .head _)
  have read : TokenRead s.beginsStatement s.resume
      ⟨.word, String.ofList (Lexeme.word s.resume.skip.rest), s.resume.skip.position⟩
      (s.resume.skip.forward (Lexeme.word s.resume.skip.rest).length) := by
    have hfirst : s.resume.skip.rest = c :: (l ++ tail) := by
      rw [show s.resume.skip.rest = _ from hr, hl]
      rfl
    refine .word hfirst ?_ ?_ ?_ hc.2 fun hs => hb hs c (by rw [hl]; rfl)
    · intro cs h
      refine append_ne_openBraces hne hw.opens (fun c hc => ?_) cs (hr.symm.trans h)
      rintro rfl
      exact absurd (ht '{' hc) (by decide)
    · intro cs h
      rw [h] at hlex
      exact hne hlex.symm
    · rintro rfl
      exact absurd hc.1 (by decide)
  rw [hlex, String.ofList_toList] at read
  have hrest : (s.resume.skip.forward w.toList.length).rest = tail := by
    rw [rest_forward, show s.resume.skip.rest = _ from hr, List.drop_left]
  rw [← hrest]
  exact (h.resume.skip.forward _).reads_of_look (h.look_of_read read) ⟨rfl, rfl⟩ (by simp)
    (Bool.or_false _)

/-- A semicolon is read as it is written. -/
theorem Poised.reads_separator (h : Poised .normal 0 lists saved s)
    (hr : s.skip.rest = ';' :: tail) :
    ∃ t, Reads s [.separator] t ∧ Stands .normal 0 lists saved true tail t := by
  have hrest : (s.resume.skip.forward 1).rest = tail := by
    rw [rest_forward, show s.resume.skip.rest = _ from hr]
    rfl
  have hu : Poised .normal 0 lists saved { s.resume.skip.forward 1 with beginsStatement := true } :=
    ⟨rfl, h.owed, h.lists, h.saved, h.live, h.sound⟩
  rw [← hrest]
  exact hu.reads_of_look (h.look_of_read (.separator hr)) ⟨rfl, rfl⟩ (by simp) rfl

/-- The braces of a list are opened as they are written after a colon. -/
theorem Poised.reads_openList (h : Poised .normal 0 lists saved s)
    (hb : s.beginsStatement = true) (hr : s.skip.rest = ':' :: '{' :: '{' :: tail) :
    ∃ t, Reads s [.colon, .openBraces] t ∧ Stands .normal 0 0 (lists :: saved) true tail t := by
  have hu : Poised .colon 0 lists saved { s.resume.skip.forward 1 with mode := .colon } :=
    ⟨rfl, h.owed, h.lists, h.saved, h.live, h.sound⟩
  obtain ⟨s₁, e₁, h₁⟩ := hu.reads_of_look (x := .colon) (h.look_of_read (.colon hr hb))
    ⟨rfl, rfl⟩ (by simp) rfl
  have hr₁ : s₁.resume.skipBlanks.rest = '{' :: '{' :: tail := by
    refine rest_skipBlanks (Eq.trans h₁.rest ?_) (by decide)
    change (s.resume.skip.forward 1).rest = _
    rw [rest_forward, show s.resume.skip.rest = _ from hr]
    rfl
  have hv : Poised .normal 0 0 (lists :: saved)
      (({ s₁.resume.skipBlanks with beginsStatement := true }.forward 2).openBraces true) :=
    ⟨rfl, h₁.poised.owed, rfl, congrArg₂ List.cons h₁.poised.lists h₁.poised.saved, h₁.poised.live,
      h₁.poised.sound⟩
  have hlook := (Step.bracedList h₁.poised.owed h₁.poised.mode hr₁).eq_look h₁.poised.live
  obtain ⟨t, e₂, h₂⟩ := hv.reads_of_look (x := .openBraces) hlook ⟨rfl, rfl⟩ (by simp) rfl
  refine ⟨t, reads_append.2 ⟨s₁, e₁, e₂⟩, h₂.poised, h₂.begins, h₂.rest.trans ?_⟩
  change (s₁.resume.skipBlanks.forward 2).rest = tail
  rw [rest_forward, hr₁]
  rfl

/-- Ending a line passes its line break, if there is one. -/
theorem rest_endLine (extra : Int) (s : Scanner) :
    (s.endLine extra).rest = s.rest.drop (if s.rest.head? = some Text.lineBreak then 1 else 0) :=
  Cursor.rest_forward _ s.cursor

/-- Closing braces passes no character. -/
theorem rest_closeBraces (s : Scanner) : s.closeBraces.rest = s.rest := by
  rw [closeBraces_eq]
  rfl

/-- Closing braces does not change what has been asked for. -/
theorem begins_closeBraces (s : Scanner) : s.closeBraces.beginsStatement = s.beginsStatement := by
  rw [closeBraces_eq]

/-- A semicolon after closing braces is read as it is written. -/
theorem Poised.reads_terminator (h : Poised .terminator 0 lists saved s)
    (hr : s.resume.skipBlanks.rest = ';' :: tail) :
    ∃ t, Reads s [.separator] t ∧ Stands .normal 0 lists saved true tail t := by
  have hskip : s.resume.skipBlanks.skip.rest = ';' :: tail := rest_skip hr (by decide)
  have hv : Poised .normal 0 lists saved
      { s.resume.skipBlanks.skip.forward 1 with beginsStatement := true } :=
    ⟨rfl, h.owed, h.lists, h.saved, h.live, h.sound⟩
  have hrest : (s.resume.skipBlanks.skip.forward 1).rest = tail := by
    rw [rest_forward, hskip]
    rfl
  rw [← hrest]
  exact hv.reads_of_look
    ((Step.terminator h.owed h.mode hr (.separator hskip)).eq_look h.live) ⟨rfl, rfl⟩ (by simp) rfl

/-- Braces are closed as they are written before a semicolon. -/
theorem Poised.reads_closeBraces {inner : Nat} (h : Poised .normal 0 inner (lists :: saved) s)
    (hr : s.skip.rest = '}' :: '}' :: ';' :: tail) :
    ∃ t, Reads s [.closeBraces, .separator] t ∧ Stands .normal 0 lists saved true tail t := by
  have hu := ((h.resume.skip.forward 2).setMode .terminator).closeBraces
  obtain ⟨s₁, e₁, h₁⟩ := hu.reads_of_look (x := .closeBraces) (h.look_of_read (.closeBraces hr))
    ⟨rfl, rfl⟩ (by simp) (begins_closeBraces _)
  have hr₁ : s₁.resume.skipBlanks.rest = ';' :: tail := by
    refine rest_skipBlanks (Eq.trans (h₁.rest.trans (rest_closeBraces _)) ?_) (by decide)
    change (s.resume.skip.forward 2).rest = _
    rw [rest_forward, show s.resume.skip.rest = _ from hr]
    rfl
  obtain ⟨t, e₂, h₂⟩ := h₁.poised.reads_terminator hr₁
  exact ⟨t, reads_append.2 ⟨s₁, e₁, e₂⟩, h₂⟩

/-- A sigil is read as it is written, where a statement begins. -/
theorem Poised.reads_sigil (h : Poised .normal 0 lists saved s) (hb : s.beginsStatement = true)
    {g : Sigil} (hr : s.skip.rest = g.char :: tail) :
    ∃ t, Reads s [.sigil g] t ∧ Stands .sigil 0 lists saved false tail t := by
  have hu := (h.resume.skip.forward 1).setMode .sigil
  have hrest : (s.resume.skip.forward 1).rest = tail := by
    rw [rest_forward, show s.resume.skip.rest = _ from hr]
    rfl
  rw [← hrest]
  exact hu.reads_of_look (x := .sigil g) (h.look_of_read (.sigil hr hb)) ⟨rfl, rfl⟩ (by simp) rfl

/-- **A block is read as it is written**, if its text fits it. -/
theorem Poised.reads_block (h : Poised .normal 0 lists saved s) (hb : s.beginsStatement = true)
    {g : Sigil} {text : String} (ht : fitsBlock text = true)
    (hr : s.skip.rest = g.char :: '{' :: '{' :: (text.toList ++ '}' :: '}' :: ';' :: tail)) :
    ∃ t, Reads s [.sigil g, .openBraces, .command text, .closeBraces, .separator] t ∧
      Stands .normal 0 lists saved true tail t := by
  rw [fitsBlock, Bool.and_eq_true, Bool.not_eq_true', bne_iff_ne] at ht
  obtain ⟨s₁, e₁, h₁⟩ := h.reads_sigil hb hr
  have hr₁ : s₁.resume.skipBlanks.rest = '{' :: '{' :: (text.toList ++ '}' :: '}' :: ';' :: tail) :=
    rest_skipBlanks h₁.rest (by decide)
  have hv : Poised .block 0 lists (lists :: saved)
      { (s₁.resume.skipBlanks.forward 2).openBraces false with mode := .block } :=
    ⟨rfl, h₁.poised.owed, h₁.poised.lists, congrArg₂ List.cons h₁.poised.lists h₁.poised.saved,
      h₁.poised.live, h₁.poised.sound⟩
  obtain ⟨s₂, e₂, h₂⟩ := hv.reads_of_look (x := .openBraces)
    ((Step.block h₁.poised.owed h₁.poised.mode hr₁).eq_look h₁.poised.live) ⟨rfl, rfl⟩ (by simp) rfl
  have hr₂ : s₂.resume.rest = text.toList ++ '}' :: '}' :: ';' :: tail := by
    refine h₂.rest.trans ?_
    change (s₁.resume.skipBlanks.forward 2).rest = _
    rw [rest_forward, hr₁]
    rfl
  have hfound : Lexeme.blockText s₂.resume.rest = some text.toList := by
    rw [hr₂, Lexeme.blockText_append ht.1 ht.2]
  have hlook := (Step.blockText h₂.poised.owed h₂.poised.mode hfound).eq_look h₂.poised.live
  obtain ⟨s₃, e₃, h₃⟩ := (h₂.poised.resume.forward text.toList.length).reads_of_look
    (x := .command text) hlook ⟨rfl, String.ofList_toList⟩ (by simp) rfl
  have hr₃ : s₃.skip.rest = '}' :: '}' :: ';' :: tail := by
    refine rest_skip (h₃.rest.trans ?_) (by decide)
    rw [rest_forward, hr₂, List.drop_left]
  obtain ⟨t, e₄, h₄⟩ := h₃.poised.reads_closeBraces hr₃
  exact ⟨t, reads_append.2 ⟨s₁, e₁, reads_append.2 ⟨s₂, e₂, reads_append.2 ⟨s₃, e₃, e₄⟩⟩⟩, h₄⟩

/-- **After a sigil the rest of the line is a command.**  It ends every line list that is
open, and the line break is passed if there is one. -/
theorem Stands.reads_command {text after : List Char}
    (h : Stands .sigil 0 lists saved false (c :: cs) s) (hc : Text.isSpace c = false)
    (ho : ∀ tail, c :: cs ≠ '{' :: '{' :: tail) (found : Lexeme.commandText (c :: cs) = some text)
    (hcs : c :: cs = text ++ after) :
    ∃ t, Reads s [.command (String.ofList (Lexeme.trimReturns text)), .newline] t ∧
      Stands .normal lists 0 saved true after.tail t := by
  have hr : s.resume.skipBlanks.rest = c :: cs := rest_skipBlanks h.rest hc
  have step : Step s (((s.resume.skipBlanks.forward text.length).endLine 1).hold
      ⟨.command, String.ofList (Lexeme.trimReturns text), s.resume.skipBlanks.position⟩) := by
    refine .command h.poised.owed h.poised.mode ?_ ?_ ?_ (hr.symm ▸ found)
    · rw [hr]
      exact List.cons_ne_nil c cs
    · rw [hr]
      exact ho
    · intro cs' h
      rw [(List.cons_eq_cons.1 (hr.symm.trans h)).1] at hc
      exact absurd hc (by decide)
  have hv : Poised .normal (lists + 1) 0 saved
      ((s.resume.skipBlanks.forward text.length).endLine 1) := by
    refine ⟨rfl, ?_, rfl, h.poised.saved, h.poised.live, h.poised.sound⟩
    change s.owed + 1 + (s.lineLists : Int) = _
    rw [h.poised.owed, h.poised.lists]
    omega
  obtain ⟨u, e₁, h₁⟩ := hv.reads_of_look
    (x := .command (String.ofList (Lexeme.trimReturns text))) (step.eq_look h.poised.live)
    ⟨rfl, rfl⟩ (by simp) rfl
  have hw : Poised .normal lists 0 saved { u with owed := u.owed - 1, beginsStatement := true } := by
    refine ⟨h₁.poised.mode, ?_, h₁.poised.lists, h₁.poised.saved, h₁.poised.live, h₁.poised.sound⟩
    change u.owed - 1 = _
    rw [h₁.poised.owed]
    omega
  have hne : u.owed ≠ 0 := by
    rw [h₁.poised.owed]
    omega
  obtain ⟨t, e₂, h₂⟩ := hw.reads_of_look (x := .newline)
    ((Step.owed hne).eq_look h₁.poised.live) ⟨rfl, rfl⟩ (by simp) rfl
  refine ⟨t, e₁.cons e₂, h₂.poised, h₂.begins, h₂.rest.trans (h₁.rest.trans ?_)⟩
  have hrest : (s.resume.skipBlanks.forward text.length).rest = after := by
    rw [rest_forward, hr, hcs, List.drop_left]
  obtain ⟨-, -, rest, hend, hbreak⟩ := Lexeme.of_commandText found
  obtain rfl : rest = after := List.append_cancel_left (hend.symm.trans hcs)
  rw [rest_endLine, hrest]
  cases rest with
  | nil => rfl
  | cons d rest =>
    obtain rfl : d = '\n' := hbreak d rfl
    rfl

/-- **A command on a line is read as it is written**, if its text fits the line and
leaves the line break alone.  Every line list that is open is closed after it. -/
theorem Poised.reads_line (h : Poised .normal 0 lists saved s) (hb : s.beginsStatement = true)
    {g : Sigil} {text : String} (ht : FitsLine text) (hd : Lexeme.dangles text.toList = false)
    (hr : s.skip.rest = g.char :: (text.toList ++ '\n' :: tail)) :
    ∃ t, Reads s [.sigil g, .command text, .newline] t ∧
      Stands .normal lists 0 saved true tail t := by
  obtain ⟨u, e₁, h₁⟩ := h.reads_sigil hb hr
  have hne : text.toList ≠ [] := by simpa using ht.nonempty
  have hopens : ∀ cs, text.toList ++ '\n' :: tail ≠ '{' :: '{' :: cs :=
    append_ne_openBraces hne ht.opens (by simp)
  have hfound : Lexeme.commandText (text.toList ++ '\n' :: tail) = some text.toList := by
    rw [Lexeme.commandText_append ht.breaks hd]
    simp [Lexeme.commandText]
  obtain ⟨c, l, hl⟩ := List.exists_cons_of_ne_nil hne
  have hcons : text.toList ++ '\n' :: tail = c :: (l ++ '\n' :: tail) := by rw [hl]; rfl
  rw [hcons] at h₁ hopens hfound
  obtain ⟨t, e₂, h₂⟩ := h₁.reads_command (ht.first c (by rw [hl]; rfl)) hopens hfound hcons.symm
  rw [Lexeme.trimReturns_eq_self ht.last, String.ofList_toList] at e₂
  exact ⟨t, reads_append.2 ⟨u, e₁, e₂⟩, h₂⟩

end Scanner
end RcScript
