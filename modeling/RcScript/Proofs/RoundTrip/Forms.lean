/-
# What the two forms of a command can hold

A command is written as the rest of a line or as a block between braces.  Each form
gives back exactly the texts that are made for it (`parse_forms_iff`).  That others
are not given back has to be read off the source: its line form is two characters
longer than the text, so a text that comes back has had no blank before it, and no
carriage return behind it, to lose; the braces of its block form leave the scanner no
choice but to read a block, which ends at the first closing braces.

Both equivalences have an easy half.  A text that fits its form is read as it is written,
which is what canonical texts are made of.  For the other half nothing is known but that
the script reads as one command with this text.  Its tokens are a sigil and what comes
behind it, so the form is told by the braces, or their absence, right behind the blanks
(`CommandForm`); then a text on a line is compared in length with the source, and a text
in a block is seen to end at the first closing braces.

The sigil plays no part in this.  Each of the five is followed by the same two forms, and
the statement is for any of them.
-/

import RcScript.Proofs.RoundTrip.Canonical

namespace RcScript

open Scanner Terminal

/-- What the text of a command is read from, once the blanks behind its sigil are skipped. -/
inductive CommandForm (text : String) (cs : List Char) : Prop
  /-- the rest of the line -/
  | line {run : List Char} (opens : ∀ inner, cs ≠ '{' :: '{' :: inner) (fits : FitsLine text)
      (found : Lexeme.commandText cs = some run)
      (eq_run : text = String.ofList (Lexeme.trimReturns run))
  /-- a block between braces -/
  | block {inner run : List Char} (opens : cs = '{' :: '{' :: inner)
      (found : Lexeme.blockText inner = some run) (eq_run : text = String.ofList run)

namespace Scanner

variable {s t : Scanner} {lists : Nat} {saved : List Nat}

/-- The text of a command on a line is what comes behind the blanks, up to the end of its
line and without the carriage returns there. -/
theorem Poised.command_of_look (h : Poised .sigil 0 lists saved s)
    (hk : s.look.token.kind = .command) :
    (∀ cs, s.resume.skipBlanks.rest ≠ '{' :: '{' :: cs) ∧ FitsLine s.look.token.text ∧
      ∃ run, Lexeme.commandText s.resume.skipBlanks.rest = some run ∧
        s.look.token.text = String.ofList (Lexeme.trimReturns run) := by
  have hm := h.mode
  generalize hs : s.look = t at hk
  have step := hs ▸ step_look h.live
  cases step with
  | owed owed => exact absurd h.owed owed
  | command owed mode rest opens space found =>
    refine ⟨opens, Lexeme.fitsLine_commandText found rest (fun c hc => ?_) opens, _, found, rfl⟩
    obtain ⟨cs, hcs⟩ := List.head?_eq_some_iff.1 hc
    exact isSpace_of_skipBlanks hcs fun hn => space cs (hn ▸ hcs)
  | block | noCommand | openCommand => cases hk
  | _ _ mode => cases hm.symm.trans mode

/-- The text of a block is what comes behind its braces, up to the first closing ones. -/
theorem Poised.block_of_look (h : Poised .sigil 0 lists saved s)
    (hk : s.look.token.kind = .openBraces) (hc : s.look.look.token.kind = .command) :
    ∃ cs run, s.resume.skipBlanks.rest = '{' :: '{' :: cs ∧ Lexeme.blockText cs = some run ∧
      s.look.look.token.text = String.ofList run := by
  have hm := h.mode
  have hblock := h.look_of_sigil.1 hk
  generalize hs : s.look = t at hk hc hblock
  have step := hs ▸ step_look h.live
  cases step with
  | owed owed => exact absurd h.owed owed
  | @block cs owed mode rest =>
    have hrest : (s.resume.skipBlanks.forward 2).rest = cs := by
      rw [rest_forward, rest]
      rfl
    refine ⟨cs, ?_⟩
    generalize hu : look _ = u at hc
    have step' := hu ▸ step_look hblock.live
    cases step' with
    | owed owed' => exact absurd hblock.owed owed'
    | openBlock => cases hc
    | blockText owed' mode' found =>
      have hcs : Lexeme.blockText (s.resume.skipBlanks.forward 2).rest = some _ := found
      rw [hrest] at hcs
      exact ⟨_, rest, hcs, rfl⟩
    | _ _ mode => cases mode
  | noCommand | openCommand | command => cases hk
  | _ _ mode => cases hm.symm.trans mode

/-- Behind the sigil of a command comes its text up to the end of the line, or the braces of
a block and its text up to the first closing ones. -/
theorem Poised.form_of_reads (h : Poised .normal 0 lists saved s) (hb : s.beginsStatement = true)
    {g : Sigil} {text : String} {cs : List Char} (hr : s.skip.rest = g.char :: cs)
    {xs : List Terminal} (hd : Derives IsSeparator (.nested (.exec g text)) xs)
    (reads : Reads s xs t) : CommandForm text (cs.dropWhile Text.isBlank) := by
  have hlook := h.look_of_read (.sigil hr hb)
  have hkind : s.look.token.kind = .sigil := by rw [hlook]; rfl
  obtain ⟨-, hsigil⟩ := h.look_sigil hkind
  have hbehind : s.look.resume.skipBlanks.rest = cs.dropWhile Text.isBlank := by
    have hrest : s.look.rest = cs := by
      rw [hlook]
      change (s.resume.skip.forward 1).rest = cs
      rw [rest_forward, show s.resume.skip.rest = _ from hr]
      rfl
    rw [Scanner.skipBlanks, rest_skipWhile]
    exact congrArg _ hrest
  rw [← hbehind]
  cases hd with
  | @nested _ seps ys separate statement =>
    obtain ⟨v, hseps, reads⟩ := reads_append.1 reads
    cases seps with
    | cons x seps =>
      -- A command that begins with its sigil has no separators before it.
      have hx : x.kind = .sigil := hseps.1.1.symm.trans hkind
      rw [(separate x (.head _)).kind_eq] at hx
      cases hx
    | nil =>
      obtain rfl : v = s := hseps
      cases statement with
      | line =>
        obtain ⟨-, -, ⟨hk, ht⟩, -⟩ := reads
        obtain ⟨opens, hfits, run, found, hrun⟩ := hsigil.command_of_look hk
        rw [show v.look.look.token.text = text from ht] at hrun hfits
        exact .line opens hfits found hrun
      | block =>
        obtain ⟨-, -, ⟨hk, -⟩, -, ⟨hk', ht⟩, -⟩ := reads
        obtain ⟨inner, run, hopen, found, hrun⟩ := hsigil.block_of_look hk hk'
        rw [show v.look.look.look.token.text = text from ht] at hrun
        exact .block hopen found hrun

end Scanner

section
variable {g : Sigil} {source filename text : String} {cs : List Char}

/-- What comes behind the sigil of a script that is one command. -/
theorem form_of_parse (hs : source.toList = g.char :: cs)
    (h : parse source filename = .ok [.exec g text]) :
    CommandForm text (cs.dropWhile Text.isBlank) := by
  obtain ⟨xs, t, hd, hr, -⟩ := derives_of_parse h
  have hskip : (ofText source filename).skip.rest = g.char :: cs :=
    rest_skip hs (by cases g <;> decide)
  cases hd with
  | next nested script =>
    obtain ⟨u, hr, -⟩ := reads_append.1 hr
    exact (poised_ofText source filename).form_of_reads rfl hskip nested hr

/-- A script that is one command, as it is written. -/
theorem parse_of_reads {xs : List Terminal} {t : Scanner}
    (hd : Derives IsSeparator (.statement (.exec g text)) xs)
    (hr : Reads (ofText source filename) xs t) (ht : Stands .normal 0 0 [] true [] t) :
    parse source filename = .ok [.exec g text] := by
  have hscript : Derives IsSeparator (.script [.exec g text]) (xs ++ []) :=
    .next hd.nest (.finish (List.forall_mem_nil _))
  rw [List.append_nil] at hscript
  exact parse_of_derives hscript hr ht.look_end ht.poised.fault_look
    (List.forall_mem_singleton.2 (by simp only [Tree.height, Parse.nestingLimit]; omega))

end

/-- **The rest of a line holds the texts that fit it and leave the line break alone**, and no
others. -/
theorem parse_line_iff (g : Sigil) (text filename : String) :
    parse (g.text ++ text ++ "\n") filename = .ok [.exec g text] ↔
      FitsLine text ∧ Lexeme.dangles text.toList = false := by
  have hs : (g.text ++ text ++ "\n").toList = g.char :: (text.toList ++ ['\n']) := by
    cases g <;> simp [Sigil.text, Sigil.char]
  constructor
  · intro h
    have hsplit := List.takeWhile_append_dropWhile (p := Text.isBlank) (l := text.toList ++ ['\n'])
    cases form_of_parse hs h with
    | @line run _ hfits found htext =>
      obtain ⟨-, hdangles, after, hafter, -⟩ := Lexeme.of_commandText found
      obtain ⟨n, hn⟩ := Lexeme.exists_append_trimReturns run
      have hlist : text.toList = Lexeme.trimReturns run := by rw [htext, String.toList_ofList]
      rw [← hlist] at hn
      rw [hafter, hn] at hsplit
      cases n with
      | zero =>
        rw [List.replicate_zero, List.append_nil] at hn
        exact ⟨hfits, hn ▸ hdangles⟩
      | succ n =>
        -- A carriage return behind the text would have to be the line break.
        have hlength := congrArg List.length hsplit
        simp only [List.length_append, List.length_replicate, List.length_singleton] at hlength
        have hblanks : (text.toList ++ ['\n']).takeWhile Text.isBlank = [] :=
          List.length_eq_zero_iff.1 (by omega)
        have hnothing : after = [] := List.length_eq_zero_iff.1 (by omega)
        obtain rfl : n = 0 := by omega
        rw [hblanks, hnothing, List.nil_append, List.append_nil] at hsplit
        exact absurd (List.append_cancel_left hsplit) (by decide)
    | @block inner run hopen found htext =>
      obtain ⟨-, -, after, hafter⟩ := Lexeme.of_blockText found
      have hlist : text.toList = run := by rw [htext, String.toList_ofList]
      have hlength := congrArg List.length hsplit
      rw [hopen, hafter, ← hlist] at hlength
      simp only [List.length_append, List.length_cons, List.length_nil] at hlength
      omega
  · rintro ⟨hfits, hdangles⟩
    have hskip : (ofText (g.text ++ text ++ "\n") filename).skip.rest =
        g.char :: (text.toList ++ '\n' :: []) := rest_skip hs (by cases g <;> decide)
    obtain ⟨t, hr, ht⟩ := (poised_ofText _ filename).reads_line rfl hfits hdangles hskip
    exact parse_of_reads (.line g text) hr ht

/-- **A block holds the texts that its closing braces do not end too early**, and no others. -/
theorem parse_block_iff (g : Sigil) (text filename : String) :
    parse (g.text ++ "\x7b\x7b" ++ text ++ "\x7d\x7d;") filename = .ok [.exec g text] ↔
      fitsBlock text = true := by
  have hs : (g.text ++ "\x7b\x7b" ++ text ++ "\x7d\x7d;").toList =
      g.char :: '{' :: '{' :: (text.toList ++ ['}', '}', ';']) := by
    cases g <;> simp [Sigil.text, Sigil.char]
  constructor
  · intro h
    cases form_of_parse hs h with
    | line opens => exact absurd rfl (opens (text.toList ++ ['}', '}', ';']))
    | block _ found htext =>
      rw [htext]
      exact Lexeme.fitsBlock_blockText found
  · intro hfits
    have hskip : (ofText (g.text ++ "\x7b\x7b" ++ text ++ "\x7d\x7d;") filename).skip.rest =
        g.char :: '{' :: '{' :: (text.toList ++ '}' :: '}' :: ';' :: []) :=
      rest_skip hs (by cases g <;> decide)
    obtain ⟨t, hr, ht⟩ := (poised_ofText _ filename).reads_block rfl hfits hskip
    exact parse_of_reads (.block g text (.inl rfl)) hr ht

/-- **What the two forms of a command can hold.**  Each of the five sigils gives a text back
from the rest of a line just when the text is not empty, begins with neither a space nor
opening braces, does not end in a carriage return, and takes each line break along, but not
the one that ends its line; and from a block just when it has no closing braces in it and no
brace at its end. -/
theorem parse_forms_iff (g : Sigil) (text filename : String) :
    (parse (g.text ++ text ++ "\n") filename = .ok [.exec g text] ↔
        text ≠ "" ∧ (∀ c ∈ text.toList.head?, Text.isSpace c = false) ∧
          ¬['{', '{'] <+: text.toList ∧ text.toList.getLast? ≠ some '\r' ∧
          Lexeme.holdsBareBreak text.toList = false ∧ Lexeme.dangles text.toList = false) ∧
      (parse (g.text ++ "\x7b\x7b" ++ text ++ "\x7d\x7d;") filename = .ok [.exec g text] ↔
        holdsClosingBraces text.toList = false ∧ text.toList.getLast? ≠ some '}') := by
  rw [parse_line_iff, parse_block_iff]
  constructor
  · constructor
    · rintro ⟨hfits, hdangles⟩
      exact ⟨hfits.nonempty, hfits.first, hfits.opens, hfits.last, hfits.breaks, hdangles⟩
    · rintro ⟨nonempty, first, opens, last, breaks, hdangles⟩
      exact ⟨⟨nonempty, first, opens, last, breaks⟩, hdangles⟩
  · rw [fitsBlock, Bool.and_eq_true, Bool.not_eq_true', bne_iff_ne]

end RcScript
