/-
# Scanning a script that goes on

More text after a script can change its last token and what its end is read as, and
nothing before.  `Scanner.extend` is the same scanner with more text to read.  A step
that does not reach the end of its script is a step of the extended scanner as well;
one that does leaves nothing to read, and there are three ways to come to that
(`Extends`, `Step.extends`): the end itself has been read, as the end of input or as
the line break that it stands for, or a word or a command text that more text may
continue.  From then on only the end is read (`Spent.look`).

A script that goes on is the most frequent situation of an interactive caller, and
everything that is said of one there comes from this module: that what is malformed stays
so, that what is incomplete can be completed, and what it then needs.  The cases are those
of `Step`.  For each of them it is asked whether the characters that decide it are all of
the script's own.  A word at the end is decided by what follows it, which is why it is
singled out, and so is a command text at the end, which a line break alone ends.

Each part of the scanner has its lemma about `extend`, with a premise that something is
left, or that not more is passed than there is: passing and skipping characters, closing
braces, ending a line.  Where nothing is left the premise fails, and then the scanner is
`Spent`.  A spent scanner still has tokens to give, one marker for every line list that is
open, and all of them stand at the end; this is what `Ended` says of the look-ahead, and
why the end of a script need not be the end of input.

The cases of `Extends` name the four ways in which a look can turn out.  In the case of a
word, something is said of the longer script as well: what follows does not make it a
separator.  A reader that refuses a separator there would otherwise have to be told that it
might see one.
-/

import RcScript.Proofs.Scanner.Onward
import RcScript.Proofs.Scanner.Poised

namespace RcScript

namespace Lexeme

/-- Text before which a word ends. -/
def Breaks (more : List Char) : Prop := ∀ c ∈ more.head?, Text.isSpace c = true ∨ c = ';'

/-- A word that ends before the end of the script ends there whatever follows. -/
theorem word_append_right {cs more : List Char} (h : word cs ≠ cs) :
    word (cs ++ more) = word cs := by
  fun_induction word cs with
  | case1 => exact absurd rfl h
  | case2 => rfl
  | case3 c rest hb hc =>
    rw [List.cons_append, word, if_pos hc]
    rintro tail rfl -
    exact absurd hc (by decide)
  | case4 c rest hb hc ih =>
    have hrest : word rest ≠ rest := fun he => h (congrArg (c :: ·) he)
    rw [List.cons_append, word, if_neg hc, ih hrest]
    intro tail hclose ht
    cases rest with
    | nil => exact hrest rfl
    | cons d rest =>
      obtain ⟨rfl, -⟩ := List.cons_eq_cons.1 ht
      exact hb rest hclose rfl

/-- A word that reaches the end of the script ends before what breaks it. -/
theorem word_append_of_breaks {cs more : List Char} (h : word cs = cs) (hm : Breaks more) :
    word (cs ++ more) = cs :=
  word_append (fun _ hc => not_stop_of_mem_word (h.symm ▸ hc)) (h ▸ holdsClosingBraces_word cs) hm

/-- A command text whose line ends before the end of the script ends there whatever follows. -/
theorem commandText_append_right {cs text : List Char} (h : commandText cs = some text)
    (hlt : text.length < cs.length) (more : List Char) : commandText (cs ++ more) = some text := by
  obtain ⟨hb, hd, rest, rfl, hr⟩ := of_commandText h
  cases rest with
  | nil => simp at hlt
  | cons c rest =>
    obtain rfl : c = '\n' := hr c rfl
    rw [List.append_assoc, commandText_append hb hd]
    simp [commandText]

end Lexeme

namespace Cursor

/-- A cursor with more text after it. -/
def extend (more : List Char) (c : Cursor) : Cursor := { c with rest := c.rest ++ more }

/-- Passing characters of the script's own can be done before or after more text is put behind
it. -/
theorem extend_forward {k : Nat} {c : Cursor} (hk : k ≤ c.rest.length) (more : List Char) :
    (c.extend more).forward k = (c.forward k).extend more := by
  induction k generalizing c with
  | zero => rfl
  | succ k ih =>
    obtain ⟨past, rest, position⟩ := c
    cases rest with
    | nil => cases hk
    | cons x rest =>
      have hle : k ≤ rest.length := Nat.le_of_succ_le_succ hk
      exact ih (c := ⟨x :: past, rest, position.step x⟩) hle

/-- What stops before the end of the script stops there whatever follows. -/
theorem extend_skipWhile {p : Char → Bool} {c : Cursor} (h : (c.skipWhile p).rest ≠ [])
    (more : List Char) : (c.extend more).skipWhile p = (c.skipWhile p).extend more := by
  have hle : (c.rest.takeWhile p).length ≤ c.rest.length := (List.takeWhile_prefix p).length_le
  have hne : (c.rest.takeWhile p).length ≠ c.rest.length := fun he =>
    h (by rw [skipWhile, rest_forward, he, List.drop_length])
  have htake : (c.extend more).rest.takeWhile p = c.rest.takeWhile p := by
    rw [extend, List.takeWhile_append, if_neg hne]
  rw [skipWhile, skipWhile, htake, extend_forward hle]

end Cursor

namespace Scanner

/-- A scanner with more text to read. -/
def extend (more : List Char) (s : Scanner) : Scanner := { s with cursor := s.cursor.extend more }

/-- The place where the script ends. -/
def endPosition (s : Scanner) : Position := s.position.stepAll s.rest

/-- A scanner that has nothing left to read; the markers that it owes are at the end. -/
structure Spent (s : Scanner) : Prop where
  rest : s.rest = []
  marker : s.owed ≠ 0 → s.marker = s.position

/-- A scanner whose look-ahead is what the end of its script is read as. -/
structure Ended (s : Scanner) : Prop where
  spent : s.Spent
  token : s.token = Token.endAt s.position ∨ s.token = Token.newlineAt s.position

instance (s : Scanner) : Decidable s.Spent :=
  decidable_of_iff (s.rest = [] ∧ (s.owed ≠ 0 → s.marker = s.position))
    ⟨fun h => ⟨h.1, h.2⟩, fun h => ⟨h.rest, h.marker⟩⟩

instance (s : Scanner) : Decidable s.Ended :=
  decidable_of_iff
    (s.Spent ∧ (s.token = Token.endAt s.position ∨ s.token = Token.newlineAt s.position))
    ⟨fun h => ⟨h.1, h.2⟩, fun h => ⟨h.spent, h.token⟩⟩

variable {s t : Scanner} {more : List Char}

/-- A script with more text behind it is the script that is both. -/
theorem extend_ofText (source more filename : String) :
    (ofText source filename).extend more.toList = ofText (source ++ more) filename := by
  rw [ofText, ofText, String.toList_append]
  rfl

/-- What is put behind a script is left to read after it. -/
theorem rest_extend (more : List Char) (s : Scanner) : (s.extend more).rest = s.rest ++ more := rfl

/-- Where nothing is left the script ends. -/
theorem Spent.endPosition (h : s.Spent) : s.endPosition = s.position := by
  rw [Scanner.endPosition, h.rest]
  rfl

/-- Going on in a script does not move its end. -/
theorem Onward.endPosition (h : Onward s t) : t.endPosition = s.endPosition := by
  obtain ⟨-, k, hk⟩ := h
  rw [Scanner.endPosition, Scanner.endPosition, position, rest, hk, Cursor.position_forward,
    Cursor.rest_forward, ← Position.stepAll_append, List.take_append_drop]
  rfl

/-- A scanner that passes characters of its script does so whatever follows. -/
theorem extend_forward {k : Nat} (hk : k ≤ s.rest.length) (more : List Char) :
    (s.extend more).forward k = (s.forward k).extend more :=
  congrArg (fun cursor => { s with cursor := cursor }) (Cursor.extend_forward hk more)

/-- What is skipped before the end is skipped whatever follows. -/
theorem extend_skipWhile {p : Char → Bool} (h : (s.skipWhile p).rest ≠ []) (more : List Char) :
    (s.extend more).skipWhile p = (s.skipWhile p).extend more :=
  congrArg (fun cursor => { s with cursor := cursor }) (Cursor.extend_skipWhile h more)

/-- What separates tokens before the end is skipped whatever follows. -/
theorem extend_skip (h : s.skip.rest ≠ []) (more : List Char) :
    (s.extend more).skip = s.skip.extend more := extend_skipWhile h more

/-- Closing braces does not depend on what follows. -/
theorem extend_closeBraces (more : List Char) (s : Scanner) :
    (s.extend more).closeBraces = s.closeBraces.extend more := by
  rw [closeBraces_eq, closeBraces_eq]
  rfl

/-- A line break of the script's own ends a line whatever follows. -/
theorem extend_endLine {extra : Int} (h : s.rest ≠ []) (more : List Char) :
    (s.extend more).endLine extra = (s.endLine extra).extend more := by
  obtain ⟨c, cs, hr⟩ := List.exists_cons_of_ne_nil h
  have hhead : (s.extend more).rest.head? = s.rest.head? := by rw [rest_extend, hr]; rfl
  have hle : (if s.rest.head? = some Text.lineBreak then 1 else 0) ≤ s.cursor.rest.length := by
    change _ ≤ s.rest.length
    rw [hr]
    split <;> simp
  simp only [endLine, hhead]
  exact congrArg (fun cursor => { s with
    marker := s.position, cursor := cursor, owed := s.owed + extra + s.lineLists, lineLists := 0 })
    (Cursor.extend_forward hle more)

/-- The end of the script ends a line where it is. -/
theorem cursor_endLine (h : s.rest = []) (extra : Int) : (s.endLine extra).cursor = s.cursor := by
  rw [endLine, h]
  rfl

/-- Where nothing is left to end, the markers of a line are at the end. -/
theorem spent_endLine (h : s.rest = []) (extra : Int) : (s.endLine extra).Spent := by
  have hcursor := cursor_endLine h extra
  exact ⟨(congrArg Cursor.rest hcursor).trans h,
    fun _ => (congrArg Cursor.position hcursor).symm⟩

/-- The end of the script is read as the end of a line. -/
theorem ended_takeLineEnd (h : s.rest = []) (extra : Int) :
    ((s.takeLineEnd extra).2.hold (Token.newlineAt s.position)).Ended := by
  have hposition := congrArg Cursor.position (cursor_endLine h extra)
  exact ⟨⟨(spent_endLine h extra).rest, fun _ => hposition.symm⟩,
    .inr (congrArg Token.newlineAt hposition.symm)⟩

/-- A line break of the script's own brings its markers whatever follows. -/
theorem extend_takeLineEnd {extra : Int} (h : s.rest ≠ []) (more : List Char) :
    ((s.extend more).takeLineEnd extra).2 = (s.takeLineEnd extra).2.extend more := by
  rw [takeLineEnd, takeLineEnd, extend_endLine h]
  rfl

/-- Where a text goes on after its first character, its first two are its own. -/
theorem append_ne_of_ne {a b : Char} {cs : List Char} (h : ∀ after, cs ≠ a :: b :: after)
    (hn : cs ≠ []) (hm : (∃ c d tail, cs = c :: d :: tail) ∨ b ∉ more.head?)
    (after : List Char) : cs ++ more ≠ a :: b :: after := by
  rcases cs with _ | ⟨c, _ | ⟨d, cs⟩⟩
  · exact absurd rfl hn
  · intro hc
    have hmore : more = b :: after := (List.cons_eq_cons.1 hc).2
    rcases hm with ⟨_, _, _, hm⟩ | hm
    · cases hm
    · exact hm (by rw [hmore]; rfl)
  · intro hc
    simp only [List.cons_append, List.cons.injEq] at hc
    exact h cs (by rw [hc.1, hc.2.1])

/-- **A token that is not the last of a script is read whatever follows**, and a word at
the end as well if what follows breaks it. -/
theorem TokenRead.extend {begins : Bool} {token : Token} {after : Scanner}
    (read : TokenRead begins s token after) (hr : s.skip.rest ≠ [])
    (hw : token.kind = .word → after.rest ≠ [] ∨ Lexeme.Breaks more) :
    TokenRead begins (s.extend more) token (after.extend more) := by
  have hskip := extend_skip hr more
  have hrest : ∀ {c cs}, s.skip.rest = c :: cs → (s.extend more).skip.rest = c :: (cs ++ more) :=
    fun hc => by rw [hskip, rest_extend, hc]; rfl
  have hplace : (s.extend more).skip.position = s.skip.position := by rw [hskip]; rfl
  have hforward : ∀ {k}, k ≤ s.skip.rest.length →
      (s.extend more).skip.forward k = (s.skip.forward k).extend more := fun hk => by
    rw [hskip, extend_forward hk]
  cases read with
  | finish rest => exact absurd rest hr
  | lineEnd rest lists =>
    obtain ⟨cs, rest⟩ := rest.resolve_left hr
    have read' : TokenRead begins _ _ _ := .lineEnd (.inr ⟨_, hrest rest⟩) lists
    rwa [hplace, hskip, extend_takeLineEnd hr] at read'
  | separator rest =>
    have read' : TokenRead begins _ _ _ := .separator (hrest rest)
    rwa [hplace, hforward (by simp [rest])] at read'
  | openBraces rest =>
    have read' : TokenRead begins _ _ _ := .openBraces (hrest rest)
    rwa [hplace, hforward (by simp [rest])] at read'
  | closeBraces rest =>
    have read' : TokenRead begins _ _ _ := .closeBraces (hrest rest)
    rw [hplace, hforward (by simp [rest])] at read'
    exact extend_closeBraces more _ ▸ read'
  | colon rest head =>
    have read' := TokenRead.colon (hrest rest) head
    rwa [hplace, hforward (by simp [rest])] at read'
  | sigil rest head =>
    have read' := TokenRead.sigil (hrest rest) head
    rwa [hplace, hforward (by simp [rest])] at read'
  | @word c cs rest opens closes space separator head =>
    have hle : (Lexeme.word s.skip.rest).length ≤ s.skip.rest.length :=
      List.IsPrefix.length_le ⟨_, Lexeme.word_append_drop _⟩
    have hends : Lexeme.word s.skip.rest ≠ s.skip.rest ∨
        Lexeme.word s.skip.rest = s.skip.rest ∧ Lexeme.Breaks more := by
      by_cases he : Lexeme.word s.skip.rest = s.skip.rest
      · refine .inr ⟨he, (hw rfl).resolve_left fun hne => hne ?_⟩
        rw [rest_forward, he, List.drop_length]
      · exact .inl he
    have hword : Lexeme.word (s.extend more).skip.rest = Lexeme.word s.skip.rest := by
      rw [hskip, rest_extend]
      rcases hends with he | ⟨he, hm⟩
      · exact Lexeme.word_append_right he
      · rw [Lexeme.word_append_of_breaks he hm, he]
    -- braces at the beginning would have to be begun by the last character of the script
    have htwo : ∀ b, Text.isSpace b = false → b ≠ ';' →
        (∃ c d tail, s.skip.rest = c :: d :: tail) ∨ b ∉ more.head? := fun b hb hs => by
      rcases hends with he | ⟨-, hm⟩
      · refine .inl ?_
        have hcons := word_cons rest closes space separator
        cases cs with
        | nil => exact absurd (hcons.trans (by rw [rest]; rfl)) he
        | cons d tail => exact ⟨c, d, tail, rest⟩
      · refine .inr fun hmem => ?_
        rcases hm b hmem with h | h
        · exact absurd (hb.symm.trans h) Bool.false_ne_true
        · exact hs h
    have happend : (s.extend more).skip.rest = s.skip.rest ++ more := by rw [hskip]; rfl
    have read' := TokenRead.word (hrest rest)
      (happend ▸ append_ne_of_ne opens hr (htwo _ (by decide) (by decide)))
      (happend ▸ append_ne_of_ne closes hr (htwo _ (by decide) (by decide))) space separator head
    rwa [hword, hplace, hforward hle] at read'

/-- What begins with neither a line break nor a semicolon is no separator. -/
theorem TokenRead.kind_ne_semicolon {begins : Bool} {token : Token} {after : Scanner} {c : Char}
    {cs : List Char} (read : TokenRead begins s token after) (hr : s.skip.rest = c :: cs)
    (space : c ≠ '\n') (separator : c ≠ ';') : token.kind ≠ .semicolon := by
  cases read with
  | lineEnd rest =>
    rw [hr] at rest
    obtain ⟨_, rest⟩ := rest.resolve_left (List.cons_ne_nil c cs)
    exact absurd (List.cons_eq_cons.1 rest).1 space
  | separator rest => exact absurd (List.cons_eq_cons.1 (hr.symm.trans rest)).1 separator
  | _ => nofun

/-- What begins with opening braces is read as opening braces. -/
theorem TokenRead.kind_of_openBraces {begins : Bool} {token : Token} {after : Scanner}
    {cs : List Char} (read : TokenRead begins s token after)
    (hr : s.skip.rest = '{' :: '{' :: cs) : token.kind = .openBraces := by
  obtain ⟨rfl, -⟩ := read.unique (.openBraces hr)
  rfl

/-- What reading a token comes to when more text follows the script: the token is read
whatever follows, or it is the end, or a word that reaches the end. -/
theorem TokenRead.extends {begins : Bool} {token : Token} {after : Scanner}
    (read : TokenRead begins s token after) (ho : s.owed = 0) (more : List Char) :
    s.skip.rest ≠ [] ∧ TokenRead begins (s.extend more) token (after.extend more) ∧
        token.kind ≠ .endOfInput ∨
      (after.hold token).Ended ∨
      (after.hold token).Spent ∧ token.kind = .word ∧ ¬Lexeme.Breaks more ∧
        ∃ c cs, s.skip.rest = c :: cs ∧ c ≠ '\n' ∧ c ≠ ';' := by
  by_cases hr : s.skip.rest = []
  · refine .inr (.inl ?_)
    cases read with
    | finish => exact ⟨⟨hr, fun h => absurd ho h⟩, .inl rfl⟩
    | lineEnd rest lists => exact ended_takeLineEnd hr 0
    | separator rest | openBraces rest | closeBraces rest | colon rest | sigil rest | word rest =>
      exact absurd (rest.symm.trans hr) (List.cons_ne_nil _ _)
  · have hkind : token.kind ≠ .endOfInput := by
      cases read with
      | finish rest => exact absurd rest hr
      | _ => nofun
    by_cases hw : token.kind = .word ∧ after.rest = [] ∧ ¬Lexeme.Breaks more
    · obtain ⟨hk, hrest, hm⟩ := hw
      refine .inr (.inr ?_)
      cases read with
      | word rest _ _ space separator =>
        exact ⟨⟨hrest, fun h => absurd ho h⟩, rfl, hm, _, _, rest, space, separator⟩
      | _ => cases hk
    · refine .inl ⟨hr, read.extend hr fun hk => ?_, hkind⟩
      by_contra hn
      obtain ⟨hrest, hm⟩ := not_or.1 hn
      exact hw ⟨hk, not_not.1 hrest, hm⟩

/-- What a step comes to when more text follows the script. -/
inductive Extends (more : List Char) (s t : Scanner) : Prop
  /-- the step is taken whatever follows -/
  | stays (step : Step (s.extend more) (t.extend more)) (kind : t.token.kind ≠ .endOfInput)
  /-- the end was read -/
  | ends (ended : t.Ended)
  /-- a word reaches the end; with the text that follows, no separator is read instead -/
  | word (spent : t.Spent) (kind : t.token.kind = .word) (follows : ¬Lexeme.Breaks more)
      (apart : (s.extend more).look.token.kind ≠ .semicolon)
  /-- a command text reaches the end -/
  | command (spent : t.Spent) (kind : t.token.kind = .command) (mode : s.mode = .sigil)

/-- Blanks before the end are skipped whatever follows. -/
theorem extend_skipBlanks (h : s.resume.skipBlanks.rest ≠ []) (more : List Char) :
    (s.extend more).resume.skipBlanks = s.resume.skipBlanks.extend more :=
  extend_skipWhile (s := s.resume) h more

/-- What is left after the blanks has the text that follows after it. -/
theorem extend_skipBlanks_cons {c : Char} {cs : List Char}
    (h : s.resume.skipBlanks.rest = c :: cs) (more : List Char) :
    (s.extend more).resume.skipBlanks = s.resume.skipBlanks.extend more ∧
      (s.extend more).resume.skipBlanks.rest = c :: (cs ++ more) := by
  have hb := extend_skipBlanks (h ▸ List.cons_ne_nil c cs) more
  exact ⟨hb, by rw [hb, rest_extend, h]; rfl⟩

section
variable {token : Token} {after : Scanner} (hd : s.done = false) (howed : s.owed = 0)
include hd howed

/-- Where any token may come next. -/
theorem extends_token (mode : s.mode = .normal)
    (read : TokenRead s.beginsStatement s.resume token after) (more : List Char) :
    Extends more s (after.hold token) := by
  rcases read.extends howed more with ⟨-, read', hk⟩ | ended |
    ⟨spent, hk, hm, c, cs, hr, space, separator⟩
  · exact .stays (.token (s := s.extend more) howed mode read') hk
  · exact .ends ended
  · refine .word spent hk hm ?_
    have hskip := extend_skip (hr ▸ List.cons_ne_nil c cs) more
    have hr' : (s.extend more).resume.skip.rest = c :: (cs ++ more) :=
      (congrArg Scanner.rest hskip).trans (congrArg (· ++ more) hr)
    have step' : Step (s.extend more) _ := .token howed mode (tokenRead_readToken _ _)
    rw [step'.eq_look (s := s.extend more) hd]
    exact (tokenRead_readToken _ _).kind_ne_semicolon hr' space separator

/-- After a colon, where no braces follow it. -/
theorem extends_lineList (mode : s.mode = .colon)
    (rest : ∀ cs, s.resume.skipBlanks.rest ≠ '{' :: '{' :: cs)
    (read : TokenRead true { s.resume.skipBlanks with lineLists := s.lineLists + 1 } token after)
    (more : List Char) : Extends more s (after.hold token) := by
  have hread := read.extends (s := { s.resume.skipBlanks with lineLists := s.lineLists + 1 })
    howed more
  have hskip := rest_skip_openLine s
  rcases hread with ⟨hne, read', hk⟩ | ended | ⟨spent, hk, hm, c, cs, hr, space, separator⟩
  · have read'' : TokenRead true
        { (s.extend more).resume.skipBlanks with lineLists := (s.extend more).lineLists + 1 }
        token (after.extend more) := extend_skipBlanks (hskip ▸ hne) more ▸ read'
    refine .stays (.lineList (s := s.extend more) howed mode (fun cs hc => ?_) read'') hk
    exact read.kind_ne_openBraces rest
      (read''.kind_of_openBraces ((rest_skip_openLine _).trans hc))
  · exact .ends ended
  · refine .word spent hk hm ?_
    obtain ⟨-, hr'⟩ := extend_skipBlanks_cons (hskip.symm.trans hr) more
    have hlook := look_eq_of_mode (s := s.extend more) hd howed
    rw [show (s.extend more).mode = .colon from mode] at hlook
    rw [hlook]
    simp only [readListHead, resume_normal]
    split
    · exact TokenKind.noConfusion
    · exact (tokenRead_readToken _ _).kind_ne_semicolon ((rest_skip_openLine _).trans hr') space
        separator

omit hd in
/-- The text of a command is the same whatever follows, if its line ends. -/
theorem extends_command {text : List Char} (mode : s.mode = .sigil)
    (rest : s.resume.skipBlanks.rest ≠ [])
    (opens : ∀ cs, s.resume.skipBlanks.rest ≠ '{' :: '{' :: cs)
    (space : ∀ cs, s.resume.skipBlanks.rest ≠ '\n' :: cs)
    (found : Lexeme.commandText s.resume.skipBlanks.rest = some text) (more : List Char) :
    Extends more s (((s.resume.skipBlanks.forward text.length).endLine 1).hold
      ⟨.command, String.ofList (Lexeme.trimReturns text), s.resume.skipBlanks.position⟩) := by
  obtain ⟨c, cs, hr⟩ := List.exists_cons_of_ne_nil rest
  obtain ⟨hb, hr'⟩ := extend_skipBlanks_cons hr more
  have hsplit := Lexeme.commandText_append_drop found
  have hle : text.length ≤ s.resume.skipBlanks.rest.length := List.IsPrefix.length_le ⟨_, hsplit⟩
  by_cases hafter : (s.resume.skipBlanks.forward text.length).rest = []
  · have hspent := spent_endLine hafter 1
    exact .command ⟨hspent.rest, hspent.marker⟩ rfl mode
  · have hlt : text.length < s.resume.skipBlanks.rest.length := by
      rw [rest_forward, List.drop_eq_nil_iff] at hafter
      omega
    have htwo : ∃ c d tail, s.resume.skipBlanks.rest = c :: d :: tail := by
      have htext := List.length_pos_of_ne_nil (Lexeme.commandText_ne_nil found rest space)
      cases cs with
      | nil =>
        rw [hr, List.length_singleton] at hlt
        omega
      | cons d tail => exact ⟨c, d, tail, hr⟩
    have happend : (s.extend more).resume.skipBlanks.rest = s.resume.skipBlanks.rest ++ more :=
      congrArg Scanner.rest hb
    have space' : ∀ cs, (s.extend more).resume.skipBlanks.rest ≠ '\n' :: cs := fun cs' hc =>
      space cs (hr.trans (congrArg (· :: cs) (List.cons_eq_cons.1 (hr'.symm.trans hc)).1))
    have step' := Step.command (s := s.extend more) howed mode (hr' ▸ List.cons_ne_nil _ _)
      (happend ▸ append_ne_of_ne opens rest (.inl htwo)) space'
      (happend ▸ Lexeme.commandText_append_right found hlt more)
    rw [hb, extend_forward hle, extend_endLine hafter] at step'
    exact .stays step' TokenKind.noConfusion

end

/-- **A step is taken whatever follows the script, or reaches its end.** -/
theorem Step.extends (step : Step s t) (hd : s.done = false) (hf : t.fault = none)
    (more : List Char) : Extends more s t := by
  cases step with
  | owed owed => exact .stays (.owed (s := s.extend more) owed) TokenKind.noConfusion
  | token owed mode read => exact extends_token hd owed mode read more
  | bracedList owed mode rest =>
    obtain ⟨hb, hr⟩ := extend_skipBlanks_cons rest more
    have hle : 2 ≤ s.resume.skipBlanks.rest.length := by simp [rest]
    have step' := Step.bracedList (s := s.extend more) owed mode hr
    rw [hb] at step'
    have hforward : ({ s.resume.skipBlanks.extend more with beginsStatement := true }).forward 2 =
        (({ s.resume.skipBlanks with beginsStatement := true }).forward 2).extend more :=
      extend_forward (s := { s.resume.skipBlanks with beginsStatement := true }) hle more
    rw [hforward] at step'
    exact .stays step' TokenKind.noConfusion
  | lineList owed mode rest read => exact extends_lineList hd owed mode rest read more
  | block owed mode rest =>
    obtain ⟨hb, hr⟩ := extend_skipBlanks_cons rest more
    have hle : 2 ≤ s.resume.skipBlanks.rest.length := by simp [rest]
    have step' := Step.block (s := s.extend more) owed mode hr
    rw [hb, extend_forward hle] at step'
    exact .stays step' TokenKind.noConfusion
  | noCommand | openCommand | openBlock | stray => cases hf
  | command owed mode rest opens space found =>
    exact extends_command owed mode rest opens space found more
  | @blockText text owed mode found =>
    have hle : text.length ≤ s.resume.rest.length :=
      List.IsPrefix.length_le ⟨_, Lexeme.blockText_append_drop found⟩
    have step' := Step.blockText (s := s.extend more) owed mode
      (Lexeme.blockText_append_right found more)
    have hforward : (s.extend more).resume.forward text.length =
        (s.resume.forward text.length).extend more := extend_forward (s := s.resume) hle more
    rw [hforward] at step'
    exact .stays step' TokenKind.noConfusion
  | @terminator cs token after owed mode rest read =>
    obtain ⟨hb, hr⟩ := extend_skipBlanks_cons rest more
    have hskip := rest_skip rest (by decide)
    rcases read.extends owed more with ⟨-, read', hk⟩ | ended |
      ⟨spent, hk, hm, c, cs, hr, space, separator⟩
    · have read'' : TokenRead (s.extend more).beginsStatement (s.extend more).resume.skipBlanks
          token (after.extend more) := hb ▸ read'
      exact .stays (.terminator (s := s.extend more) owed mode hr read'') hk
    · exact .ends ended
    · exact absurd (List.cons_eq_cons.1 (hr.symm.trans hskip)).1 separator
  | lineEnd owed mode rest =>
    rcases rest with rest | ⟨cs, rest⟩
    · exact .ends (ended_takeLineEnd rest 1)
    · obtain ⟨hb, hr⟩ := extend_skipBlanks_cons rest more
      have step' := Step.lineEnd (s := s.extend more) owed mode (.inr ⟨_, hr⟩)
      rw [hb, extend_takeLineEnd (rest ▸ List.cons_ne_nil _ _)] at step'
      exact .stays step' TokenKind.noConfusion

/-- **A look is one whatever follows the script, or reaches its end.** -/
theorem extends_look (hd : s.done = false) (hf : s.look.fault = none) (more : List Char) :
    Extends more s s.look := (step_look hd).extends hd hf more

/-- The step that is taken on the longer script is its look. -/
theorem Extends.look_eq (hd : s.done = false) (step : Step (s.extend more) (t.extend more)) :
    (s.extend more).look = t.extend more := step.eq_look (s := s.extend more) hd

/-- **Where nothing is left, only the end is read.** -/
theorem Spent.step (h : s.Spent) (step : Step s t) (hf : t.fault = none) : t.Ended := by
  have hblanks : s.resume.skipBlanks.rest = [] := by
    rw [skipBlanks, rest_skipWhile]
    exact congrArg (List.dropWhile Text.isBlank) h.rest
  have hread : ∀ {u : Scanner} {begins : Bool} {token : Token} {after : Scanner}, u.rest = [] →
      u.owed = 0 → TokenRead begins u token after → (after.hold token).Ended := by
    intro u begins token after hr ho read
    have hskip : u.skip.rest = [] := by rw [Scanner.skip, rest_skipWhile, hr, List.dropWhile_nil]
    rcases read.extends ho [] with ⟨hne, -⟩ | hends | ⟨-, -, -, c, cs, hc, -⟩
    · exact absurd hskip hne
    · exact hends
    · exact absurd (hc.symm.trans hskip) (List.cons_ne_nil c cs)
  cases step with
  | owed owed =>
    exact ⟨⟨h.rest, fun _ => h.marker owed⟩, .inr (congrArg Token.newlineAt (h.marker owed))⟩
  | token owed mode read => exact hread (u := s.resume) h.rest owed read
  | lineList owed mode rest read =>
    exact hread (u := { s.resume.skipBlanks with lineLists := s.lineLists + 1 }) hblanks owed read
  | lineEnd owed mode rest => exact ended_takeLineEnd hblanks 1
  | command owed mode rest => exact absurd hblanks rest
  | blockText owed mode found =>
    have hnone : Lexeme.blockText s.resume.rest = none := congrArg Lexeme.blockText h.rest
    rw [hnone] at found
    cases found
  | bracedList owed mode rest | block owed mode rest | terminator owed mode rest =>
    exact absurd (rest.symm.trans hblanks) (List.cons_ne_nil _ _)
  | noCommand | openCommand | openBlock | stray => cases hf

/-- What leaves a scanner waiting for a command was a sigil. -/
theorem TokenRead.kind_of_sigil {begins : Bool} {token : Token} {after : Scanner}
    (read : TokenRead begins s token after) (hs : s.mode ≠ .sigil) (ha : after.mode = .sigil) :
    token.kind = .sigil := by
  cases read with
  | sigil => rfl
  | closeBraces =>
    rw [closeBraces_eq] at ha
    cases ha
  | colon => cases ha
  | _ => exact absurd ha hs

/-- Only a sigil is waited after for what follows a sigil. -/
theorem Step.kind_of_sigil (step : Step s t) (hs : s.mode ≠ .sigil) (ht : t.mode = .sigil) :
    t.token.kind = .sigil := by
  cases step with
  | owed => exact absurd ht hs
  | token owed mode read => exact read.kind_of_sigil (s := s.resume) nofun ht
  | lineList owed mode rest read => exact read.kind_of_sigil nofun ht
  | terminator owed mode rest read => exact read.kind_of_sigil nofun ht
  | _ => cases ht

/-- What follows a sigil is waited for once. -/
theorem Step.mode_ne_sigil (step : Step s t) (ho : s.owed = 0) (hs : s.mode = .sigil) :
    t.mode ≠ .sigil := by
  cases step with
  | owed owed => exact absurd ho owed
  | block | noCommand | openCommand | command => nofun
  | _ _ mode => cases hs.symm.trans mode

end Scanner
end RcScript
