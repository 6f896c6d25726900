/-
# Scripts with carriage returns

A script may end its lines with a carriage return and a line feed.  `Text.withReturns` puts a
carriage return before every line feed of a text, and two scanners are `Beside` one another
when one of them has such a text left and the other one the text without them.  Carriage
returns are blanks, so words are read alike, what is skipped is skipped alike, and a block
has them in its text.  A command on a line does not keep the one at the end of its line.  But
a backslash that escapes the line feed of one script escapes the carriage return of the other,
and there the line feed ends the command (`Lexeme.exists_commandText_withReturns`).  So a step
keeps scanners beside one another, unless it reads a command that goes on over a line break
(`Step.beside`).

The relation has the function that turns what is left of one text into what is left of the
other as a parameter, because it is not the same everywhere.  Right behind a token it is
`Text.withReturns`; where blanks have been skipped, the carriage return at the beginning
is one of them and is gone (`Text.withReturnsBehind`).

What one scanner passes is compared with what the other one passes, as text.  Words and
what is skipped are prefixes that end at the first character of a class, and a carriage
return is in the class wherever a line feed is; so they are the same prefixes, or ones
that differ by the carriage return at their end.  A block ends at its braces, and its
prefix has a carriage return for each line feed in it.  A command on a line ends at a line
feed that no backslash escapes: this is the one prefix that can be another one on the two
sides, and `Beside.command` says when.

A pair of steps is therefore `Together`, with the same kind of token and with scanners
that are beside one another again, or it is `Parted`.  The flag of `AwaitsCommand` is
carried along so that a run can tell, from the tokens alone, which texts of commands stand
on a line: those that come right behind a sigil.
-/

import RcScript.Proofs.Scanner.Level
import RcScript.Proofs.Scanner.Written

namespace RcScript

/-! ### Texts -/

namespace Text

variable {c : Char} {cs tail : List Char}

/-- A text with a carriage return before every line break. -/
def withReturns (text : List Char) : List Char :=
  text.flatMap fun c => if c = '\n' then ['\r', '\n'] else [c]

/-- A text with carriage returns from which the blanks at its beginning have been skipped: a
carriage return is one of them. -/
def withReturnsBehind : List Char → List Char
  | '\n' :: tail => '\n' :: withReturns tail
  | text => withReturns text

/-- A string with a carriage return before every line break. -/
def returned (text : String) : String := String.ofList (withReturns text.toList)

/-- A line break gets a carriage return. -/
theorem withReturns_lineBreak (cs : List Char) :
    withReturns ('\n' :: cs) = '\r' :: '\n' :: withReturns cs := rfl

/-- Any other character stays as it is. -/
theorem withReturns_cons (h : c ≠ '\n') : withReturns (c :: cs) = c :: withReturns cs := by
  rw [withReturns, List.flatMap_cons, if_neg h]
  rfl

/-- Two texts get their carriage returns one after the other. -/
theorem withReturns_append (cs ds : List Char) :
    withReturns (cs ++ ds) = withReturns cs ++ withReturns ds := List.flatMap_append

/-- A text without line breaks stays as it is. -/
theorem withReturns_of_not_mem (h : '\n' ∉ cs) : withReturns cs = cs := by
  induction cs with
  | nil => rfl
  | cons c cs ih =>
    rw [List.mem_cons, not_or] at h
    rw [withReturns_cons (Ne.symm h.1), ih h.2]

/-- The line breaks are still there. -/
theorem mem_withReturns (h : '\n' ∈ cs) : '\n' ∈ withReturns cs :=
  List.mem_flatMap.2 ⟨'\n', h, by decide⟩

/-- Only a carriage return is put before a text. -/
theorem withReturns_eq_cons (h : withReturns cs = c :: tail) (hc : c ≠ '\r') :
    ∃ ds, cs = c :: ds ∧ tail = withReturns ds := by
  cases cs with
  | nil => cases h
  | cons d ds =>
    by_cases hd : d = '\n'
    · subst hd
      rw [withReturns_lineBreak] at h
      exact absurd (List.cons_eq_cons.1 h).1.symm hc
    · rw [withReturns_cons hd] at h
      obtain ⟨rfl, rfl⟩ := List.cons_eq_cons.1 h
      exact ⟨ds, rfl, rfl⟩

/-- Where no line break comes first nothing has been skipped. -/
theorem withReturnsBehind_cons (h : c ≠ '\n') :
    withReturnsBehind (c :: cs) = c :: withReturns cs := by
  rw [withReturnsBehind, withReturns_cons h]
  exact fun _ h' => h (List.cons_eq_cons.1 h').1

/-- A text without line breaks stays as it is in front of another one. -/
theorem withReturnsBehind_append (hn : cs ≠ []) (h : '\n' ∉ cs) :
    withReturnsBehind (cs ++ tail) = cs ++ withReturns tail := by
  obtain ⟨c, cs, rfl⟩ := List.exists_cons_of_ne_nil hn
  have hc : c ≠ '\n' := fun hc => h (hc ▸ List.mem_cons_self)
  rw [List.cons_append, withReturnsBehind_cons hc, withReturns_append,
    withReturns_of_not_mem fun hm => h (List.mem_cons_of_mem c hm)]
  rfl

/-- Two characters other than line breaks and carriage returns stand there as they do without.
-/
theorem withReturnsBehind_eq_cons {d : Char} (h : withReturnsBehind cs = c :: d :: tail)
    (hn : c ≠ '\n') (hc : c ≠ '\r') (hd : d ≠ '\r') : ∃ ds, cs = c :: d :: ds := by
  rw [withReturnsBehind.eq_def] at h
  split at h
  · exact absurd (List.cons_eq_cons.1 h).1.symm hn
  · obtain ⟨ds, rfl, hds⟩ := withReturns_eq_cons h hc
    obtain ⟨es, rfl, -⟩ := withReturns_eq_cons hds.symm hd
    exact ⟨es, rfl⟩

/-- What is skipped with a carriage return is skipped alike. -/
theorem dropWhile_withReturns {p : Char → Bool} (hp : p '\r' = true) (cs : List Char) :
    (withReturns cs).dropWhile p = withReturnsBehind (cs.dropWhile p) := by
  induction cs with
  | nil => rfl
  | cons c cs ih =>
    by_cases hc : c = '\n'
    · subst hc
      rw [withReturns_lineBreak, List.dropWhile_cons_of_pos hp]
      cases hb : p '\n' with
      | true => rw [List.dropWhile_cons_of_pos hb, List.dropWhile_cons_of_pos hb, ih]
      | false =>
        rw [List.dropWhile_cons_of_neg (by simp [hb]), List.dropWhile_cons_of_neg (by simp [hb])]
        rfl
    · rw [withReturns_cons hc]
      cases hb : p c with
      | true => rw [List.dropWhile_cons_of_pos hb, List.dropWhile_cons_of_pos hb, ih]
      | false =>
        rw [List.dropWhile_cons_of_neg (by simp [hb]), List.dropWhile_cons_of_neg (by simp [hb]),
          withReturnsBehind_cons hc]

/-- It makes no difference that a carriage return has been skipped before. -/
theorem dropWhile_withReturnsBehind {p : Char → Bool} (hp : p '\r' = true) (cs : List Char) :
    (withReturnsBehind cs).dropWhile p = withReturnsBehind (cs.dropWhile p) := by
  rw [← dropWhile_withReturns hp, withReturnsBehind.eq_def]
  split
  · exact (List.dropWhile_cons_of_pos hp).symm
  · rfl

end Text

/-! ### Lexemes -/

namespace Lexeme

open Text

/-- A word is the same, for a carriage return ends it as a line break does. -/
theorem word_withReturns (cs : List Char) : word (withReturns cs) = word cs := by
  fun_induction word cs with
  | case1 => rfl
  | case2 rest => rfl
  | case3 c rest hb hc =>
    by_cases hn : c = '\n'
    · subst hn
      rfl
    · rw [withReturns_cons hn, word, if_pos hc]
      rintro tail rfl -
      exact absurd hc (by decide)
  | case4 c rest hb hc ih =>
    have hn : c ≠ '\n' := by
      rintro rfl
      exact hc (by decide)
    rw [withReturns_cons hn, word, if_neg hc, ih]
    intro tail hc ht
    obtain ⟨ds, hds, -⟩ := withReturns_eq_cons ht (by decide)
    exact hb ds hc hds

/-- A block has the carriage returns in its text. -/
theorem blockText_withReturns (cs : List Char) :
    blockText (withReturns cs) = (blockText cs).map withReturns := by
  fun_induction blockText cs with
  | case1 => rfl
  | case2 rest => rfl
  | case3 c rest hb ih =>
    by_cases hn : c = '\n'
    · subst hn
      calc blockText ('\r' :: '\n' :: withReturns rest)
          = ((blockText (withReturns rest)).map ('\n' :: ·)).map ('\r' :: ·) := rfl
        _ = ((blockText rest).map ('\n' :: ·)).map withReturns := by
          rw [ih, Option.map_map, Option.map_map, Option.map_map]
          rfl
    · rw [withReturns_cons hn, blockText, ih, Option.map_map, Option.map_map]
      · refine congrArg (Option.map · (blockText rest)) (funext fun text => ?_)
        exact (withReturns_cons hn).symm
      · intro tail hc ht
        obtain ⟨ds, hds, -⟩ := withReturns_eq_cons ht (by decide)
        exact hb ds hc hds

/-- A command that does not go on over a line break gets the carriage return at the end of
its line. -/
theorem commandText_withReturns {text rest : List Char}
    (h : commandText (text ++ rest) = some text) (hn : '\n' ∉ text) :
    commandText (withReturns (text ++ rest)) =
      some (if rest = [] then text else text ++ ['\r']) := by
  obtain ⟨hb, hd, rest', hsplit, hr⟩ := of_commandText h
  obtain rfl := List.append_cancel_left hsplit
  rw [withReturns_append, withReturns_of_not_mem hn, commandText_append hb hd]
  cases rest with
  | nil => simp [withReturns, commandText]
  | cons c rest =>
    obtain rfl : c = '\n' := hr c rfl
    rfl

/-- **A command that goes on over a line break does not go on over it with a carriage return
before it**: the backslash takes the carriage return. -/
theorem exists_commandText_withReturns {cs text : List Char} (h : commandText cs = some text)
    (hn : '\n' ∈ text) :
    ∃ text', commandText (withReturns cs) = some text' ∧ '\n' ∉ text' := by
  fun_induction commandText cs generalizing text with
  | case1 =>
    cases h
    cases hn
  | case2 rest =>
    cases h
    cases hn
  | case3 => cases h
  | case4 c rest ih =>
    obtain ⟨t, ht, rfl⟩ := Option.map_eq_some_iff.1 h
    by_cases hc : c = '\n'
    · subst hc
      exact ⟨['\\', '\r'], rfl, by decide⟩
    · have hmem : '\n' ∈ t := by simpa [Ne.symm hc] using hn
      obtain ⟨text', ht', hn'⟩ := ih ht hmem
      refine ⟨'\\' :: c :: text', ?_, by simpa [Ne.symm hc] using hn'⟩
      rw [withReturns_cons (by decide), withReturns_cons hc, commandText, ht']
      rfl
  | case5 c rest hc h₁ h₂ ih =>
    obtain ⟨t, ht, rfl⟩ := Option.map_eq_some_iff.1 h
    have hb : c ≠ '\\' := by
      intro hb
      cases rest with
      | nil => exact h₁ hb rfl
      | cons d rest => exact h₂ d rest hb rfl
    have hmem : '\n' ∈ t := by simpa [Ne.symm hc] using hn
    obtain ⟨text', ht', hn'⟩ := ih ht hmem
    refine ⟨c :: text', ?_, by simpa [Ne.symm hc] using hn'⟩
    rw [withReturns_cons hc, commandText_cons hc hb, ht']
    rfl

/-- The carriage return at the end of a line is trimmed. -/
theorem trimReturns_append_return {text : List Char} (h : '\r' ∉ text) :
    trimReturns (text ++ ['\r']) = text := by
  have hlast : text.getLast? ≠ some '\r' := fun hl => h (List.mem_of_getLast? hl)
  calc trimReturns (text ++ ['\r'])
      = trimReturns text := List.rdropWhile_concat_pos _ text '\r' (by decide)
    _ = text := trimReturns_eq_self hlast

end Lexeme

/-! ### Scanners -/

namespace Scanner

open Text

variable {s s' t : Scanner} {turn : List Char → List Char}

/-- Two scanners in the same state, one of which has a text with carriage returns left where
the other one has the text without them. -/
structure Beside (turn : List Char → List Char) (s s' : Scanner) : Prop where
  level : Level s s'
  rest : s'.rest = turn s.rest
  free : '\r' ∉ s.rest
  fault : s'.fault = none

section
variable (h : Beside turn s s')
include h

/-- The same request leaves scanners beside one another. -/
theorem Beside.ask (begins : Bool) : Beside turn (s.ask begins) (s'.ask begins) :=
  { h with level := h.level.ask begins }

/-- Using up mode and request leaves scanners beside one another. -/
theorem Beside.resume : Beside turn s.resume s'.resume := { h with level := h.level.resume }

/-- Taking the same mode leaves scanners beside one another. -/
theorem Beside.setMode (mode : Mode) :
    Beside turn { s with mode := mode } { s' with mode := mode } :=
  { h with level := h.level.setMode mode }

/-- Being asked alike leaves scanners beside one another. -/
theorem Beside.setBegins (begins : Bool) :
    Beside turn { s with beginsStatement := begins } { s' with beginsStatement := begins } :=
  { h with level := h.level.setBegins begins }

/-- Opening a line list leaves scanners beside one another. -/
theorem Beside.openLine : Beside turn { s with lineLists := s.lineLists + 1 }
    { s' with lineLists := s'.lineLists + 1 } :=
  { h with level := h.level.openLine }

/-- Opening braces leaves scanners beside one another. -/
theorem Beside.openBraces (ofList : Bool) :
    Beside turn (s.openBraces ofList) (s'.openBraces ofList) :=
  { h with level := h.level.openBraces ofList }

/-- Closing braces leaves scanners beside one another. -/
theorem Beside.closeBraces : Beside turn s.closeBraces s'.closeBraces := by
  have hl := h.level.closeBraces
  rw [closeBraces_eq, closeBraces_eq] at hl ⊢
  exact { h with level := hl }

/-- Paying a marker leaves scanners beside one another. -/
theorem Beside.payOne : Beside turn { s with owed := s.owed - 1, beginsStatement := true }
    { s' with owed := s'.owed - 1, beginsStatement := true } :=
  { h with level := h.level.payOne }

/-- Holding tokens of the same kind leaves scanners beside one another. -/
theorem Beside.hold {token token' : Token} (hk : token'.kind = token.kind) :
    Beside turn (s.hold token) (s'.hold token') :=
  { h with level := h.level.hold hk }

end

/-- Characters are passed on both sides, those of a text and those of what it becomes. -/
theorem Beside.pass {turn' : List Char → List Char} {m n : Nat} (h : Beside turn s s')
    (hr : s'.rest.drop n = turn' (s.rest.drop m)) :
    Beside turn' (s.forward m) (s'.forward n) where
  level := { h.level with }
  rest := by rw [rest_forward, rest_forward, hr]
  free := by
    rw [rest_forward]
    exact fun hc => h.free (List.mem_of_mem_drop hc)
  fault := h.fault

/-- What is skipped on both sides leaves the scanners before what is left. -/
theorem Beside.skipWhile {turn' : List Char → List Char} {p : Char → Bool} (h : Beside turn s s')
    (hr : s'.rest.dropWhile p = turn' (s.rest.dropWhile p)) :
    Beside turn' (s.skipWhile p) (s'.skipWhile p) where
  level := { h.level with }
  rest := by rw [rest_skipWhile, rest_skipWhile, hr]
  free := by
    rw [rest_skipWhile]
    exact fun hc => h.free ((List.dropWhile_suffix p).subset hc)
  fault := h.fault

/-- Blanks are skipped together with the carriage return of a line break behind them. -/
theorem Beside.skipBlanks (h : Beside withReturns s s') :
    Beside withReturnsBehind s.skipBlanks s'.skipBlanks :=
  h.skipWhile (by rw [h.rest, dropWhile_withReturns (by decide)])

/-- What separates tokens is skipped on both sides. -/
theorem Beside.skip (h : Beside withReturns s s') : Beside withReturnsBehind s.skip s'.skip := by
  rw [Scanner.skip, Scanner.skip, h.level.lists]
  split <;> exact h.skipWhile (by rw [h.rest, dropWhile_withReturns (by decide)])

/-- Behind blanks what separates tokens is skipped on both sides. -/
theorem Beside.skip_behind (h : Beside withReturnsBehind s s') :
    Beside withReturnsBehind s.skip s'.skip := by
  rw [Scanner.skip, Scanner.skip, h.level.lists]
  split <;> exact h.skipWhile (by rw [h.rest, dropWhile_withReturnsBehind (by decide)])

section
variable (h : Beside withReturnsBehind s s')
include h

/-- A character other than a line break comes next on both sides. -/
theorem Beside.rest_cons {c : Char} {cs : List Char} (hr : s.rest = c :: cs) (hc : c ≠ '\n') :
    s'.rest = c :: withReturns cs := by
  rw [h.rest, hr, withReturnsBehind_cons hc]

/-- So do two of them. -/
theorem Beside.rest_cons_cons {c d : Char} {cs : List Char} (hr : s.rest = c :: d :: cs)
    (hc : c ≠ '\n') (hd : d ≠ '\n') : s'.rest = c :: d :: withReturns cs := by
  rw [h.rest_cons hr hc, withReturns_cons hd]

/-- Two characters that do not come next on the one side do not on the other. -/
theorem Beside.rest_ne {c d : Char} (hr : ∀ cs, s.rest ≠ c :: d :: cs) (hn : c ≠ '\n')
    (hc : c ≠ '\r') (hd : d ≠ '\r') (cs : List Char) : s'.rest ≠ c :: d :: cs := by
  intro hcs
  rw [h.rest] at hcs
  obtain ⟨ds, hds⟩ := withReturnsBehind_eq_cons hcs hn hc hd
  exact hr ds hds

/-- The end of a line or of the script is the same behind blanks. -/
theorem Beside.rest_end (hr : s.rest = [] ∨ ∃ cs, s.rest = '\n' :: cs) :
    s'.rest = [] ∨ ∃ cs, s'.rest = '\n' :: cs := by
  rw [h.rest]
  obtain hr | ⟨cs, hr⟩ := hr <;> rw [hr]
  · exact .inl rfl
  · exact .inr ⟨withReturns cs, rfl⟩

/-- A text without line breaks is passed. -/
theorem Beside.forward (text : List Char) {tail : List Char} (hr : s.rest = text ++ tail)
    (hne : text ≠ []) (hn : '\n' ∉ text) :
    Beside withReturns (s.forward text.length) (s'.forward text.length) := by
  refine h.pass ?_
  rw [h.rest, hr, withReturnsBehind_append hne hn, List.drop_left, List.drop_left]

/-- A line ends on both sides. -/
theorem Beside.endLine (hr : s.rest = [] ∨ ∃ cs, s.rest = '\n' :: cs) (extra : Int) :
    Beside withReturns (s.endLine extra) (s'.endLine extra) where
  level := h.level.endLine extra
  rest := by
    rw [rest_endLine, rest_endLine, h.rest]
    obtain hr | ⟨cs, hr⟩ := hr <;> rw [hr] <;> rfl
  free := by
    rw [rest_endLine]
    exact fun hc => h.free (List.mem_of_mem_drop hc)
  fault := h.fault

/-- A line that ends brings its first marker on both sides. -/
theorem Beside.takeLineEnd (hr : s.rest = [] ∨ ∃ cs, s.rest = '\n' :: cs) (extra : Int) :
    Beside withReturns (s.takeLineEnd extra).2 (s'.takeLineEnd extra).2 :=
  (h.endLine hr extra).payOne

end

/-- A word is the same behind blanks. -/
theorem Beside.word_eq (h : Beside withReturnsBehind s s') {c : Char} {cs : List Char}
    (hr : s.rest = c :: cs) (hc : c ≠ '\n') : Lexeme.word s'.rest = Lexeme.word s.rest := by
  rw [h.rest_cons hr hc, ← withReturns_cons hc, Lexeme.word_withReturns, hr]

/-- Whether two tokens are the same, where the text of a command may have carriage returns. -/
def SameToken (token token' : Token) : Prop :=
  token'.kind = token.kind ∧
    token'.text = if token.kind = .command then returned token.text else token.text

/-- **Any token is read alike.** -/
theorem TokenRead.beside {begins : Bool} {token : Token} {after : Scanner}
    (read : TokenRead begins s token after) (h : Beside withReturnsBehind s.skip s'.skip) :
    ∃ token' after', TokenRead begins s' token' after' ∧ SameToken token token' ∧
      Beside withReturns after after' := by
  have hlists : s'.lineLists = s.lineLists := h.level.lists
  cases read with
  | finish rest lists =>
    have rest' : s'.skip.rest = [] := by
      rw [h.rest, rest]
      rfl
    exact ⟨_, _, .finish rest' (hlists.trans lists), ⟨rfl, rfl⟩,
      { h with rest := by rw [rest', rest]; rfl }⟩
  | lineEnd rest lists =>
    exact ⟨_, _, .lineEnd (h.rest_end rest) (hlists ▸ lists), ⟨rfl, rfl⟩, h.takeLineEnd rest 0⟩
  | separator rest =>
    exact ⟨_, _, .separator (h.rest_cons rest (by decide)), ⟨rfl, rfl⟩,
      (h.forward [';'] rest (by decide) (by decide)).setBegins true⟩
  | openBraces rest =>
    exact ⟨_, _, .openBraces (h.rest_cons_cons rest (by decide) (by decide)), ⟨rfl, rfl⟩,
      (h.forward ['{', '{'] rest (by decide) (by decide)).openBraces false⟩
  | closeBraces rest =>
    exact ⟨_, _, .closeBraces (h.rest_cons_cons rest (by decide) (by decide)), ⟨rfl, rfl⟩,
      ((h.forward ['}', '}'] rest (by decide) (by decide)).setMode
        .terminator).closeBraces⟩
  | colon rest head =>
    exact ⟨_, _, .colon (h.rest_cons rest (by decide)) head, ⟨rfl, rfl⟩,
      (h.forward [':'] rest (by decide) (by decide)).setMode .colon⟩
  | @sigil g cs rest head =>
    have hg : g.char ≠ '\n' := by cases g <;> decide
    exact ⟨_, _, .sigil (h.rest_cons rest hg) head, ⟨rfl, rfl⟩,
      (h.forward [g.char] rest (by simp) (by simpa using Ne.symm hg)).setMode .sigil⟩
  | word rest opens closes space separator head =>
    have hword := h.word_eq rest space
    have hne : Lexeme.word s.skip.rest ≠ [] := by
      rw [word_cons rest closes space separator]
      exact List.cons_ne_nil _ _
    have hn : '\n' ∉ Lexeme.word s.skip.rest := fun hmem =>
      absurd (Lexeme.not_stop_of_mem_word hmem).1 (by decide)
    have read' := TokenRead.word (h.rest_cons rest space)
      (h.rest_ne opens (by decide) (by decide) (by decide))
      (h.rest_ne closes (by decide) (by decide) (by decide)) space separator head
    rw [hword] at read'
    exact ⟨_, _, read', ⟨rfl, rfl⟩,
      h.forward _ (Lexeme.word_append_drop s.skip.rest).symm hne hn⟩

/-- Two steps that keep scanners beside one another.  No command on a line that they read
goes on over a line break. -/
structure Together (s t t' : Scanner) : Prop where
  same : SameToken t.token t'.token
  beside : Beside withReturns t t'
  line : s.mode = .sigil → t.token.kind = .command → '\n' ∉ t.token.text.toList

/-- Two steps that read different commands, one of which goes on over a line break. -/
structure Parted (s t t' : Scanner) : Prop where
  mode : s.mode = .sigil
  kind : t.token.kind = .command
  goesOn : '\n' ∈ t.token.text.toList
  kind' : t'.token.kind = .command
  ends : '\n' ∉ t'.token.text.toList

/-- The text of a command is passed together with the carriage return behind it, and then the
line ends. -/
theorem Beside.passLine {text rest : List Char} (h : Beside withReturnsBehind s s')
    (hwhole : s'.rest = withReturns s.rest) (hr : s.rest = text ++ rest) (hn : '\n' ∉ text)
    (hend : ∀ c ∈ rest.head?, c = '\n') :
    Beside withReturns ((s.forward text.length).endLine 1)
      ((s'.forward (if rest = [] then text else text ++ ['\r']).length).endLine 1) := by
  have hpass : Beside withReturnsBehind (s.forward text.length)
      (s'.forward (if rest = [] then text else text ++ ['\r']).length) := by
    refine h.pass ?_
    rw [hwhole, hr, withReturns_append, withReturns_of_not_mem hn, List.drop_left]
    cases rest with
    | nil => exact List.drop_left
    | cons d ds =>
      obtain rfl : d = '\n' := hend d rfl
      rw [if_neg (List.cons_ne_nil _ _), withReturns_lineBreak,
        List.append_cons text '\r' ('\n' :: withReturns ds), List.drop_left]
      rfl
  refine hpass.endLine ?_ 1
  rw [rest_forward, hr, List.drop_left]
  cases rest with
  | nil => exact .inl rfl
  | cons d ds => exact .inr ⟨ds, by rw [hend d rfl]⟩

/-- A command on a line is read alike, unless it goes on over a line break. -/
theorem Beside.command {text : List Char} (h : Beside withReturns s s') (owed : s.owed = 0)
    (mode : s.mode = .sigil) (rest : s.resume.skipBlanks.rest ≠ [])
    (opens : ∀ cs, s.resume.skipBlanks.rest ≠ '{' :: '{' :: cs)
    (space : ∀ cs, s.resume.skipBlanks.rest ≠ '\n' :: cs)
    (found : Lexeme.commandText s.resume.skipBlanks.rest = some text) :
    ∃ t', Step s' t' ∧
      let t := ((s.resume.skipBlanks.forward text.length).endLine 1).hold
        ⟨.command, String.ofList (Lexeme.trimReturns text), s.resume.skipBlanks.position⟩
      Together s t t' ∨ Parted s t t' := by
  have howed := h.level.owed.trans owed
  have hmode := h.level.mode.trans mode
  have hb := h.resume.skipBlanks
  obtain ⟨c, cs, hcs⟩ := List.exists_cons_of_ne_nil rest
  have hc : c ≠ '\n' := by
    rintro rfl
    exact space cs hcs
  -- the command begins with something else than a line break, so it is read from the whole text
  have hwhole : s'.resume.skipBlanks.rest = withReturns s.resume.skipBlanks.rest := by
    rw [hb.rest, hcs, withReturnsBehind_cons hc, withReturns_cons hc]
  have hrest : s'.resume.skipBlanks.rest ≠ [] := by
    rw [hb.rest_cons hcs hc]
    exact List.cons_ne_nil _ _
  have hopens := hb.rest_ne opens (by decide) (by decide) (by decide)
  have hspace : ∀ cs, s'.resume.skipBlanks.rest ≠ '\n' :: cs := by
    rw [hb.rest_cons hcs hc]
    exact fun ds hds => hc (List.cons_eq_cons.1 hds).1
  obtain ⟨-, -, after, hsplit, hend⟩ := Lexeme.of_commandText found
  have hfree : '\r' ∉ text := fun hm => hb.free (hsplit ▸ List.mem_append_left after hm)
  have htrim : Lexeme.trimReturns text = text :=
    Lexeme.trimReturns_eq_self fun hl => hfree (List.mem_of_getLast? hl)
  by_cases hn : '\n' ∈ text
  · obtain ⟨text', found', hn'⟩ := Lexeme.exists_commandText_withReturns found hn
    rw [← hwhole] at found'
    refine ⟨_, .command howed hmode hrest hopens hspace found', .inr ⟨mode, rfl, ?_, rfl, ?_⟩⟩
    · change '\n' ∈ (String.ofList (Lexeme.trimReturns text)).toList
      rwa [String.toList_ofList, htrim]
    · change '\n' ∉ (String.ofList (Lexeme.trimReturns text')).toList
      rw [String.toList_ofList]
      exact fun hm => hn' ((Lexeme.isPrefix_trimReturns text').subset hm)
  · have found' := Lexeme.commandText_withReturns (hsplit ▸ found) hn
    rw [← hsplit, ← hwhole] at found'
    have htrim' : Lexeme.trimReturns (if after = [] then text else text ++ ['\r']) = text := by
      split
      · exact htrim
      · exact Lexeme.trimReturns_append_return hfree
    refine ⟨_, .command howed hmode hrest hopens hspace found',
      .inl ⟨⟨rfl, ?_⟩, (hb.passLine hwhole hsplit hn hend).hold rfl, fun _ _ => ?_⟩⟩
    · change String.ofList _ = returned (String.ofList _)
      rw [htrim, htrim', returned, String.toList_ofList, withReturns_of_not_mem hn]
    · change '\n' ∉ (String.ofList _).toList
      rwa [String.toList_ofList, htrim]

/-- **Scanners beside one another take the same step**, unless it reads a command that goes
on over a line break.  Then the other one reads a command that does not. -/
theorem Step.beside (step : Step s t) (h : Beside withReturns s s') (hf : t.fault = none) :
    ∃ t', Step s' t' ∧ (Together s t t' ∨ Parted s t t') := by
  have howed := h.level.owed
  have hmode := h.level.mode
  have hb := h.resume.skipBlanks
  have hne {mode : Mode} (hm : s.mode = mode) (hsigil : mode ≠ .sigil) {token : Token} :
      s.mode = .sigil → token.kind = .command → '\n' ∉ token.text.toList := fun hs =>
    absurd (hm.symm.trans hs) hsigil
  cases step with
  | owed owed =>
    refine ⟨_, .owed (howed ▸ owed), .inl ⟨⟨rfl, rfl⟩, h.payOne.hold rfl, fun _ hk => ?_⟩⟩
    cases hk
  | token owed mode read =>
    obtain ⟨token', after', read', hsame, hafter⟩ := read.beside h.resume.skip
    rw [← h.level.begins] at read'
    exact ⟨_, .token (howed.trans owed) (hmode.trans mode) read',
      .inl ⟨hsame, hafter.hold hsame.1, hne mode nofun⟩⟩
  | bracedList owed mode rest =>
    have rest' := hb.rest_cons_cons rest (by decide) (by decide)
    have hbraces := (hb.setBegins true).forward ['{', '{'] rest (by decide) (by decide)
    exact ⟨_, .bracedList (howed.trans owed) (hmode.trans mode) rest',
      .inl ⟨⟨rfl, rfl⟩, (hbraces.openBraces true).hold rfl, hne mode nofun⟩⟩
  | lineList owed mode rest read =>
    have hl : Beside withReturnsBehind { s.resume.skipBlanks with lineLists := s.lineLists + 1 }
        { s'.resume.skipBlanks with lineLists := s'.lineLists + 1 } := hb.openLine
    obtain ⟨token', after', read', hsame, hafter⟩ := read.beside hl.skip_behind
    have rest' := hb.rest_ne rest (by decide) (by decide) (by decide)
    exact ⟨_, .lineList (howed.trans owed) (hmode.trans mode) rest' read',
      .inl ⟨hsame, hafter.hold hsame.1, hne mode nofun⟩⟩
  | block owed mode rest =>
    have rest' := hb.rest_cons_cons rest (by decide) (by decide)
    have hbraces := hb.forward ['{', '{'] rest (by decide) (by decide)
    refine ⟨_, .block (howed.trans owed) (hmode.trans mode) rest',
      .inl ⟨⟨rfl, rfl⟩, ((hbraces.openBraces false).setMode .block).hold rfl, fun _ hk => ?_⟩⟩
    cases hk
  | command owed mode rest opens space found => exact h.command owed mode rest opens space found
  | @blockText text owed mode found =>
    have hr := h.resume
    have found' : Lexeme.blockText s'.resume.rest = some (withReturns text) := by
      rw [hr.rest, Lexeme.blockText_withReturns, found]
      rfl
    obtain ⟨-, -, rest, hsplit⟩ := Lexeme.of_blockText found
    have hforward : Beside withReturns (s.resume.forward text.length)
        (s'.resume.forward (withReturns text).length) := by
      refine hr.pass ?_
      rw [hr.rest, hsplit, withReturns_append, List.drop_left, List.drop_left]
    refine ⟨_, .blockText (howed.trans owed) (hmode.trans mode) found',
      .inl ⟨⟨rfl, ?_⟩, hforward.hold rfl, hne mode nofun⟩⟩
    change String.ofList (withReturns text) = returned (String.ofList text)
    rw [returned, String.toList_ofList]
  | @terminator cs token after owed mode rest read =>
    obtain ⟨token', after', read', hsame, hafter⟩ := read.beside hb.skip_behind
    rw [← h.level.begins] at read'
    exact ⟨_, .terminator (howed.trans owed) (hmode.trans mode)
      (hb.rest_cons rest (by decide)) read',
      .inl ⟨hsame, hafter.hold hsame.1, hne mode nofun⟩⟩
  | lineEnd owed mode rest =>
    exact ⟨_, .lineEnd (howed.trans owed) (hmode.trans mode) (hb.rest_end rest),
      .inl ⟨⟨rfl, rfl⟩, (hb.takeLineEnd rest 1).hold rfl, hne mode nofun⟩⟩
  | noCommand | openCommand | openBlock | stray => cases hf

/-- Whether a command is awaited: a sigil has been read right before, and no marker is owed. -/
structure AwaitsCommand (afterSigil : Bool) (s : Scanner) : Prop where
  mode : s.mode = .sigil ↔ afterSigil = true
  owed : s.mode = .sigil → s.owed = 0

/-- After anything but a sigil no command is awaited. -/
theorem awaitsCommand_of_ne {kind : TokenKind} (hm : s.mode ≠ .sigil) (hk : kind ≠ .sigil) :
    AwaitsCommand (decide (kind = .sigil)) s :=
  ⟨iff_of_false hm (by simpa using hk), fun hs => absurd hs hm⟩

/-- After a sigil, and only then, the scanner waits for what follows one. -/
theorem TokenRead.mode_eq_sigil_iff {begins : Bool} {token : Token} {after : Scanner}
    (read : TokenRead begins s token after) (hm : s.mode = .normal) :
    (after.mode = .sigil ↔ token.kind = .sigil) ∧ (after.mode = .sigil → after.owed = s.owed) := by
  have hnone (mode : Mode) {kind : TokenKind} {u : Scanner} (hmode : mode ≠ .sigil)
      (hkind : kind ≠ .sigil) (hu : u.mode = mode) :
      (u.mode = .sigil ↔ kind = .sigil) ∧ (u.mode = .sigil → u.owed = s.owed) := by
    subst hu
    exact ⟨iff_of_false hmode hkind, fun h => absurd h hmode⟩
  cases read with
  | finish | lineEnd | separator | openBraces | word => exact hnone .normal nofun nofun hm
  | closeBraces => exact hnone .terminator nofun nofun (by rw [closeBraces_eq])
  | colon => exact hnone .colon nofun nofun rfl
  | sigil => exact ⟨iff_of_true rfl rfl, fun _ => rfl⟩

/-- **After a sigil, and only then, a command is awaited.** -/
theorem Step.awaitsCommand (step : Step s t) {afterSigil : Bool} (h : AwaitsCommand afterSigil s) :
    AwaitsCommand (decide (t.token.kind = .sigil)) t := by
  have hread {begins : Bool} {u : Scanner} {token : Token} {after : Scanner}
      (read : TokenRead begins u token after) (hm : u.mode = .normal) (ho : u.owed = 0) :
      AwaitsCommand (decide (token.kind = .sigil)) (after.hold token) := by
    obtain ⟨hmode, howed⟩ := read.mode_eq_sigil_iff hm
    exact ⟨hmode.trans (by simp), fun hs => (howed hs).trans ho⟩
  cases step with
  | owed owed =>
    exact awaitsCommand_of_ne (fun hs => owed (h.owed hs)) (fun hk => by cases hk)
  | token owed mode read => exact hread read rfl owed
  | lineList owed mode rest read => exact hread read rfl owed
  | terminator owed mode rest read => exact hread read rfl owed
  | _ => exact awaitsCommand_of_ne (fun hm => by cases hm) (fun hk => by cases hk)

/-- Whether a command is awaited is told by the last token. -/
theorem awaitsCommand_look {afterSigil : Bool} (h : AwaitsCommand afterSigil s)
    (hd : s.done = false) : AwaitsCommand (decide (s.look.token.kind = .sigil)) s.look :=
  (step_look hd).awaitsCommand h

/-- **A look leaves scanners beside one another**, or it reads a command that goes on over a
line break. -/
theorem Beside.look (h : Beside withReturns s s') (hd : s.done = false)
    (hf : s.look.fault = none) : Together s s.look s'.look ∨ Parted s s.look s'.look := by
  obtain ⟨t', step', ht⟩ := (step_look hd).beside h hf
  rwa [step'.eq_look (h.level.done.trans hd)]

/-- A script and the one with carriage returns are beside one another. -/
theorem beside_ofText {source : String} (filename : String) (h : '\r' ∉ source.toList) :
    Beside withReturns (ofText source filename) (ofText (returned source) filename) where
  level := ⟨rfl, rfl, rfl, rfl, rfl, rfl⟩
  rest := String.toList_ofList
  free := h
  fault := rfl

end Scanner
end RcScript
