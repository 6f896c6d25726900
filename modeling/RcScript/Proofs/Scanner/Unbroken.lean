/-
# Where line breaks are passed

While a line list is open, and wherever the scanner waits for something of its own, it
passes no line break between tokens (`Step.placed`): a line break is part of the text of a
command (`Step.command_placed`), or it ends the line, and markers stand there
(`LineEnded`).  Tokens stand in the order in which they are read, and the text of a command
reaches no further than to the markers that are owed for its line (`Reads.offset_le`,
`Reads.command_le`).

Together these say what the end of a line has to do with the markers for it.  Line lists
are closed by markers, and a marker carries no more than a position.  To know which line
break it stands for, one has to know that no other one lies between the colon and that
place; so every step is asked how far it has gone without passing a line break, and how
far with one.

The module has four parts.  The first says where a scanner has come to when it has gone on,
and that a stretch of blanks has no line break in it.  The second places a token that is
written: it stands at an offset, it has been passed, and before it no line break has been
passed if the scanner minds them.  The third says the same of the places where lines end,
which are those of the markers.  The last one puts these together along a reading: whatever
is read later stands no earlier, and behind the text of a command it stands behind all of
it.

That a scanner minds line breaks has two reasons, and both occur in one condition: a line
list is open, so that a line break would be a token, or nothing is skipped at all.  After a
colon, a sigil or closing braces only blanks are skipped whatever is open, so what follows
one of these is on the same line.
-/

import RcScript.Proofs.Scanner.Written
import RcScript.Proofs.Scanner.Located
import RcScript.Proofs.Scanner.Onward

namespace RcScript

/-- The characters of a text from one offset up to another are no line breaks. -/
def Unbroken (text : List Char) (i j : Nat) : Prop :=
  ∀ k, i ≤ k → k < j → text[k]? ≠ some '\n'

/-- A line of a text ends at `m`, and what comes after it begins at `b`. -/
def LineBreak (text : List Char) (m b : Nat) : Prop :=
  text[m]? = some '\n' ∧ b = m + 1 ∨ m = text.length ∧ b = m

section
variable {text run : List Char} {i j k m b : Nat}

/-- Nothing has no line breaks. -/
theorem unbroken_refl (text : List Char) (i : Nat) : Unbroken text i i := fun _ hi hj =>
  absurd hj (Nat.not_lt_of_le hi)

/-- Two stretches without line breaks that follow one another are one. -/
theorem Unbroken.trans (h₁ : Unbroken text i j) (h₂ : Unbroken text j k) : Unbroken text i k := by
  intro n hi hk
  rcases Nat.lt_or_ge n j with hn | hn
  · exact h₁ n hi hn
  · exact h₂ n hn hk

/-- A text without line breaks that stands there is a stretch without them. -/
theorem unbroken_of_prefix (hp : run <+: text.drop i) (hn : '\n' ∉ run) :
    Unbroken text i (i + run.length) := by
  intro k hi hk hbreak
  obtain ⟨n, rfl⟩ := Nat.exists_eq_add_of_le hi
  have hlt : n < run.length := by omega
  have hget : (text.drop i)[n]? = run[n]? := by
    obtain ⟨tail, htail⟩ := hp
    rw [← htail, List.getElem?_append_left hlt]
  rw [List.getElem?_drop, hbreak] at hget
  exact hn (List.mem_of_getElem? hget.symm)

/-- Where a line break is passed a line ends. -/
theorem LineBreak.endsLine (h : LineBreak text m b) : EndsLine text m := by
  rcases h with ⟨h, -⟩ | ⟨h, -⟩
  · exact .inr h
  · exact .inl h

/-- A line begins no earlier than the one before it has ended. -/
theorem LineBreak.le (h : LineBreak text m b) : m ≤ b := by
  rcases h with ⟨-, rfl⟩ | ⟨-, rfl⟩ <;> omega

end

namespace Cursor

/-- No more is passed than is left. -/
theorem forward_eq_of_le {n : Nat} {c : Cursor} (h : c.rest.length ≤ n) :
    c.forward n = c.forward c.rest.length := by
  have hext : ∀ d e : Cursor, d.past = e.past → d.rest = e.rest → d.position = e.position →
      d = e := by
    rintro ⟨past, rest, position⟩ ⟨_, _, _⟩ rfl rfl rfl
    rfl
  apply hext
  · rw [past_forward, past_forward, List.take_of_length_le h, List.take_length]
  · rw [rest_forward, rest_forward, List.drop_of_length_le h, List.drop_length]
  · rw [position_forward, position_forward, List.take_of_length_le h, List.take_length]

end Cursor

namespace Scanner

variable {text run : List Char} {s t v : Scanner} {token : Token} {after : Scanner}
  {begins : Bool} {a b i j k m : Nat} {xs : List Terminal}

/-! ### Going on -/

/-- What is further on stands at a later offset. -/
theorem Onward.located (h : Onward s t) (hs : Located text a s) :
    ∃ b, a ≤ b ∧ Located text b t := by
  obtain ⟨-, k, hk⟩ := h
  rw [hs.cursor, Cursor.forward_forward] at hk
  rcases Nat.le_total (a + k) text.length with hle | hle
  · exact ⟨a + k, Nat.le_add_right a k, hle, hk⟩
  · exact ⟨text.length, hs.bound, Nat.le_refl _, hk.trans (Cursor.forward_eq_of_le hle)⟩

/-- Where some terminals have been read the scanner stands at a later offset. -/
theorem Reads.located (hr : Reads s xs t) (hs : Located text a s) :
    ∃ b, a ≤ b ∧ Located text b t := hr.onward.located hs

/-- What is skipped holds a line break only if line breaks are. -/
theorem Located.skipWhile_unbroken (h : Located text a s) (p : Char → Bool) :
    ∃ i, a ≤ i ∧ (p '\n' = false → Unbroken text a i) ∧ Located text i (s.skipWhile p) := by
  have hprefix : s.rest.takeWhile p <+: s.rest := List.takeWhile_prefix p
  refine ⟨a + (s.rest.takeWhile p).length, Nat.le_add_right .., fun hp => ?_,
    h.forward hprefix rfl⟩
  refine unbroken_of_prefix (h.rest_eq ▸ hprefix) fun hn => ?_
  have hall := List.all_eq_true.1 List.all_takeWhile _ hn
  rw [hp] at hall
  cases hall

/-- No line break is among the blanks that are skipped. -/
theorem Located.skipBlanks_unbroken (h : Located text a s) :
    ∃ i, a ≤ i ∧ Unbroken text a i ∧ Located text i s.skipBlanks := by
  obtain ⟨i, hle, hu, hi⟩ := h.skipWhile_unbroken Text.isBlank
  exact ⟨i, hle, hu (by decide), hi⟩

/-- A scanner stands at one offset. -/
theorem Located.unique (h : Located text i s) (h' : Located text j s) : i = j :=
  Option.some.inj (h.offset?_position.symm.trans h'.offset?_position)

/-- No line break is skipped while a line list is open, nor where nothing is. -/
theorem Located.skip_unbroken (h : Located text a s) :
    ∃ i, a ≤ i ∧ (s.lineLists ≠ 0 ∨ s.skip = s → Unbroken text a i) ∧ Located text i s.skip := by
  obtain ⟨i, hle, hu, hi⟩ :=
    h.skipWhile_unbroken (if s.lineLists = 0 then Text.isSpace else Text.isBlank)
  refine ⟨i, hle, fun hl => ?_, hi⟩
  rcases hl with hl | hl
  · refine hu ?_
    rw [if_neg hl]
    decide
  · have hskip : Located text i s.skip := hi
    rw [hl] at hskip
    rw [hskip.unique h]
    exact unbroken_refl text a

/-- The end of a line is passed with its line break. -/
theorem Located.endLine_lineBreak (h : Located text m s)
    (hr : s.rest = [] ∨ ∃ cs, s.rest = '\n' :: cs) (extra : Int) :
    ∃ b, LineBreak text m b ∧ Located text b (s.endLine extra) := by
  rcases hr with hr | ⟨cs, hr⟩
  · have hm : m = text.length := by
      rw [h.rest_eq, List.drop_eq_nil_iff] at hr
      exact Nat.le_antisymm h.bound hr
    have hc : (s.endLine extra).cursor = s.cursor.forward ([] : List Char).length := by
      simp [Scanner.endLine, hr]
    exact ⟨m, .inr ⟨hm, rfl⟩, h.forward List.nil_prefix hc⟩
  · have hc : (s.endLine extra).cursor = s.cursor.forward ['\n'].length := by
      simp [Scanner.endLine, hr, Text.lineBreak]
    have hp : ['\n'] <+: s.rest := ⟨cs, hr.symm⟩
    refine ⟨m + 1, .inl ⟨?_, rfl⟩, h.forward hp hc⟩
    rw [h.rest_eq] at hr
    rw [← List.head?_drop, hr]
    rfl

/-! ### What a step passes -/

/-- A token that is written stands at `i`, is passed, and no line break is in it, nor before
it if the scanner minds them. -/
structure Placed (text : List Char) (a : Nat) (minds : Prop) (i : Nat) (token : Token)
    (after : Scanner) : Prop where
  le : a ≤ i
  blanks : minds → Unbroken text a i
  place : token.position.offset? text = some i
  unbroken : Unbroken text i (i + token.text.toList.length)
  located : Located text (i + token.text.toList.length) after

/-- A text that is passed where it stands places its token. -/
theorem placed_of_prefix {minds : Prop} (hv : Located text i v) (hle : a ≤ i)
    (hblanks : minds → Unbroken text a i) (hp : token.position = v.position)
    (ht : token.text = String.ofList run) (hs : run <+: v.rest) (hn : '\n' ∉ run)
    (hc : after.cursor = v.cursor.forward run.length) :
    Placed text a minds i token after := by
  have hrun : token.text.toList = run := by rw [ht, String.toList_ofList]
  refine ⟨hle, hblanks, hp ▸ hv.offset?_position, ?_, hrun ▸ hv.forward hs hc⟩
  rw [hrun]
  exact unbroken_of_prefix (hv.rest_eq ▸ hs) hn

/-- A token that is written and read is placed. -/
theorem TokenRead.placed (read : TokenRead begins s token after) (hk : token.isWritten = true)
    (hs : Located text a s) : ∃ i, Placed text a (s.lineLists ≠ 0 ∨ s.skip = s) i token after := by
  obtain ⟨i, hle, hu, hv⟩ := hs.skip_unbroken
  refine ⟨i, ?_⟩
  cases read with
  | finish | lineEnd => cases hk
  | separator rest => exact placed_of_prefix hv hle hu rfl rfl ⟨_, rest.symm⟩ (by decide) rfl
  | openBraces rest => exact placed_of_prefix hv hle hu rfl rfl ⟨_, rest.symm⟩ (by decide) rfl
  | closeBraces rest =>
    rw [closeBraces_eq]
    exact placed_of_prefix hv hle hu rfl rfl ⟨_, rest.symm⟩ (by decide) rfl
  | colon rest head => exact placed_of_prefix hv hle hu rfl rfl ⟨_, rest.symm⟩ (by decide) rfl
  | @sigil g cs rest head =>
    have hn : '\n' ∉ [g.char] := by cases g <;> decide
    exact placed_of_prefix hv hle hu rfl rfl ⟨_, rest.symm⟩ hn rfl
  | word rest opens closes space separator head =>
    have hw : Lexeme.word s.skip.rest <+: s.skip.rest := ⟨_, Lexeme.word_append_drop s.skip.rest⟩
    have hn : '\n' ∉ Lexeme.word s.skip.rest := fun hn =>
      absurd (Lexeme.not_stop_of_mem_word hn).1 (by decide)
    exact placed_of_prefix hv hle hu rfl rfl hw hn rfl

/-- Holding a token leaves it where it is placed. -/
theorem Placed.hold {minds : Prop} (h : Placed text a minds i token after) :
    Placed text a minds i token (after.hold token) :=
  { h with located := ⟨h.located.bound, h.located.cursor⟩ }

/-- What is placed after blanks is placed where these begin. -/
theorem Placed.before {minds minds' : Prop} (h : Placed text b minds i token after) (hle : a ≤ b)
    (hu : Unbroken text a b) (hm : minds' → minds) : Placed text a minds' i token after :=
  { h with
    le := Nat.le_trans hle h.le
    blanks := fun hm' => hu.trans (h.blanks (hm hm')) }

/-- What does not begin with a space stays when spaces are skipped. -/
theorem skip_eq_self {c : Char} {cs : List Char} (hr : s.rest = c :: cs)
    (hc : Text.isSpace c = false) : s.skip = s := by
  have hp : (if s.lineLists = 0 then Text.isSpace else Text.isBlank) c = false := by
    split
    · exact hc
    · exact Text.isBlank_of_isSpace hc
  have hcursor : s.cursor.rest = c :: cs := hr
  rw [Scanner.skip, Scanner.skipWhile, Cursor.skipWhile, hcursor,
    List.takeWhile_cons_of_neg (by simp [hp])]
  rfl

/-- **A token that is written is passed without a line break before it**, while a line list
is open or the scanner waits for something of its own. -/
theorem Step.placed (step : Step s t) (hw : t.token.isWritten = true)
    (hc : t.token.kind ≠ .command) (hs : Located text a s) :
    ∃ i, Placed text a (s.mode = .normal → s.lineLists ≠ 0) i t.token t := by
  have hresume : Located text a s.resume := ⟨hs.bound, hs.cursor⟩
  obtain ⟨b, hle, hu, hb⟩ := hresume.skipBlanks_unbroken
  cases step with
  | owed | lineEnd | noCommand | openCommand | openBlock | stray => cases hw
  | token owed mode read =>
    obtain ⟨i, hi⟩ := read.placed hw hresume
    exact ⟨i, (hi.before (Nat.le_refl a) (unbroken_refl text a) fun h => .inl (h mode)).hold⟩
  | bracedList owed mode rest =>
    exact ⟨b, placed_of_prefix hb hle (fun _ => hu) rfl rfl ⟨_, rest.symm⟩ (by decide) rfl⟩
  | lineList owed mode rest read =>
    obtain ⟨i, hi⟩ := read.placed hw ⟨hb.bound, hb.cursor⟩
    exact ⟨i, (hi.before hle hu fun _ => .inl (Nat.succ_ne_zero _)).hold⟩
  | block owed mode rest =>
    exact ⟨b, placed_of_prefix hb hle (fun _ => hu) rfl rfl ⟨_, rest.symm⟩ (by decide) rfl⟩
  | terminator owed mode rest read =>
    obtain ⟨i, hi⟩ := read.placed hw hb
    have hskip : s.resume.skipBlanks.skip = s.resume.skipBlanks := skip_eq_self rest (by decide)
    exact ⟨i, (hi.before hle hu fun _ => .inr hskip).hold⟩
  | command | blockText => exact absurd rfl hc

/-! ### Where lines end -/

/-- The last line that has ended did so at `m`: the markers for it stand there, and nothing
behind its line break has been passed. -/
structure LineEnded (text : List Char) (m : Nat) (s : Scanner) : Prop where
  marker : s.marker.offset? text = some m
  passed : ∃ b, LineBreak text m b ∧ Located text b s

/-- The line that has just ended ended where the scanner stood. -/
theorem Located.takeLineEnd (h : Located text m s)
    (hr : s.rest = [] ∨ ∃ cs, s.rest = '\n' :: cs) (extra : Int) (token : Token) :
    LineEnded text m ((s.takeLineEnd extra).2.hold token) := by
  obtain ⟨b, hbreak, hb⟩ := h.endLine_lineBreak hr extra
  exact ⟨h.offset?_position, b, hbreak, hb.bound, hb.cursor⟩

/-- The text of a command on a line ends before its line does, with carriage returns
between. -/
theorem Located.commandLine (h : Located text i v)
    (found : Lexeme.commandText v.rest = some run) (token : Token) :
    ∃ m, i + (Lexeme.trimReturns run).length ≤ m ∧
      Unbroken text (i + (Lexeme.trimReturns run).length) m ∧
      LineEnded text m (((v.forward run.length).endLine 1).hold token) := by
  have hrun : run <+: v.rest := ⟨_, Lexeme.commandText_append_drop found⟩
  have hm : Located text (i + run.length) (v.forward run.length) := h.forward hrun rfl
  obtain ⟨b, hbreak, hb⟩ := hm.endLine_lineBreak (rest_of_commandText found) 1
  have hline : LineEnded text (i + run.length) (((v.forward run.length).endLine 1).hold token) :=
    ⟨hm.offset?_position, b, hbreak, hb.bound, hb.cursor⟩
  obtain ⟨n, hn⟩ := Lexeme.exists_append_trimReturns run
  have hlength := congrArg List.length hn
  rw [List.length_append, List.length_replicate] at hlength
  refine ⟨_, by omega, ?_, hline⟩
  have hreturns : List.replicate n '\r' <+: text.drop (i + (Lexeme.trimReturns run).length) := by
    have hparts : Lexeme.trimReturns run ++ List.replicate n '\r' <+: text.drop i := by
      rw [← hn, ← h.rest_eq]
      exact hrun
    obtain ⟨tail, htail⟩ := hparts
    rw [← List.drop_drop, ← htail, List.append_assoc, List.drop_left]
    exact List.prefix_append _ _
  have hu := unbroken_of_prefix hreturns fun hc => absurd (List.eq_of_mem_replicate hc) (by decide)
  rwa [List.length_replicate, Nat.add_assoc, ← hlength] at hu

/-- No command text is read as any token. -/
theorem TokenRead.kind_ne_command (read : TokenRead begins s token after) :
    token.kind ≠ .command := by
  cases read <;> nofun

/-- **The text of a command** stands behind blanks, and it is passed: on a line together with
the end of the line, and in a block alone. -/
theorem Step.command_placed (step : Step s t) (hk : t.token.kind = .command)
    (hs : Located text a s) :
    ∃ i, a ≤ i ∧ Unbroken text a i ∧ t.token.position.offset? text = some i ∧
      (s.mode = .sigil ∧ (∃ m, i + t.token.text.toList.length ≤ m ∧
          Unbroken text (i + t.token.text.toList.length) m ∧ LineEnded text m t) ∨
        s.mode = .block ∧ t.owed = 0 ∧ Located text (i + t.token.text.toList.length) t) := by
  have hresume : Located text a s.resume := ⟨hs.bound, hs.cursor⟩
  cases step with
  | command owed mode rest opens space found =>
    obtain ⟨i, hle, hu, hi⟩ := hresume.skipBlanks_unbroken
    rw [token_hold, String.toList_ofList]
    exact ⟨i, hle, hu, hi.offset?_position, .inl ⟨mode, hi.commandLine found _⟩⟩
  | blockText owed mode found =>
    rw [token_hold, String.toList_ofList]
    exact ⟨a, Nat.le_refl a, unbroken_refl text a, hresume.offset?_position,
      .inr ⟨mode, owed, hresume.forward ⟨_, Lexeme.blockText_append_drop found⟩ rfl⟩⟩
  | token owed mode read => exact absurd hk read.kind_ne_command
  | lineList owed mode rest read => exact absurd hk read.kind_ne_command
  | terminator owed mode rest read => exact absurd hk read.kind_ne_command
  | _ => cases hk

section
variable {owed : Int} {lists : Nat} {saved : List Nat}

/-- **A marker that is owed** is for the line that has ended last. -/
theorem Poised.owed_placed (h : Poised .normal owed lists saved s) (ho : owed ≠ 0)
    (text : List Char) :
    s.look.token = Token.newlineAt s.marker ∧ s.look.marker = s.marker ∧
      ∀ m, LineEnded text m s → LineEnded text m s.look := by
  rw [(Step.owed (h.owed.symm ▸ ho)).eq_look h.live]
  refine ⟨rfl, rfl, fun m hs => ?_⟩
  obtain ⟨b, hbreak, hb⟩ := hs.passed
  exact ⟨hs.marker, b, hbreak, hb.bound, hb.cursor⟩

/-- **A marker that is not owed** stands where the line ends. -/
theorem Poised.newline_placed (h : Poised .normal 0 lists saved s)
    (hn : s.look.token.isNewline = true) (hs : Located text a s) :
    s.look.token.position = s.look.marker ∧
      ∃ m, a ≤ m ∧ Unbroken text a m ∧ LineEnded text m s.look := by
  rcases h.look_cases with ⟨ho, -⟩ | ⟨-, token, after, read, hlook⟩
  · exact absurd rfl ho
  · have hresume : Located text a s.resume := ⟨hs.bound, hs.cursor⟩
    obtain ⟨i, hle, hu, hi⟩ := hresume.skip_unbroken
    rw [hlook] at hn ⊢
    cases read with
    | lineEnd rest open_lists =>
      exact ⟨rfl, i, hle, hu (.inl open_lists), hi.takeLineEnd rest 0 _⟩
    | _ => cases hn

/-- A marker behind closing braces stands where the line ends. -/
theorem Poised.lineEnd_placed (h : Poised .terminator 0 lists saved s)
    (hn : s.look.token.isNewline = true) (hs : Located text a s) :
    s.look.token.position = s.look.marker ∧
      ∃ m, a ≤ m ∧ Unbroken text a m ∧ LineEnded text m s.look := by
  have hm := h.mode
  have hresume : Located text a s.resume := ⟨hs.bound, hs.cursor⟩
  obtain ⟨i, hle, hu, hi⟩ := hresume.skipBlanks_unbroken
  generalize hlook : s.look = t at hn
  have step := hlook ▸ step_look h.live
  cases step with
  | owed owed => exact absurd h.owed owed
  | lineEnd owed mode rest => exact ⟨rfl, i, hle, hu, hi.takeLineEnd rest 1 _⟩
  | terminator owed mode rest read =>
    obtain ⟨rfl, rfl⟩ := read.unique (.separator (rest_skip rest (by decide)))
    cases hn
  | stray => cases hn
  | _ _ mode => cases hm.symm.trans mode

end

/-! ### What has been passed -/

/-- The line that has ended last is in the text. -/
theorem LineEnded.le_length (h : LineEnded text m s) : m ≤ text.length := by
  obtain ⟨b, hbreak, hb⟩ := h.passed
  exact Nat.le_trans hbreak.le hb.bound

/-- A token that is written lies behind what has been passed before it, and in the text. -/
theorem Step.written_placed (step : Step s t) (hw : t.token.isWritten = true)
    (hs : Located text a s) :
    ∃ i, a ≤ i ∧ t.token.position.offset? text = some i ∧
      i + t.token.text.toList.length ≤ text.length := by
  by_cases hc : t.token.kind = .command
  · obtain ⟨i, hle, -, hi, ⟨-, m, hm, -, hend⟩ | ⟨-, -, ht⟩⟩ := step.command_placed hc hs
    · exact ⟨i, hle, hi, Nat.le_trans hm hend.le_length⟩
    · exact ⟨i, hle, hi, ht.bound⟩
  · obtain ⟨i, hi⟩ := step.placed hw hc hs
    exact ⟨i, hi.le, hi.place, hi.located.bound⟩

/-- The text of a command reaches no further than to the markers that are owed for its line,
and to all that is read later. -/
theorem Step.tracks_command {stop last : Nat} (step : Step s t) (hk : t.token.kind = .command)
    (hs : Tracks text stop last s) :
    ∃ i, t.token.position.offset? text = some i ∧
      Tracks text (i + t.token.text.toList.length) (i + t.token.text.toList.length) t := by
  obtain ⟨k, hlocated, -⟩ := hs.place
  obtain ⟨i, -, -, hi, hafter⟩ := step.command_placed hk hlocated
  cases step.puts hs with
  | @written start _ place gap slice later tracks =>
    obtain rfl : start = i := Option.some.inj (place.symm.trans hi)
    obtain ⟨k, hk, hgap, -, hmarker⟩ := tracks.place
    refine ⟨start, place, k, hk, hgap, hgap.1, fun ho => ?_⟩
    rcases hafter with ⟨-, m, hm, -, hend⟩ | ⟨-, ho', -⟩
    · obtain ⟨m', -, hle, hline, hm'⟩ := hmarker ho
      obtain rfl : m' = m := Option.some.inj (hm'.symm.trans hend.marker)
      exact ⟨m', hm, hle, hline, hm'⟩
    · exact absurd ho' ho
  | newline kind => simp [Token.isNewline, hk] at kind
  | finish kind => rw [hk] at kind; cases kind

section
variable {stop last : Nat}

/-- Before the end of input a scanner goes on. -/
theorem live_look (hd : s.done = false) (hk : s.look.token.kind ≠ .endOfInput) :
    s.look.done = false := by
  rw [← Bool.not_eq_true, done_look_iff hd]
  exact hk

/-- Terminals other than the end of input leave a scanner that goes on. -/
theorem Reads.live (hr : Reads s xs t) (hd : s.done = false)
    (hx : ∀ x ∈ xs, x.kind ≠ .endOfInput) : t.done = false := by
  induction xs generalizing s with
  | nil => exact hr ▸ hd
  | cons x xs ih =>
    obtain ⟨hx, hxs⟩ := List.forall_mem_cons.1 hx
    obtain ⟨⟨hk, -⟩, -, hr⟩ := hr
    exact ih hr (live_look hd (hk ▸ hx)) hxs

/-- How far tokens reach is tracked along a reading. -/
theorem Reads.tracks (hr : Reads s xs t) (hs : Tracks text stop last s) (hd : s.done = false)
    (hx : ∀ x ∈ xs, x.kind ≠ .endOfInput) :
    ∃ stop' last', last ≤ last' ∧ Tracks text stop' last' t := by
  induction xs generalizing s stop last with
  | nil => exact ⟨stop, last, Nat.le_refl last, hr ▸ hs⟩
  | cons x xs ih =>
    obtain ⟨hx, hxs⟩ := List.forall_mem_cons.1 hx
    obtain ⟨⟨hk, -⟩, -, hr⟩ := hr
    have hk' : s.look.token.kind ≠ .endOfInput := hk ▸ hx
    cases (step_look hd).puts hs with
    | written _ _ _ _ later tracks | newline _ _ later _ tracks =>
      obtain ⟨stop', last', hle, ht⟩ := ih hr (tracks.ask _) (live_look hd hk') hxs
      exact ⟨stop', last', Nat.le_trans later hle, ht⟩
    | finish kind => exact absurd kind hk'

/-- Nothing that is read later stands before what has been passed. -/
theorem Reads.le_position (hr : Reads s xs t) (hs : Tracks text stop last s)
    (hd : s.done = false) (hx : ∀ x ∈ xs, x.kind ≠ .endOfInput)
    (hp : t.look.token.position.offset? text = some i) : last ≤ i := by
  obtain ⟨stop', last', hle, ht⟩ := hr.tracks hs hd hx
  cases (step_look (hr.live hd hx)).puts ht with
  | written _ place _ _ later | newline _ place later | finish _ place later =>
    rw [place] at hp
    exact Nat.le_trans hle (Option.some.inj hp ▸ later)

variable {x : Terminal} (hr : Reads s (x :: xs) t) (hs : Tracks text stop last s)
  (hd : s.done = false) (hx : ∀ y ∈ x :: xs, y.kind ≠ .endOfInput)
  (hi : s.look.token.position.offset? text = some i)
  (hj : t.look.token.position.offset? text = some j)
include hr hs hd hx hi hj

/-- Tokens stand in the order in which they are read. -/
theorem Reads.offset_le : i ≤ j := by
  obtain ⟨hx, hxs⟩ := List.forall_mem_cons.1 hx
  obtain ⟨⟨hk, -⟩, -, hr⟩ := hr
  have hk' : s.look.token.kind ≠ .endOfInput := hk ▸ hx
  cases (step_look hd).puts hs with
  | written _ place _ _ _ tracks | newline _ place _ _ tracks =>
    obtain rfl := Option.some.inj (place.symm.trans hi)
    exact hr.le_position (tracks.ask _) (live_look hd hk') hxs hj
  | finish kind => exact absurd kind hk'

/-- A token behind the text of a command stands behind all of it. -/
theorem Reads.command_le (hk : x.kind = .command) : i + x.text.toList.length ≤ j := by
  obtain ⟨hx, hxs⟩ := List.forall_mem_cons.1 hx
  obtain ⟨⟨hk', ht⟩, -, hr⟩ := hr
  obtain ⟨i', hi', tracks⟩ := (step_look hd).tracks_command (hk'.trans hk) hs
  obtain rfl := Option.some.inj (hi'.symm.trans hi)
  rw [ht] at tracks
  exact hr.le_position (tracks.ask _) (live_look hd (hk' ▸ hx)) hxs hj

end

end Scanner
end RcScript
