/-
# Where tokens stand

A scanner stands at an offset of its script (`Scanner.Located`), and all that it
passes besides the texts of its tokens are spaces (`Gap`).  It `Tracks` how far these
texts reach and where the last token stood: a step puts its token no earlier than
that, with its text where its position says, or its marker where a line ends
(`Scanner.Step.puts`).

Two offsets are tracked because markers have no text.  The texts of the tokens before a
step reach up to `stop`, and the last token, which may be a marker, stands at `last`; a
marker is owed for a line that has ended, so it may stand before the place that the
scanner has come to.  What a step puts is told from these two, and in the next module the
steps of a run are put together.

`Located` is the lowest layer.  A scanner is at an offset when its cursor is there, and
what is left and the position both follow from it, so that later statements can speak of a
place in whichever of the three ways they need.  Passing a text moves the offset by its
length; skipping leaves a `Gap`; the end of a line moves it past the line break, if there
is one.

`Puts` has a case for each kind of token that a step can show.  A written token lies at a
place behind the texts before it, with a gap between; a marker lies at the end of a line,
no earlier than the token before it; the end of input lies where the scan has stopped,
behind a gap or at a fault.  Each case also says what is tracked from there, so the
induction over a run has nothing to prove but to take the cases apart.
-/

import RcScript.Proofs.Scanner.Listing
import RcScript.Proofs.Scanner.Offset
import RcScript.Proofs.Scanner.Poised

namespace RcScript

/-- Whether a token is written in the script, and is not a marker or the end. -/
def Token.isWritten (token : Token) : Bool := token.kind ≠ .endOfInput && !token.isNewline

/-- The characters of a text from one offset up to another are spaces. -/
def Gap (text : List Char) (i j : Nat) : Prop :=
  i ≤ j ∧ ∀ c ∈ (text.drop i).take (j - i), Text.isSpace c = true

/-- A line of a text ends at an offset: with a line break, or with the text. -/
def EndsLine (text : List Char) (k : Nat) : Prop := k = text.length ∨ text[k]? = some '\n'

section
variable {text : List Char} {i j k : Nat}

/-- Nothing is a gap. -/
theorem gap_refl (text : List Char) (k : Nat) : Gap text k k :=
  ⟨Nat.le_refl k, by simp⟩

/-- Gaps that follow one another are one. -/
theorem Gap.trans (h₁ : Gap text i j) (h₂ : Gap text j k) : Gap text i k := by
  obtain ⟨hij, h₁⟩ := h₁
  obtain ⟨hjk, h₂⟩ := h₂
  refine ⟨Nat.le_trans hij hjk, fun c hc => ?_⟩
  have hlen : k - i = (j - i) + (k - j) := by omega
  rw [hlen, List.take_add, List.drop_drop, Nat.add_sub_cancel' hij, List.mem_append] at hc
  exact hc.elim (h₁ c) (h₂ c)

/-- A text of spaces leaves a gap. -/
theorem gap_of_prefix {run : List Char} (hp : run <+: text.drop k)
    (hs : ∀ c ∈ run, Text.isSpace c = true) : Gap text k (k + run.length) := by
  refine ⟨Nat.le_add_right .., ?_⟩
  rwa [Nat.add_sub_cancel_left, ← List.prefix_iff_eq_take.1 hp]

/-- Spaces after a text leave a gap behind it. -/
theorem gap_of_append {run spaces : List Char} (hp : run ++ spaces <+: text.drop k)
    (hs : ∀ c ∈ spaces, Text.isSpace c = true) :
    Gap text (k + run.length) (k + (run ++ spaces).length) := by
  have hdrop : spaces <+: text.drop (k + run.length) := by
    obtain ⟨tail, htail⟩ := hp
    rw [← List.drop_drop, ← htail, List.append_assoc, List.drop_left]
    exact List.prefix_append _ _
  have hgap := gap_of_prefix hdrop hs
  rwa [Nat.add_assoc, ← List.length_append] at hgap

/-- A line ends where nothing follows, or a line break. -/
theorem endsLine_iff (hk : k ≤ text.length) :
    EndsLine text k ↔ text.drop k = [] ∨ ∃ cs, text.drop k = '\n' :: cs := by
  rw [EndsLine, List.drop_eq_nil_iff, ← List.head?_drop, List.head?_eq_some_iff]
  refine or_congr_left ⟨fun h => Nat.le_of_eq h.symm, fun h => Nat.le_antisymm hk h⟩

end

namespace Scanner

variable {text : List Char} {s t u v : Scanner} {token : Token} {after : Scanner} {begins : Bool}
  {tokens : List Token} {stop last j k : Nat}

/-- A scanner stands at an offset of a text. -/
structure Located (text : List Char) (k : Nat) (s : Scanner) : Prop where
  bound : k ≤ text.length
  cursor : s.cursor = (Cursor.ofText text).forward k

/-- A scanner begins at the beginning. -/
theorem located_ofText (source filename : String) :
    Located source.toList 0 (ofText source filename) := ⟨Nat.zero_le _, rfl⟩

section
variable (h : Located text k s)
include h

/-- What is left to read comes after the offset. -/
theorem Located.rest_eq : s.rest = text.drop k := by
  rw [Scanner.rest, h.cursor, Cursor.rest_forward]
  rfl

/-- The position is where the text before the offset ends. -/
theorem Located.position_eq : s.position = Position.after (text.take k) := by
  rw [Scanner.position, h.cursor, Cursor.position_forward, ← Position.stepAll_start]
  rfl

/-- The position denotes the offset. -/
theorem Located.offset?_position : s.position.offset? text = some k :=
  Position.offset?_eq_some_iff.2 ⟨h.bound, h.position_eq.symm⟩

/-- A run of characters that is passed is left behind. -/
theorem Located.forward {run : List Char} (hp : run <+: s.rest)
    (hc : t.cursor = s.cursor.forward run.length) : Located text (k + run.length) t := by
  refine ⟨?_, by rw [hc, h.cursor, Cursor.forward_forward]⟩
  have hle := hp.length_le
  have hk := h.bound
  rw [h.rest_eq, List.length_drop] at hle
  omega

/-- Skipping spaces leaves a gap. -/
theorem Located.skipWhile {p : Char → Bool} (hp : ∀ c, p c = true → Text.isSpace c = true) :
    ∃ j, Gap text k j ∧ Located text j (s.skipWhile p) := by
  have hprefix : s.rest.takeWhile p <+: s.rest := List.takeWhile_prefix p
  refine ⟨k + (s.rest.takeWhile p).length, ?_, h.forward hprefix rfl⟩
  refine gap_of_prefix (h.rest_eq ▸ hprefix) fun c hc => hp c ?_
  exact List.all_eq_true.1 List.all_takeWhile c hc

/-- Skipping blanks leaves a gap. -/
theorem Located.skipBlanks : ∃ j, Gap text k j ∧ Located text j s.skipBlanks :=
  h.skipWhile fun c hc => (Text.isSpace_iff c).2 (.inl hc)

/-- Skipping what separates tokens leaves a gap. -/
theorem Located.skip : ∃ j, Gap text k j ∧ Located text j s.skip := by
  refine h.skipWhile fun c hc => ?_
  split at hc
  · exact hc
  · exact (Text.isSpace_iff c).2 (.inl hc)

/-- Where a line ends at most its line break is passed. -/
theorem Located.endLine (hr : s.rest = [] ∨ ∃ cs, s.rest = '\n' :: cs) (extra : Int) :
    EndsLine text k ∧ ∃ j, Gap text k j ∧ Located text j (s.endLine extra) := by
  refine ⟨(endsLine_iff h.bound).2 (h.rest_eq ▸ hr), ?_⟩
  rcases hr with hr | ⟨cs, hr⟩
  · have hc : (s.endLine extra).cursor = s.cursor.forward ([] : List Char).length := by
      simp [Scanner.endLine, hr]
    exact ⟨k, gap_refl text k, h.forward List.nil_prefix hc⟩
  · have hc : (s.endLine extra).cursor = s.cursor.forward ['\n'].length := by
      simp [Scanner.endLine, hr, Text.lineBreak]
    have hp : ['\n'] <+: s.rest := ⟨cs, hr.symm⟩
    refine ⟨k + 1, gap_of_prefix (h.rest_eq ▸ hp) ?_, h.forward hp hc⟩
    rw [List.forall_mem_singleton]
    rfl

end

/-- What is known of a scanner in a text when the texts of its tokens reach up to
`stop` and the last token stands at `last`: it has passed only spaces since, and a
marker that it owes stands where a line ends, after the last token. -/
structure Tracks (text : List Char) (stop last : Nat) (s : Scanner) : Prop where
  place : ∃ k, Located text k s ∧ Gap text stop k ∧ last ≤ k ∧
    (s.owed ≠ 0 → ∃ m, last ≤ m ∧ m ≤ k ∧ EndsLine text m ∧ s.marker.offset? text = some m)

/-- Nothing has been put at the beginning of a script. -/
theorem tracks_ofText (source filename : String) :
    Tracks source.toList 0 0 (ofText source filename) :=
  ⟨0, located_ofText source filename, gap_refl .., Nat.le_refl 0, fun h => absurd rfl h⟩

/-- Where a step puts its token, seen from where the tokens before it have been put. -/
inductive Puts (text : List Char) (stop last : Nat) (t : Scanner) : Prop
  | written {start : Nat} (kind : t.token.isWritten = true)
      (place : t.token.position.offset? text = some start) (gap : Gap text stop start)
      (slice : t.token.text.toList <+: text.drop start) (later : last ≤ start)
      (tracks : Tracks text (start + t.token.text.toList.length) start t)
  | newline {start : Nat} (kind : t.token.isNewline = true)
      (place : t.token.position.offset? text = some start) (later : last ≤ start)
      (line : EndsLine text start) (tracks : Tracks text stop start t)
  | finish {start : Nat} (kind : t.token.kind = .endOfInput)
      (place : t.token.position.offset? text = some start) (later : last ≤ start)
      (whole : t.fault = none → Gap text stop text.length)

/-- A text that is passed where it stands is the text of its token. -/
theorem puts_written {run : List Char} (hv : Located text j v) (hgap : Gap text stop j)
    (hlast : last ≤ j) (hk : t.token.isWritten = true) (hp : t.token.position = v.position)
    (ht : t.token.text = String.ofList run) (hs : run <+: v.rest)
    (hc : t.cursor = v.cursor.forward run.length) (ho : t.owed = 0) : Puts text stop last t := by
  have hrun : t.token.text.toList = run := by rw [ht, String.toList_ofList]
  have hloc : Located text (j + t.token.text.toList.length) t := hrun ▸ hv.forward hs hc
  refine .written hk (hp ▸ hv.offset?_position) hgap (hv.rest_eq ▸ hrun ▸ hs) hlast ?_
  exact ⟨_, hloc, gap_refl .., Nat.le_add_right .., fun h => absurd ho h⟩

/-- The end of a line puts its marker there. -/
theorem puts_takeLineEnd (hv : Located text j v) (hgap : Gap text stop j) (hlast : last ≤ j)
    (hr : v.rest = [] ∨ ∃ cs, v.rest = '\n' :: cs) (extra : Int) :
    Puts text stop last ((v.takeLineEnd extra).2.hold (Token.newlineAt v.position)) := by
  obtain ⟨hline, i, hi, hloc⟩ := hv.endLine hr extra
  have hplace : v.position.offset? text = some j := hv.offset?_position
  refine .newline rfl hplace hlast hline ⟨i, ⟨hloc.bound, hloc.cursor⟩, hgap.trans hi, hi.1, ?_⟩
  exact fun _ => ⟨j, Nat.le_refl j, hi.1, hline, hplace⟩

/-- A fault puts the end of input where it is met. -/
theorem puts_halt {fault : Fault} (hv : Located text j v) (hlast : last ≤ j)
    (hp : fault.position = v.position) (s : Scanner) : Puts text stop last (s.halt fault) := by
  have hplace : fault.position.offset? text = some j := hp ▸ hv.offset?_position
  exact .finish rfl hplace hlast fun h => absurd h (Option.some_ne_none _)

/-- **Reading a token puts it after what has been passed.** -/
theorem TokenRead.puts (read : TokenRead begins s token after) (hs : Located text k s)
    (hgap : Gap text stop k) (hlast : last ≤ k) (ho : s.owed = 0) :
    Puts text stop last (after.hold token) := by
  obtain ⟨j, hj, hv⟩ := hs.skip
  have hgap : Gap text stop j := hgap.trans hj
  have hlast : last ≤ j := Nat.le_trans hlast hj.1
  cases read with
  | finish rest lists =>
    refine .finish rfl hv.offset?_position hlast fun _ => ?_
    rw [hv.rest_eq, List.drop_eq_nil_iff] at rest
    rwa [← Nat.le_antisymm hv.bound rest]
  | lineEnd rest lists => exact puts_takeLineEnd hv hgap hlast rest 0
  | separator rest => exact puts_written hv hgap hlast rfl rfl rfl ⟨_, rest.symm⟩ rfl ho
  | openBraces rest => exact puts_written hv hgap hlast rfl rfl rfl ⟨_, rest.symm⟩ rfl ho
  | closeBraces rest =>
    rw [closeBraces_eq]
    exact puts_written hv hgap hlast rfl rfl rfl ⟨_, rest.symm⟩ rfl ho
  | colon rest head => exact puts_written hv hgap hlast rfl rfl rfl ⟨_, rest.symm⟩ rfl ho
  | sigil rest head => exact puts_written hv hgap hlast rfl rfl rfl ⟨_, rest.symm⟩ rfl ho
  | word rest opens closes space separator head =>
    have hw : Lexeme.word s.skip.rest <+: s.skip.rest := ⟨_, Lexeme.word_append_drop s.skip.rest⟩
    exact puts_written hv hgap hlast rfl rfl rfl hw rfl ho

/-- Behind the text of a command on a line the line ends. -/
theorem rest_of_commandText {run : List Char} (found : Lexeme.commandText v.rest = some run) :
    (v.forward run.length).rest = [] ∨ ∃ cs, (v.forward run.length).rest = '\n' :: cs := by
  obtain ⟨-, -, rest, hrest, hhead⟩ := Lexeme.of_commandText found
  rw [rest_forward, hrest, List.drop_left]
  cases rest with
  | nil => exact .inl rfl
  | cons c cs => exact .inr ⟨cs, by rw [hhead c rfl]⟩

/-- The text of a command on a line is put without the carriage returns after it,
and the marker that is owed for the line after both. -/
theorem puts_command {run : List Char} (hv : Located text j v) (hgap : Gap text stop j)
    (hlast : last ≤ j) (found : Lexeme.commandText v.rest = some run) :
    Puts text stop last (((v.forward run.length).endLine 1).hold
      ⟨.command, String.ofList (Lexeme.trimReturns run), v.position⟩) := by
  have hrun : run <+: v.rest := ⟨_, Lexeme.commandText_append_drop found⟩
  have hslice : Lexeme.trimReturns run <+: v.rest := (Lexeme.isPrefix_trimReturns run).trans hrun
  have hloc : Located text (j + run.length) (v.forward run.length) := hv.forward hrun rfl
  obtain ⟨hline, i, hi, hloc'⟩ := hloc.endLine (rest_of_commandText found) 1
  have hreturns : Gap text (j + (Lexeme.trimReturns run).length) (j + run.length) := by
    obtain ⟨n, hn⟩ := Lexeme.exists_append_trimReturns run
    have hspaces : ∀ c ∈ List.replicate n '\r', Text.isSpace c = true := fun c hc => by
      rw [List.eq_of_mem_replicate hc]
      rfl
    have hparts : Lexeme.trimReturns run ++ List.replicate n '\r' <+: text.drop j := by
      rw [← hn, ← hv.rest_eq]
      exact hrun
    have hgap := gap_of_append hparts hspaces
    rwa [← hn] at hgap
  have hlen : (String.ofList (Lexeme.trimReturns run)).toList.length =
      (Lexeme.trimReturns run).length := by rw [String.toList_ofList]
  refine .written rfl hv.offset?_position hgap ?_ hlast ⟨i, ⟨hloc'.bound, hloc'.cursor⟩, ?_, ?_, ?_⟩
  · rw [token_hold, String.toList_ofList, ← hv.rest_eq]
    exact hslice
  · rw [token_hold, hlen]
    exact hreturns.trans hi
  · exact Nat.le_trans (Nat.le_add_right ..) hi.1
  · exact fun _ => ⟨_, Nat.le_add_right .., hi.1, hline, hloc.offset?_position⟩

/-- **A step puts its token after the tokens before it**, with only spaces between
them. -/
theorem Step.puts (step : Step s t) (hs : Tracks text stop last s) : Puts text stop last t := by
  obtain ⟨k, hk, hgap, hlast, hmarker⟩ := hs.place
  have hr : Located text k s.resume := ⟨hk.bound, hk.cursor⟩
  obtain ⟨j, hj, hv⟩ := hr.skipBlanks
  have hgapj : Gap text stop j := hgap.trans hj
  have hlastj : last ≤ j := Nat.le_trans hlast hj.1
  cases step with
  | owed owed =>
    obtain ⟨m, hm, hmk, hline, hplace⟩ := hmarker owed
    have hk' : Located text k ({ s with owed := s.owed - 1, beginsStatement := true }.hold
        (Token.newlineAt s.marker)) := ⟨hk.bound, hk.cursor⟩
    exact .newline rfl hplace hm hline
      ⟨k, hk', hgap, hmk, fun _ => ⟨m, Nat.le_refl m, hmk, hline, hplace⟩⟩
  | token owed mode read => exact read.puts hr hgap hlast owed
  | bracedList owed mode rest =>
    exact puts_written hv hgapj hlastj rfl rfl rfl ⟨_, rest.symm⟩ rfl owed
  | lineList owed mode rest read =>
    exact read.puts ⟨hv.bound, hv.cursor⟩ hgapj hlastj owed
  | block owed mode rest =>
    exact puts_written hv hgapj hlastj rfl rfl rfl ⟨_, rest.symm⟩ rfl owed
  | noCommand => exact puts_halt hv hlastj rfl _
  | openCommand =>
    have hall : Located text (j + s.resume.skipBlanks.rest.length)
        (s.resume.skipBlanks.forward s.resume.skipBlanks.rest.length) :=
      hv.forward (List.prefix_refl _) rfl
    exact puts_halt hall (Nat.le_trans hlastj (Nat.le_add_right ..)) rfl _
  | command owed mode rest opens space found => exact puts_command hv hgapj hlastj found
  | openBlock => exact puts_halt hr hlast rfl _
  | blockText owed mode found =>
    have hp := Lexeme.blockText_append_drop found
    exact puts_written hr hgap hlast rfl rfl rfl ⟨_, hp⟩ rfl owed
  | terminator owed mode rest read => exact read.puts hv hgapj hlastj owed
  | lineEnd owed mode rest => exact puts_takeLineEnd hv hgapj hlastj rest 1
  | stray => exact puts_halt hv hlastj rfl _

/-- A request puts nothing. -/
theorem Tracks.ask (h : Tracks text stop last s) (begins : Bool) :
    Tracks text stop last (s.ask begins) := by
  obtain ⟨k, hk, hgap, hlast, hmarker⟩ := h.place
  exact ⟨k, ⟨hk.bound, hk.cursor⟩, hgap, hlast, hmarker⟩

/-- A token stands at an offset, whatever it is. -/
theorem Puts.exists_offset (h : Puts text stop last t) :
    ∃ k, t.token.position.offset? text = some k := by
  cases h with
  | written _ place | newline _ place | finish _ place => exact ⟨_, place⟩

/-- What has been tracked up to a token before the end is tracked from there. -/
theorem Puts.exists_tracks (h : Puts text stop last t) (hk : t.token.kind ≠ .endOfInput) :
    ∃ stop last, Tracks text stop last t := by
  cases h with
  | written _ _ _ _ _ tracks | newline _ _ _ _ tracks => exact ⟨_, _, tracks⟩
  | finish kind => exact absurd kind hk

/-- **Every look-ahead stands at an offset of the script**, whatever flags led to it. -/
theorem exists_offset_scans (source filename : String) (flags : List Bool) :
    ∃ k, ((start source filename).scans flags).token.position.offset? source.toList = some k := by
  obtain ⟨s, -, hd, ⟨stop, last, tracks⟩, hscans⟩ := exists_look_of_scans
    (P := fun s => ∃ stop last, Tracks source.toList stop last s)
    ⟨0, 0, tracks_ofText source filename⟩
    (fun _ begins ⟨stop, last, tracks⟩ => ⟨stop, last, tracks.ask begins⟩)
    (fun s _ hd ⟨_, _, tracks⟩ hlive =>
      ((step_look hd).puts tracks).exists_tracks fun hk => by
        simp [(done_look_iff hd).2 hk] at hlive) flags
  rw [hscans]
  exact ((step_look hd).puts tracks).exists_offset

end Scanner

end RcScript
