/-
# Scanning further down

Where a script stands does not matter to how it is read.  A scanner is `Below`
another one when it has the same left to read and the same state, some lines
further down; then each of its looks shows the same token at the lower place, or
meets the same fault there, and it stays below (`Below.look`, `Below.scan`).
What `down` moves is every place that a token, a cause or a fault names.

The state of a scanner is compared by `Level`, and what is left to read by equality, so
only the places are left to be moved.  Two of them matter.  The position of the cursor is
that of every token that is written; the marker is the place of the newline markers that
are owed, and it counts only as long as one is.  A step of the upper scanner determines the
step of the lower one because the cases of `Step` depend on the state and on the
characters, and on nothing else.

Only tokens, causes and faults have places in them, and each of these has its `down`: the
line is moved, the column stays.  A cause moves where it names a place of its own, as the
one for a command that is not ended does.  The names of files stay as they are, so a fault
below is the fault of the same file, some lines further down.
-/

import RcScript.Proofs.Scanner.Level

namespace RcScript

variable {n : Nat}

namespace Position

/-- The place some lines further down. -/
def down (n : Nat) (p : Position) : Position := ⟨p.line + n, p.column⟩

/-- A character moves a lower position as it moves the upper one. -/
theorem step_down (p : Position) (c : Char) : (p.down n).step c = (p.step c).down n := by
  simp only [step, down]
  split
  · exact congrArg (Position.mk · 1) (Int.add_right_comm ..)
  · rfl

/-- A text moves a lower position as it moves the upper one. -/
theorem stepAll_down (p : Position) (text : List Char) :
    (p.down n).stepAll text = (p.stepAll text).down n := by
  induction text generalizing p with
  | nil => rfl
  | cons c text ih =>
    calc (p.down n).stepAll (c :: text)
        = ((p.step c).down n).stepAll text := by rw [← step_down]; rfl
      _ = (p.stepAll (c :: text)).down n := ih (p.step c)

end Position

/-- A token some lines further down. -/
def Token.down (n : Nat) (t : Token) : Token := { t with position := t.position.down n }

/-- A cause some lines further down. -/
def Cause.down (n : Nat) : Cause → Cause
  | .unterminatedCommand start => .unterminatedCommand (start.down n)
  | .unterminatedBlock start => .unterminatedBlock (start.down n)
  | .expected what found => .expected what (found.down n)
  | .unexpected found => .unexpected (found.down n)
  | cause => cause

/-- A fault some lines further down: its category, its file and its column stay. -/
def Fault.down (n : Nat) (f : Fault) : Fault :=
  { f with cause := f.cause.down n, position := f.position.down n }

namespace Scanner

/-- A scanner that has the same to read as another one, some lines below it.  A
marker counts only while one is owed, and the look-ahead is left out. -/
structure Below (n : Nat) (s s' : Scanner) : Prop where
  level : Level s s'
  rest : s'.rest = s.rest
  position : s'.position = s.position.down n
  filename : s'.filename = s.filename
  marker : s.owed ≠ 0 → s'.marker = s.marker.down n
  fault : s'.fault = s.fault.map (Fault.down n)

variable {s s' t : Scanner}

section
variable (h : Below n s s')
include h

/-- The same request leaves the scanner below. -/
theorem Below.ask (begins : Bool) : Below n (s.ask begins) (s'.ask begins) :=
  { h with level := h.level.ask begins }

/-- Using up mode and request leaves the scanner below. -/
theorem Below.resume : Below n s.resume s'.resume := { h with level := h.level.resume }

/-- Taking the same mode leaves the scanner below. -/
theorem Below.setMode (mode : Mode) : Below n { s with mode := mode } { s' with mode := mode } :=
  { h with level := h.level.setMode mode }

/-- Being asked alike leaves the scanner below. -/
theorem Below.setBegins (begins : Bool) :
    Below n { s with beginsStatement := begins } { s' with beginsStatement := begins } :=
  { h with level := h.level.setBegins begins }

/-- Opening a line list leaves the scanner below. -/
theorem Below.openLine :
    Below n { s with lineLists := s.lineLists + 1 } { s' with lineLists := s'.lineLists + 1 } :=
  { h with level := h.level.openLine }

/-- Opening braces leaves the scanner below. -/
theorem Below.openBraces (ofList : Bool) : Below n (s.openBraces ofList) (s'.openBraces ofList) :=
  { h with level := h.level.openBraces ofList }

/-- Closing braces leaves the scanner below. -/
theorem Below.closeBraces : Below n s.closeBraces s'.closeBraces := by
  have hl := h.level.closeBraces
  rw [closeBraces_eq, closeBraces_eq] at hl ⊢
  exact { h with level := hl }

/-- Passing as many characters leaves the scanner below. -/
theorem Below.forward (k : Nat) : Below n (s.forward k) (s'.forward k) := by
  have hrest : s'.cursor.rest = s.cursor.rest := h.rest
  have hposition : s'.cursor.position = s.cursor.position.down n := h.position
  refine { h with level := { h.level with }, rest := ?_, position := ?_ }
  · rw [rest_forward, rest_forward, h.rest]
  · change (s'.cursor.forward k).position = (s.cursor.forward k).position.down n
    rw [Cursor.position_forward, Cursor.position_forward, hrest, hposition, Position.stepAll_down]

/-- Skipping alike leaves the scanner below. -/
theorem Below.skipWhile (p : Char → Bool) : Below n (s.skipWhile p) (s'.skipWhile p) := by
  have hf := h.forward (s.rest.takeWhile p).length
  have hs : s'.skipWhile p = s'.forward (s.rest.takeWhile p).length := by rw [← h.rest]; rfl
  rw [hs]
  exact hf

/-- Skipping blanks leaves the scanner below. -/
theorem Below.skipBlanks : Below n s.skipBlanks s'.skipBlanks := h.skipWhile _

/-- Skipping what separates tokens leaves the scanner below. -/
theorem Below.skip : Below n s.skip s'.skip := by
  rw [Scanner.skip, Scanner.skip, h.level.lists]
  exact h.skipWhile _

/-- The end of a line puts its marker further down as well. -/
theorem Below.endLine (extra : Int) : Below n (s.endLine extra) (s'.endLine extra) := by
  have hf := h.forward (if s.rest.head? = some Text.lineBreak then 1 else 0)
  have hcursor : (s'.endLine extra).cursor =
      s'.cursor.forward (if s.rest.head? = some Text.lineBreak then 1 else 0) := by
    rw [← h.rest]
    rfl
  exact { h with
    level := h.level.endLine extra
    rest := (congrArg Cursor.rest hcursor).trans hf.rest
    position := (congrArg Cursor.position hcursor).trans hf.position
    marker := fun _ => h.position }

/-- Paying a marker leaves the scanner below. -/
theorem Below.payOne (hm : s'.marker = s.marker.down n) :
    Below n { s with owed := s.owed - 1, beginsStatement := true }
      { s' with owed := s'.owed - 1, beginsStatement := true } :=
  { h with level := h.level.payOne, marker := fun _ => hm }

/-- Ending a line and paying its first marker leaves the scanner below. -/
theorem Below.takeLineEnd (extra : Int) :
    Below n (s.takeLineEnd extra).2 (s'.takeLineEnd extra).2 :=
  (h.endLine extra).payOne h.position

/-- Holding tokens of the same kind leaves the scanner below. -/
theorem Below.hold {token token' : Token} (hk : token'.kind = token.kind) :
    Below n (s.hold token) (s'.hold token') :=
  { h with level := h.level.hold hk }

/-- A fault is met further down as well. -/
theorem Below.halt {fault fault' : Fault} (hf : fault' = fault.down n) :
    Below n (s.halt fault) (s'.halt fault') :=
  { h with level := { h.level with done := rfl }, fault := congrArg some hf }

/-- What is faulted further down is the same fault there. -/
theorem Below.faultAt {cause cause' : Cause} {place place' : Position}
    (hc : cause' = cause.down n) (hp : place' = place.down n) :
    s'.faultAt cause' place' = (s.faultAt cause place).down n := by
  rw [Scanner.faultAt, h.filename, hc, hp]
  rfl

end

/-- Further down the same token is read. -/
theorem TokenRead.below {begins : Bool} {token : Token} {after : Scanner}
    (read : TokenRead begins s token after) (h : Below n s s') :
    ∃ token' after', TokenRead begins s' token' after' ∧ token' = token.down n ∧
      Below n after after' := by
  have hp := h.skip.position
  have hr := h.skip.rest
  cases read with
  | finish rest lists =>
    exact ⟨_, _, .finish (hr.trans rest) (h.level.lists.trans lists), congrArg Token.endAt hp,
      h.skip⟩
  | lineEnd rest lists =>
    exact ⟨_, _, .lineEnd (hr ▸ rest) (h.level.lists ▸ lists), congrArg Token.newlineAt hp,
      h.skip.takeLineEnd 0⟩
  | separator rest =>
    exact ⟨_, _, .separator (hr.trans rest), congrArg (Token.mk _ _) hp,
      (h.skip.forward 1).setBegins true⟩
  | openBraces rest =>
    exact ⟨_, _, .openBraces (hr.trans rest), congrArg (Token.mk _ _) hp,
      (h.skip.forward 2).openBraces false⟩
  | closeBraces rest =>
    exact ⟨_, _, .closeBraces (hr.trans rest), congrArg (Token.mk _ _) hp,
      ((h.skip.forward 2).setMode .terminator).closeBraces⟩
  | colon rest head =>
    exact ⟨_, _, .colon (hr.trans rest) head, congrArg (Token.mk _ _) hp,
      (h.skip.forward 1).setMode .colon⟩
  | sigil rest head =>
    exact ⟨_, _, .sigil (hr.trans rest) head, congrArg (Token.mk _ _) hp,
      (h.skip.forward 1).setMode .sigil⟩
  | word rest opens closes space separator head =>
    have read' := TokenRead.word (hr.trans rest) (hr ▸ opens) (hr ▸ closes) space separator head
    rw [hr] at read'
    exact ⟨_, _, read', congrArg (Token.mk _ _) hp, h.skip.forward _⟩

/-- **Further down a scanner takes the same step.** -/
theorem Step.below (step : Step s t) (h : Below n s s') :
    ∃ t', Step s' t' ∧ Below n t t' ∧ t'.token = t.token.down n := by
  have howed := h.level.owed
  have hmode := h.level.mode
  have hb := h.resume.skipBlanks
  have hr := hb.rest
  cases step with
  | owed owed =>
    refine ⟨_, .owed (h.level.owed ▸ owed), (h.payOne (h.marker owed)).hold rfl, ?_⟩
    exact congrArg Token.newlineAt (h.marker owed)
  | token owed mode read =>
    obtain ⟨token', after', read', rfl, h'⟩ := read.below h.resume
    rw [← h.level.begins] at read'
    exact ⟨_, .token (howed.trans owed) (hmode.trans mode) read', h'.hold rfl, rfl⟩
  | bracedList owed mode rest =>
    refine ⟨_, .bracedList (howed.trans owed) (hmode.trans mode) (hr.trans rest),
      (((hb.setBegins true).forward 2).openBraces true).hold rfl, ?_⟩
    exact congrArg (Token.mk _ _) hb.position
  | lineList owed mode rest read =>
    have hl : Below n { s.resume.skipBlanks with lineLists := s.lineLists + 1 }
        { s'.resume.skipBlanks with lineLists := s'.lineLists + 1 } := hb.openLine
    obtain ⟨token', after', read', rfl, h'⟩ := read.below hl
    exact ⟨_, .lineList (howed.trans owed) (hmode.trans mode) (hr ▸ rest) read',
      h'.hold rfl, rfl⟩
  | block owed mode rest =>
    refine ⟨_, .block (howed.trans owed) (hmode.trans mode) (hr.trans rest),
      (((hb.forward 2).openBraces false).setMode .block).hold rfl, ?_⟩
    exact congrArg (Token.mk _ _) hb.position
  | noCommand owed mode rest =>
    refine ⟨_, .noCommand (howed.trans owed) (hmode.trans mode) (hr ▸ rest),
      hb.halt (hb.faultAt rfl hb.position), ?_⟩
    exact congrArg Token.endAt hb.position
  | openCommand owed mode opens found =>
    have hf := hb.forward s.resume.skipBlanks.rest.length
    have found' := (congrArg Lexeme.commandText hr).trans found
    have step' := Step.openCommand (howed.trans owed) (hmode.trans mode) (hr ▸ opens) found'
    rw [hr] at step'
    have hc := congrArg Cause.unterminatedCommand hb.position
    exact ⟨_, step', hf.halt (hb.faultAt hc hf.position), congrArg Token.endAt hf.position⟩
  | @command text owed mode rest opens space found =>
    have found' := (congrArg Lexeme.commandText hr).trans found
    refine ⟨_, .command (howed.trans owed) (hmode.trans mode) (hr ▸ rest) (hr ▸ opens)
      (hr ▸ space) found', ((hb.forward text.length).endLine 1).hold rfl, ?_⟩
    exact congrArg (Token.mk _ _) hb.position
  | openBlock owed mode rest =>
    have hp := h.resume.position
    have hc := congrArg Cause.unterminatedBlock hp
    have rest' := (congrArg Lexeme.blockText h.resume.rest).trans rest
    exact ⟨_, .openBlock (howed.trans owed) (hmode.trans mode) rest',
      h.resume.halt (h.resume.faultAt hc hp), congrArg Token.endAt hp⟩
  | @blockText text owed mode found =>
    have found' := (congrArg Lexeme.blockText h.resume.rest).trans found
    refine ⟨_, .blockText (howed.trans owed) (hmode.trans mode) found',
      (h.resume.forward text.length).hold rfl, ?_⟩
    exact congrArg (Token.mk _ _) h.resume.position
  | terminator owed mode rest read =>
    obtain ⟨token', after', read', rfl, h'⟩ := read.below hb
    rw [← h.level.begins] at read'
    exact ⟨_, .terminator (howed.trans owed) (hmode.trans mode) (hr.trans rest) read',
      h'.hold rfl, rfl⟩
  | lineEnd owed mode rest =>
    refine ⟨_, .lineEnd (howed.trans owed) (hmode.trans mode) (hr ▸ rest),
      (hb.takeLineEnd 1).hold rfl, ?_⟩
    exact congrArg Token.newlineAt hb.position
  | stray owed mode rest space separator =>
    refine ⟨_, .stray (howed.trans owed) (hmode.trans mode) (hr.trans rest) space separator,
      hb.halt (hb.faultAt rfl hb.position), ?_⟩
    exact congrArg Token.endAt hb.position

/-- **A look shows the same token further down**, and leaves the scanner below. -/
theorem Below.look (h : Below n s s') (hd : s.done = false) :
    Below n s.look s'.look ∧ s'.look.token = s.look.token.down n := by
  obtain ⟨t', step', h', ht⟩ := (step_look hd).below h
  rw [step'.eq_look (h.level.done.trans hd)]
  exact ⟨h', ht⟩

/-- **Scanning goes on below.** -/
theorem Below.scan (h : Below n s s') (ht : s'.token = s.token.down n) (begins : Bool) :
    Below n (s.scan begins) (s'.scan begins) ∧
      (s'.scan begins).token = (s.scan begins).token.down n := by
  cases hd : s.done with
  | true =>
    rw [scan_of_done hd, scan_of_done (h.level.done.trans hd)]
    exact ⟨h, ht⟩
  | false =>
    rw [← look_ask hd, ← look_ask (h.level.done.trans hd)]
    exact (h.ask begins).look hd

/-- As many scans are left below. -/
theorem Below.scansLeft (h : Below n s s') : s'.scansLeft = s.scansLeft := by
  simp only [Scanner.scansLeft, peakLists, openLists, h.level.done, h.level.owed, h.level.lists,
    h.level.mode, h.level.saved, h.rest]

end Scanner
end RcScript
