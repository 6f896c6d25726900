/-
# Wherever the steps of a scanner lead

The steps of a scanner may be taken in any order and with any arguments, in states that no
run of scans comes to and behind steps that failed.  None of them does more to its place than
to move its cursor forward, whatever it answers (`onward_perform`).  So the place of a scanner
is told by how far it has come: its line and column are those at which the text behind it
ends, and it never goes back (`position_performAll`).

Nothing is assumed of the scanner here, and in particular not that it is valid.  The
functions that read a token are therefore looked at one by one, as they are written and
not through their cases, and each of them is seen to move its cursor forward and to leave
the text alone.  A function that raises an error has passed something before it does, so
its scanner is further on as well.
-/

import RcScript.Scanner.Action
import RcScript.Proofs.Scanner.Offset
import RcScript.Proofs.Scanner.Onward

namespace RcScript
namespace Scanner

variable {s : Scanner}

/-! ### What reads a token -/

/-- Skipping blanks in the normal mode goes on. -/
theorem onward_resumeBlanks (s : Scanner) : Onward s { s with mode := .normal }.skipBlanks :=
  ⟨rfl, _, rfl⟩

/-- Opening a line list moves nothing. -/
theorem onward_openLine (s : Scanner) : Onward s { s with lineLists := s.lineLists + 1 } :=
  ⟨rfl, 0, rfl⟩

/-- Reading any token goes on. -/
theorem onward_readToken (begins : Bool) (s : Scanner) : Onward s (s.readToken begins).2 :=
  (tokenRead_readToken begins s).onward

/-- A command that fails has passed the blanks before it, or all that is left. -/
theorem onward_readCommand (s : Scanner) : Onward s s.readCommand.2 := by
  have hblanks := onward_resumeBlanks s
  rw [readCommand]
  dsimp only
  split
  · exact hblanks.trans ⟨rfl, 2, rfl⟩
  · exact hblanks
  · exact hblanks
  · split
    -- a backslash that escapes nothing is met only at the end of the script
    · exact hblanks.trans (onward_forward _ _)
    · next text _ => exact (hblanks.trans (onward_forward text.length _)).trans ⟨rfl, _, rfl⟩

/-- Reading a block goes on, whether or not it is closed. -/
theorem onward_readBlock (s : Scanner) : Onward s s.readBlock.2 := by
  rw [readBlock]
  split
  · exact ⟨rfl, 0, rfl⟩
  · exact ⟨rfl, _, rfl⟩

/-- Reading what ends a block goes on, whether or not it is there. -/
theorem onward_readTerminator (begins : Bool) (s : Scanner) :
    Onward s (s.readTerminator begins).2 := by
  have hblanks := onward_resumeBlanks s
  rw [readTerminator]
  split
  · exact hblanks.trans (onward_readToken begins _)
  · exact hblanks.trans (onward_takeLineEnd 1 _)
  · exact hblanks.trans (onward_takeLineEnd 1 _)
  · exact hblanks

/-- Reading what comes after a colon goes on. -/
theorem onward_readListHead (s : Scanner) : Onward s s.readListHead.2 := by
  have hblanks := onward_resumeBlanks s
  rw [readListHead]
  split
  · exact hblanks.trans ⟨rfl, 2, rfl⟩
  · exact (hblanks.trans (onward_openLine _)).trans (onward_readToken true _)

/-- Reading what comes next goes on, in any mode. -/
theorem onward_nextToken (begins : Bool) (s : Scanner) : Onward s (s.nextToken begins).2 := by
  rw [nextToken]
  split
  · exact ⟨rfl, 0, rfl⟩
  · cases s.mode with
    | normal => exact onward_readToken begins s
    | colon => exact onward_readListHead s
    | sigil => exact onward_readCommand s
    | block => exact onward_readBlock s
    | terminator => exact onward_readTerminator begins s

/-! ### Any step, and any number of them -/

/-- **A step goes on in the script**, with whatever arguments and whether or not it fails. -/
theorem onward_perform (action : Action) (s : Scanner) : Onward s (s.perform action).2 := by
  cases action with
  | scan begins => exact onward_scan begins s
  | peek ahead => rw [perform]; split <;> exact Onward.refl s
  | advance => exact onward_forward 1 s
  | skipBlanks | readWord | endLine => exact ⟨rfl, _, rfl⟩
  | readCommand => exact onward_readCommand s
  | readBlock => exact onward_readBlock s
  | readToken begins => exact onward_readToken begins s
  | nextToken begins => exact onward_nextToken begins s
  | closeBraces => exact onward_closeBraces s
  | at? | openBraces | newlineMarker | fail => exact ⟨rfl, 0, rfl⟩

/-- **Any steps go on in the script.** -/
theorem onward_performAll (actions : List Action) (s : Scanner) :
    Onward s (s.performAll actions).2 := by
  induction actions generalizing s with
  | nil => exact Onward.refl s
  | cons action actions ih => exact (onward_perform action s).trans (ih (s.perform action).2)

/-- Steps taken after others are taken where these have led. -/
theorem performAll_append (earlier later : List Action) (s : Scanner) :
    (s.performAll (earlier ++ later)).2 = ((s.performAll earlier).2.performAll later).2 := by
  induction earlier generalizing s with
  | nil => rfl
  | cons action earlier ih => exact ih (s.perform action).2

/-! ### The place of a scanner -/

/-- **A scanner stands where the text behind it ends**: at an offset of its script, and at the
line and column to which the characters up to there lead. -/
theorem Onward.located_offset {source filename : String} (h : Onward (ofText source filename) s) :
    s.cursor.offset ≤ source.length ∧
      s.position = Position.after (source.toList.take s.cursor.offset) := by
  have htext : source.toList = s.cursor.past.reverse ++ s.cursor.rest := h.text_eq.symm
  have htake : source.toList.take s.cursor.offset = s.cursor.past.reverse := by
    rw [htext]
    exact List.take_left' List.length_reverse
  constructor
  · rw [← String.length_toList, htext, List.length_append, List.length_reverse]
    exact Nat.le_add_right ..
  · rw [h.position_eq htext rfl, Position.stepAll_start, htake]

/-- **The place of a scanner is a function of how far it has come.**  Take any steps of a
scanner in any order, and look at it twice, each time after some of them: it has the script
that it was given and stands at an offset of it, on the line that the line breaks before this
offset lead to and in the column that the characters behind the last of them lead to, and
between the two looks it has not gone back. -/
theorem position_performAll (source filename : String) (earlier later : List Action) :
    let s := ((start source filename).performAll earlier).2
    let t := ((start source filename).performAll (earlier ++ later)).2
    s.cursor.text = source.toList ∧ s.cursor.offset ≤ source.length ∧
      s.cursor.offset ≤ t.cursor.offset ∧
      s.position.line = 1 + (source.toList.take s.cursor.offset).count '\n' ∧
      s.position.column =
        1 + ((source.toList.take s.cursor.offset).reverse.takeWhile (· ≠ '\n')).length := by
  intro s t
  have hs : Onward (ofText source filename) s :=
    (onward_scan false _).trans (onward_performAll earlier _)
  have hst : Onward s t := by
    change Onward s ((start source filename).performAll (earlier ++ later)).2
    rw [performAll_append]
    exact onward_performAll later s
  obtain ⟨hbound, hposition⟩ := hs.located_offset
  exact ⟨hs.text_eq, hbound, hst.offset_le, congrArg Position.line hposition,
    congrArg Position.column hposition⟩

/-- A marker paid before it is owed, then a command read behind a line break: the command
fails at the end of the script, and the scanner stays there. -/
example :
    ((start "$a\n\\" unnamed).performAll [.newlineMarker, .readCommand, .readCommand]).2.position =
        ⟨2, 2⟩ ∧
      ((start "$a\n\\" unnamed).performAll
        [.newlineMarker, .readCommand, .readCommand]).2.cursor.offset = 4 := by
  decide +kernel

end Scanner
end RcScript
