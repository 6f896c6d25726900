/-
# Scanners in the same state

What a scanner does with its state does not depend on where it stands.  Two scanners
are `Level` when all that decides what may come next is the same; the steps that
change it keep them level.

Three relations between scanners are built on it: one stands some lines below the other
(`RcScript.Proofs.Scanner.Below`), one has more text after the script
(`RcScript.Proofs.Scanner.Longer`, `RcScript.Proofs.Scanner.Tails`), one has carriage
returns before its line breaks (`RcScript.Proofs.Scanner.LineEnds`).  They differ in what
is left to read and share their state, so the steps on the state are done once, here.
-/

import RcScript.Proofs.Scanner.Progress

namespace RcScript
namespace Scanner

/-- Two scanners in the same state, wherever they stand. -/
structure Level (s s' : Scanner) : Prop where
  mode : s'.mode = s.mode
  begins : s'.beginsStatement = s.beginsStatement
  lists : s'.lineLists = s.lineLists
  saved : s'.saved = s.saved
  owed : s'.owed = s.owed
  done : s'.done = s.done

section
variable {s s' : Scanner} (h : Level s s')
include h

/-- The same request keeps scanners level. -/
theorem Level.ask (begins : Bool) : Level (s.ask begins) (s'.ask begins) :=
  { h with begins := congrArg (begins || ·) h.begins }

/-- Both use up their mode and their request. -/
theorem Level.resume : Level s.resume s'.resume := { h with mode := rfl, begins := rfl }

/-- Both take the same mode. -/
theorem Level.setMode (mode : Mode) : Level { s with mode := mode } { s' with mode := mode } :=
  { h with mode := rfl }

/-- Both are asked alike. -/
theorem Level.setBegins (begins : Bool) :
    Level { s with beginsStatement := begins } { s' with beginsStatement := begins } :=
  { h with begins := rfl }

/-- Both open a line list. -/
theorem Level.openLine :
    Level { s with lineLists := s.lineLists + 1 } { s' with lineLists := s'.lineLists + 1 } :=
  { h with lists := congrArg (· + 1) h.lists }

/-- Both save their line lists inside of braces. -/
theorem Level.openBraces (ofList : Bool) : Level (s.openBraces ofList) (s'.openBraces ofList) :=
  { h with
    saved := congrArg₂ List.cons h.lists h.saved
    lists := congrArg (fun lists => if ofList then 0 else lists) h.lists }

/-- Both take back the line lists that they have saved. -/
theorem Level.closeBraces : Level s.closeBraces s'.closeBraces := by
  rw [closeBraces_eq, closeBraces_eq]
  exact { h with
    saved := congrArg List.tail h.saved
    lists := congrArg₂ List.headD h.saved h.lists }

/-- Both come to owe the same markers. -/
theorem Level.endLine (extra : Int) : Level (s.endLine extra) (s'.endLine extra) := by
  refine { h with lists := rfl, owed := ?_ }
  change s'.owed + extra + s'.lineLists = s.owed + extra + s.lineLists
  rw [h.owed, h.lists]

/-- Both pay one marker. -/
theorem Level.payOne :
    Level { s with owed := s.owed - 1, beginsStatement := true }
      { s' with owed := s'.owed - 1, beginsStatement := true } :=
  { h with owed := congrArg (· - 1) h.owed, begins := rfl }

/-- Both hold tokens of the same kind. -/
theorem Level.hold {token token' : Token} (hk : token'.kind = token.kind) :
    Level (s.hold token) (s'.hold token') :=
  { h with done := congrArg (fun kind : TokenKind => decide (kind = .endOfInput)) hk }

end

end Scanner
end RcScript
