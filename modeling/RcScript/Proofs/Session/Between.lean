/-
# Between statements

A session that is asked for statements one after the other stands, between two of
them, where nothing is left of the statements before: no marker is owed, no line list
is open, no braces are saved (`Session.Between`).  Only its look-ahead, which has been
read already, may have opened something (`Scanner.Settled`).  Inside a statement all
of these move; that they are back at its end is what `Derives.strict` says of the
tokens that a statement was read from.

This is an invariant of calls and not of tokens.  One call reads from such a state to the
next (`Session.Between.next`), and an induction on the number of calls gives the whole run
(`settled_nexts`).  A fault ends it: then the scanner is left where it was met, and the
session answers every later call with the fault that it has kept, so nothing more needs to
be said of its scanner.
-/

import RcScript.Proofs.Reader.Progress
import RcScript.Proofs.Session.Script

namespace RcScript

open Scanner

variable {s t : Scanner} {a : Session} {source filename : String}

/-- A scanner of which nothing is left but what its look-ahead has opened. -/
structure Scanner.Settled (s : Scanner) : Prop where
  fault : s.fault = none
  owed : s.owed = 0
  lists : s.lineLists = 0
  marker : s.token.isNewline = false
  saved : s.saved = if s.token.kind = .openBraces then [0] else []
  mode : s.mode = match s.token.kind with
    | .colon => .colon
    | .sigil => .sigil
    | .closeBraces => .terminator
    | _ => .normal

namespace Scanner

/-- Where nothing is owed, open or saved, the look-ahead alone leaves something. -/
theorem TokenRead.settled {begins : Bool} {token : Token} {after : Scanner}
    (read : TokenRead begins s token after) (h : Poised .normal 0 0 [] s) :
    (after.hold token).Settled := by
  cases read with
  | finish => exact ⟨h.sound, h.owed, h.lists, rfl, h.saved, h.mode⟩
  | lineEnd rest lists => exact absurd h.lists lists
  | separator => exact ⟨h.sound, h.owed, h.lists, rfl, h.saved, h.mode⟩
  | openBraces =>
    have hsaved : s.lineLists :: s.saved = [0] := by rw [h.lists, h.saved]
    exact ⟨h.sound, h.owed, h.lists, rfl, hsaved, h.mode⟩
  | closeBraces =>
    have hsaved : s.saved.tail = [] := by rw [h.saved]; rfl
    have hlists : s.saved.headD s.lineLists = 0 := by rw [h.saved, h.lists]; rfl
    rw [closeBraces_eq]
    exact ⟨h.sound, h.owed, hlists, rfl, hsaved, rfl⟩
  | colon => exact ⟨h.sound, h.owed, h.lists, rfl, h.saved, rfl⟩
  | sigil => exact ⟨h.sound, h.owed, h.lists, rfl, h.saved, rfl⟩
  | word => exact ⟨h.sound, h.owed, h.lists, rfl, h.saved, h.mode⟩

/-- **A scanner without dues settles with its next look.** -/
theorem Ready.settled_look (h : Ready 0 [] s) : s.look.Settled := by
  obtain ⟨owed, lists, hle, hsum, hs⟩ := h.owing
  obtain rfl : owed = 0 := by omega
  obtain rfl : lists = 0 := by omega
  rcases hs.look_cases with ⟨hne, -⟩ | ⟨-, token, after, read, hlook⟩
  · exact absurd rfl hne
  · rw [hlook]
    exact read.settled hs.resume

end Scanner

/-- Reading stops with a fault of the script. -/
theorem Reader.Stops.exists_fault {failure : Failure} {r : Reader} (h : Stops failure r) :
    ∃ fault, failure = .fault fault := by
  cases h with
  | halt halts =>
    obtain ⟨fault, hfault, -⟩ := halts
    exact ⟨fault, hfault⟩
  | refuse => exact ⟨_, rfl⟩
  | tooDeep => exact ⟨_, rfl⟩

namespace Session

/-- A session after a number of calls for the next statement. -/
def nexts : Nat → Session → Session
  | 0, a => a
  | n + 1, a => (a.nexts n).next.2

/-- A session that stands between statements, unless it has met its end in a fault. -/
def Between (a : Session) : Prop :=
  a.sticky = none → ∃ s, a.At s ∧ s.Ready 0 []

/-- **The next statement is read, or a fault is kept**; either way the reader has only
scanned on. -/
theorem At.next_cases (h : a.At s) :
    (∃ found r, Parse.statement Parse.nestingLimit a.reader = .ok found r ∧
        a.reader.Reaches r ∧ a.next = (.ok found, { a with reader := r })) ∨
      ∃ fault r, a.reader.Reaches r ∧ Reader.Stops (.fault fault) r ∧
        a.next = (.error (.fault fault), { a with reader := r, sticky := some fault }) := by
  have hproceeds := Parse.proceeds_statement Parse.nestingLimit ⟨s, h.reader⟩
  cases hr : Parse.statement Parse.nestingLimit a.reader with
  | ok found r =>
    obtain ⟨reaches, -⟩ := hproceeds.of_ok hr
    exact .inl ⟨found, r, rfl, reaches, h.next_of_ok hr⟩
  | error failure r =>
    obtain ⟨reaches, stops⟩ := hproceeds.of_error hr
    obtain ⟨fault, rfl⟩ := stops.exists_fault
    have hf := h.fault_eq_none
    refine .inr ⟨fault, r, reaches, stops, ?_⟩
    simp only [next, h.sticky, hf, read, hr]

/-- A session stands between statements before the first one. -/
theorem between_start (source filename : String) : (start source filename).Between :=
  fun _ => ⟨_, at_start source filename, ready_ofText source filename⟩

/-- A session that forgets what was completed stays where it is. -/
theorem Between.forgetCompleted (h : a.Between) : a.forgetCompleted.Between := by
  intro hsticky
  obtain ⟨s, hs, hready⟩ := h hsticky
  exact ⟨s, hs.forgetCompleted, hready⟩

/-- What was read of a statement leaves the session between statements. -/
theorem At.between_of_ok {found : Option Stmt} {r : Reader} (h : a.At s) (hready : s.Ready 0 [])
    (hr : Parse.statement Parse.nestingLimit a.reader = .ok found r) :
    ∃ t, ({ a with reader := r } : Session).At t ∧ t.Ready 0 [] := by
  have hpast : ∃ phrase, r.Past s phrase := by
    have hp := Parse.past_of_statement h.reader hr
    cases found with
    | some stmt => exact ⟨.nested stmt, hp.1⟩
    | none => exact ⟨.script [], hp.1⟩
  obtain ⟨phrase, xs, t, hxs, hreads, ht⟩ := hpast
  obtain ⟨-, -, hready'⟩ := hxs.strict hready hreads
  exact ⟨t, ⟨ht, h.sticky⟩, hready'⟩

/-- **From one call to the next a session stays between statements**, and its reader has
only scanned on. -/
theorem Between.next (h : a.Between) : a.next.2.Between ∧ a.reader.Reaches a.next.2.reader := by
  cases hsticky : a.sticky with
  | some fault =>
    rw [next_of_sticky hsticky]
    exact ⟨h, .refl a.reader⟩
  | none =>
    obtain ⟨s, hs, hready⟩ := h hsticky
    rcases hs.next_cases with ⟨found, r, hr, reaches, hnext⟩ | ⟨fault, r, reaches, -, hnext⟩
    · rw [hnext]
      exact ⟨fun _ => hs.between_of_ok hready hr, reaches⟩
    · rw [hnext]
      exact ⟨nofun, reaches⟩

/-- After any number of calls a session stands between statements, and its reader has only
scanned on. -/
theorem Between.nexts (h : a.Between) (n : Nat) :
    (a.nexts n).Between ∧ a.reader.Reaches (a.nexts n).reader := by
  induction n with
  | zero => exact ⟨h, .refl a.reader⟩
  | succ n ih =>
    obtain ⟨hbetween, hreaches⟩ := ih
    exact ⟨hbetween.next.1, hreaches.trans hbetween.next.2⟩

/-- **Nothing of a statement is left in the scanner when it is delivered**, whatever was
delivered before it. -/
theorem settled_nexts {n : Nat} {stmt : Stmt}
    (h : ((start source filename).nexts n).next.1 = .ok (some stmt)) :
    ((start source filename).nexts (n + 1)).reader.scanner.Settled := by
  obtain ⟨hbetween, -⟩ := (between_start source filename).nexts n
  cases hsticky : ((start source filename).nexts n).sticky with
  | some fault =>
    rw [next_of_sticky hsticky] at h
    cases h
  | none =>
    obtain ⟨s, hs, hready⟩ := hbetween hsticky
    obtain ⟨r, hr, hafter⟩ := hs.of_next (Prod.ext h rfl)
    obtain ⟨t, ht, hready'⟩ := hs.between_of_ok hready hr
    have hscanner : ((start source filename).nexts (n + 1)).reader.scanner = t.look :=
      (congrArg (fun b : Session => b.reader.scanner) hafter).trans ht.reader.scanner
    rw [hscanner]
    exact hready'.settled_look

/-- After a call comes a line list; the braces behind it, which nothing asked for, have
been read by then and are what is left. -/
theorem settled_nexts_braces :
    ((start "cd ~;\n: $ls\n\x7b\x7b" unnamed).nexts 1).next.1 =
        .ok (some (.list (.exec .shell "ls") [])) ∧
      ((start "cd ~;\n: $ls\n\x7b\x7b" unnamed).nexts 2).reader.scanner.Settled ∧
      ((start "cd ~;\n: $ls\n\x7b\x7b" unnamed).nexts 2).reader.scanner.saved = [0] := by
  have h : ((start "cd ~;\n: $ls\n\x7b\x7b" unnamed).nexts 1).next.1 =
      .ok (some (.list (.exec .shell "ls") [])) := by cbv
  exact ⟨h, settled_nexts h, by cbv⟩

end Session
end RcScript
