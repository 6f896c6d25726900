/-
# One session, however it is driven

A caller may ask a session for its statements with `next`, with `step`, through an
iterator, old or new, or for all that remain, and may change its mind at every call.
What it gets does not depend on that.  A `Feed` is what is left of a script for its
callers: the statements not yet delivered, and the fault behind them, if there is one.
A call takes the next one of them or finds the end, and the end is the same for every
call that comes to it (`Feed.answer`).  `Serves` says that a session has just this to
give.  One call keeps it (`Serves.answer`), so a sequence of calls does
(`Serves.answerAll`), and a session that has met its end does not scan any more.

The feed is defined without the scanner and without the reader, so it says on its own what
callers may expect: the same statements in the same order, a fault that is raised by every
call but a step, and an iterator that has met the end staying there.  That it is the feed
of the script is said by `Delivers`, which only knows repeated requests with `next`; so
every other way of asking is tied to this one (`performAll_eq_answerAll`).

Three relations tie the parts together.  `Delivers` is about one session and `next` alone,
and it is an induction on what remains: a statement and then what remains after it, or the
end.  `Alike` leaves out of a session what `next` does not look at, so that the sessions
which other calls leave can be compared with the ones that `next` leaves.  `Serves` says of
a session that it stands between statements, delivers what the feed has left, and has kept
the fault that the feed has met.

Two calls need more than that.  A request for all that remains may deliver statements and
then meet the fault; they are lost to the caller, and the feed loses them in the same way.
A step puts its statement into the session instead of handing it over, which is why what a
call hands over is read from the response and the session together (`Response.delivered`).
-/

import RcScript.Proofs.Session.Bounded
import RcScript.Session.Request

namespace RcScript

variable {source filename : String} {stmt : Stmt} {stmts : List Stmt} {ending : Option Fault}

/-- The calls by which statements are asked for. -/
inductive Call
  | step
  | next
  | all
  | iterate
  | nextItem
deriving DecidableEq, Repr

/-- The request that a call makes. -/
def Call.request : Call → Request
  | .step => .step
  | .next => .next
  | .all => .all
  | .iterate => .iterate
  | .nextItem => .nextItem

/-- What is left of a script for its callers. -/
structure Feed where
  /-- the statements that have not been delivered -/
  remaining : List Stmt
  /-- the fault behind them -/
  ending : Option Fault
  /-- whether a call has come to the end -/
  met : Bool
  /-- the statement that the last step delivered -/
  current : Option Stmt
  /-- whether the iterator in use has stopped -/
  exhausted : Bool

namespace Feed

/-- All of a script is left before the first call. -/
def whole (stmts : List Stmt) (ending : Option Fault) : Feed := ⟨stmts, ending, false, none, false⟩

/-- The fault that has been met. -/
def error (f : Feed) : Option Fault := if f.met then f.ending else none

/-- What a call gives that comes to the end: its value, unless there is a fault. -/
def atEnd {α : Type} (f : Feed) (a : α) : Except Fault α :=
  match f.ending with
  | some fault => .error fault
  | none => .ok a

/-- Takes the next statement, or meets the end. -/
def take (f : Feed) : Except Fault (Option Stmt) × Feed :=
  match f.remaining with
  | stmt :: stmts => (.ok (some stmt), { f with remaining := stmts })
  | [] => (f.atEnd none, { f with met := true })

/-- The response to a call that may meet the fault. -/
def respond {α : Type} (response : α → Response) : Except Fault α → Response
  | .ok a => response a
  | .error fault => .failure (.fault fault)

/-- What a call is answered.  A step raises no fault, and an iterator that has met the
end stays exhausted. -/
def answer (f : Feed) : Call → Response × Feed
  | .step =>
    match f.take with
    | (.ok found, after) => (.flag found.isSome, { after with current := found })
    | (.error _, after) => (.flag false, { after with current := none })
  | .next => Prod.map (respond .statement) id f.take
  | .all =>
    (respond .statements (f.atEnd f.remaining), { f with remaining := [], met := true })
  | .iterate => (.nothing, { f with exhausted := false })
  | .nextItem =>
    if f.exhausted then (.exhausted, f)
    else match f.take with
      | (.ok (some stmt), after) => (.statement (some stmt), after)
      | (.ok none, after) => (.exhausted, { after with exhausted := true })
      | (.error fault, after) => (.failure (.fault fault), { after with exhausted := true })

/-- What calls are answered one after the other. -/
def answerAll : List Call → Feed → List Response × Feed
  | [], f => ([], f)
  | call :: calls, f =>
    let (response, after) := f.answer call
    let (responses, final) := after.answerAll calls
    (response :: responses, final)

/-- To take a statement does not change the end, and does not forget that it was met. -/
theorem take_keeps (f : Feed) :
    f.take.2.ending = f.ending ∧ (f.met = true → f.take.2.met = true) := by
  rw [take]
  split
  · exact ⟨rfl, id⟩
  · exact ⟨rfl, fun _ => rfl⟩

/-- No call changes the end, and none forgets that it was met. -/
theorem answer_keeps (f : Feed) (call : Call) : (f.answer call).2.ending = f.ending ∧
    (f.met = true → (f.answer call).2.met = true) := by
  have htake := f.take_keeps
  cases call with
  | step =>
    rw [answer]
    generalize f.take = taken at htake
    rcases taken with ⟨fault | found, after⟩ <;> exact htake
  | next => exact htake
  | all => exact ⟨rfl, fun _ => rfl⟩
  | iterate => exact ⟨rfl, id⟩
  | nextItem =>
    rw [answer]
    generalize f.take = taken at htake
    split
    · exact ⟨rfl, id⟩
    · rcases taken with ⟨fault | _ | stmt, after⟩ <;> exact htake

/-- Calls do not change the end, and do not forget that it was met. -/
theorem answerAll_keeps (f : Feed) (calls : List Call) : (f.answerAll calls).2.ending = f.ending ∧
    (f.met = true → (f.answerAll calls).2.met = true) := by
  induction calls generalizing f with
  | nil => exact ⟨rfl, id⟩
  | cons call calls ih =>
    obtain ⟨hending, hmet⟩ := f.answer_keeps call
    obtain ⟨hending', hmet'⟩ := ih (f.answer call).2
    exact ⟨hending'.trans hending, fun hm => hmet' (hmet hm)⟩

end Feed

/-- The statements that a response hands over; what a step delivers is found in the
session. -/
def Response.delivered (current : Option Stmt) : Response → List Stmt
  | .flag true => current.toList
  | .statement found => found.toList
  | .statements stmts => stmts
  | _ => []

/-- **What a call hands over is what it takes away**, unless it is lost before a fault. -/
theorem Feed.delivered_answer (f : Feed) (call : Call) (h : call = .all → f.ending = none) :
    (f.answer call).1.delivered (f.answer call).2.current ++ (f.answer call).2.remaining =
      f.remaining := by
  obtain ⟨remaining, ending, met, current, exhausted⟩ := f
  cases call with
  | all =>
    obtain rfl : ending = none := h rfl
    exact List.append_nil remaining
  | iterate => rfl
  | step => cases remaining <;> cases ending <;> rfl
  | next => cases remaining <;> cases ending <;> rfl
  | nextItem => cases exhausted <;> cases remaining <;> cases ending <;> rfl

namespace Session

variable {a b : Session} {f : Feed}

/-- The statements that calls hand over, one call after the other. -/
def deliveredBy : List Call → Session → List Stmt
  | [], _ => []
  | call :: calls, a =>
    let answer := a.perform call.request
    answer.1.delivered answer.2.2.current ++ answer.2.2.deliveredBy calls

/-- What repeated requests for the next statement come to: some statements, and then
the end of the script or a fault. -/
inductive Delivers : Session → List Stmt → Option Fault → Prop
  | finish {a : Session} (response : (a.perform .next).1 = .statement none) : Delivers a [] none
  | fail {a : Session} {fault : Fault}
      (response : (a.perform .next).1 = .failure (.fault fault)) : Delivers a [] (some fault)
  | next {a : Session} {stmt : Stmt} {stmts : List Stmt} {ending : Option Fault}
      (response : (a.perform .next).1 = .statement (some stmt))
      (rest : Delivers (a.perform .next).2.2 stmts ending) : Delivers a (stmt :: stmts) ending

/-- A request for the next statement is answered with what comes next. -/
theorem response_next (a : Session) :
    (a.perform .next).1 = responseOf .statement a.forgetCompleted.next.1 := rfl

/-- What a request for the next statement was answered is what came next. -/
theorem next_of_response {found : Option Stmt} (h : (a.perform .next).1 = .statement found) :
    a.forgetCompleted.next = (.ok found, (a.perform .next).2.2) := by
  refine Prod.ext ?_ rfl
  rw [response_next] at h
  cases hn : a.forgetCompleted.next.1 with
  | ok found' =>
    rw [hn] at h
    cases h
    rfl
  | error failure =>
    rw [hn] at h
    cases h

/-- Where a request for the next statement was answered with a failure, nothing else came next.
-/
theorem next_of_response_failure {failure : Failure} (h : (a.perform .next).1 = .failure failure) :
    a.forgetCompleted.next = (.error failure, (a.perform .next).2.2) := by
  refine Prod.ext ?_ rfl
  rw [response_next] at h
  cases hn : a.forgetCompleted.next.1 with
  | ok found =>
    rw [hn] at h
    cases h
  | error failure' =>
    rw [hn] at h
    cases h
    rfl

/-- A statement that is delivered, or the end of the script, was read and leaves no fault. -/
theorem of_next_eq_ok {found : Option Stmt} (h : a.next = (.ok found, b)) :
    a.sticky = none ∧ ∃ r, Parse.statement Parse.nestingLimit a.reader = .ok found r ∧
      b = { a with reader := r } := by
  simp only [next, read] at h
  cases hs : a.sticky with
  | some fault => simp [hs] at h
  | none =>
    refine ⟨rfl, ?_⟩
    cases hf : a.reader.scanner.fault with
    | some fault => simp [hs, hf] at h
    | none =>
      cases hr : Parse.statement Parse.nestingLimit a.reader with
      | ok found' r =>
        simp only [hs, hf, hr] at h
        cases h
        exact ⟨r, rfl, by rw [← hs]⟩
      | error failure r => cases failure <;> simp [hs, hf, hr] at h

/-- A fault that is met is kept. -/
theorem of_next_eq_fault {fault : Fault} (h : a.next = (.error (.fault fault), b)) :
    ∃ r, b = { a with reader := r, sticky := some fault } := by
  simp only [next, read] at h
  cases hs : a.sticky with
  | some fault =>
    simp only [hs] at h
    cases h
    exact ⟨a.reader, by rw [← hs]⟩
  | none =>
    cases hf : a.reader.scanner.fault with
    | some fault =>
      simp only [hs, hf] at h
      cases h
      exact ⟨a.reader, rfl⟩
    | none =>
      cases hr : Parse.statement Parse.nestingLimit a.reader with
      | ok found' r => simp [hs, hf, hr] at h
      | error failure r =>
        cases failure with
        | fault fault =>
          simp only [hs, hf, hr] at h
          cases h
          exact ⟨r, rfl⟩
        | build error => simp [hs, hf, hr] at h

/-! ### What remains is in the reader -/

/-- Sessions that read the same, whatever their last step and their iterator. -/
structure Alike (a b : Session) : Prop where
  reader : a.reader = b.reader
  sticky : a.sticky = b.sticky

/-- Sessions that read the same do so when they forget what was completed. -/
theorem Alike.forgetCompleted (h : a.Alike b) : a.forgetCompleted.Alike b.forgetCompleted :=
  ⟨by rw [Session.forgetCompleted, Session.forgetCompleted, h.reader], h.sticky⟩

/-- What comes next depends on the reader and on the fault that was kept. -/
theorem Alike.next (h : a.Alike b) : a.next.1 = b.next.1 ∧ a.next.2.Alike b.next.2 := by
  obtain ⟨r, _, sticky, _⟩ := a
  obtain ⟨_, _, _, _⟩ := b
  obtain ⟨rfl, rfl⟩ := h
  cases sticky with
  | some fault => exact ⟨rfl, rfl, rfl⟩
  | none =>
    simp only [Session.next, read]
    cases r.scanner.fault with
    | some fault => exact ⟨rfl, rfl, rfl⟩
    | none =>
      cases Parse.statement Parse.nestingLimit r with
      | ok found r' => exact ⟨rfl, rfl, rfl⟩
      | error failure r' => cases failure <;> exact ⟨rfl, rfl, rfl⟩

/-- Sessions that read the same answer a request for the next statement alike, and read the same
after it. -/
theorem Alike.perform_next (h : a.Alike b) :
    (a.perform .next).1 = (b.perform .next).1 ∧
      (a.perform .next).2.2.Alike (b.perform .next).2.2 := by
  obtain ⟨hout, hafter⟩ := h.forgetCompleted.next
  exact ⟨congrArg (responseOf .statement) hout, hafter⟩

/-- What was completed does not matter to what a session delivers. -/
theorem Delivers.of_forgetCompleted (h : a.Delivers stmts ending) :
    a.forgetCompleted.Delivers stmts ending := by
  cases h with
  | finish response => exact .finish response
  | fail response => exact .fail response
  | next response rest => exact .next response rest

/-- What a session delivers depends on no more. -/
theorem Delivers.of_alike (h : a.Delivers stmts ending) (hab : a.Alike b) :
    b.Delivers stmts ending := by
  induction h generalizing b with
  | finish response => exact .finish (hab.perform_next.1 ▸ response)
  | fail response => exact .fail (hab.perform_next.1 ▸ response)
  | next response rest ih => exact .next (hab.perform_next.1 ▸ response) (ih hab.perform_next.2)

/-- A session stands between statements where one that reads the same does. -/
theorem Between.of_alike (h : a.Between) (hab : a.Alike b) : b.Between := by
  intro hsticky
  obtain ⟨s, hs, hready⟩ := h (hab.sticky.trans hsticky)
  exact ⟨s, ⟨hab.reader ▸ hs.reader, hsticky⟩, hready⟩

/-- At the end of the script there is no next statement, and nothing is scanned. -/
theorem Between.next_of_end (h : a.Between) (hs : a.sticky = none)
    (hk : a.reader.token.kind = .endOfInput) : a.next = (.ok none, a) := by
  obtain ⟨s, hat, -⟩ := h hs
  exact hat.next_of_ok (r := a.reader) (Parse.statement_eq_ok_iff.2
    ⟨[], _, Parse.manyWhile_of_not_more (by simp [hk]), .inl ⟨hk, rfl, rfl⟩⟩)

/-! ### A session serves what is left of its script -/

/-- A session has just this to give. -/
structure Serves (f : Feed) (a : Session) : Prop where
  between : a.Between
  delivers : a.Delivers f.remaining f.ending
  sticky : a.sticky = f.error
  current : a.current = f.current
  exhausted : a.exhausted = f.exhausted
  remaining : f.met = true → f.remaining = []
  /-- the end that has been met is the look-ahead -/
  atEnd : f.met = true → f.ending = none → a.reader.token.kind = .endOfInput

/-- A call may leave a statement for its caller. -/
theorem Serves.setCurrent (h : Serves f a) (current : Option Stmt) :
    Serves { f with current := current } { a with current := current } where
  between := h.between.of_alike ⟨rfl, rfl⟩
  delivers := h.delivers.of_alike ⟨rfl, rfl⟩
  sticky := h.sticky
  current := rfl
  exhausted := h.exhausted
  remaining := h.remaining
  atEnd := h.atEnd

/-- A call may stop an iterator or begin a new one. -/
theorem Serves.setExhausted (h : Serves f a) (exhausted : Bool) :
    Serves { f with exhausted := exhausted } { a with exhausted := exhausted } where
  between := h.between.of_alike ⟨rfl, rfl⟩
  delivers := h.delivers.of_alike ⟨rfl, rfl⟩
  sticky := h.sticky
  current := h.current
  exhausted := rfl
  remaining := h.remaining
  atEnd := h.atEnd

/-- **The next statement is the first that remains**, and where none does the end is met.
Once it has been met nothing is scanned any more. -/
theorem Serves.take (h : Serves f a) : ∃ b,
    a.forgetCompleted.next = (f.take.1.mapError .fault, b) ∧ Serves f.take.2 b ∧
      (f.met = true → b.reader.scanner = a.reader.scanner) := by
  obtain ⟨remaining, ending, met, current, exhausted⟩ := f
  obtain ⟨hbetween, hdelivers, hsticky, hcurrent, hexhausted, hremaining, hend⟩ := h
  dsimp only at hdelivers hsticky hcurrent hexhausted hremaining hend
  have hafter : (a.perform .next).2.2.Between := hbetween.forgetCompleted.next.1
  refine ⟨(a.perform .next).2.2, ?_⟩
  cases hdelivers with
  | finish response =>
    have hnext := next_of_response response
    generalize (a.perform .next).2.2 = b at hnext hafter
    obtain ⟨hs, r, -, rfl⟩ := of_next_eq_ok hnext
    have hk := (hbetween.forgetCompleted.of_next hnext).2 rfl
    have hdelivers : ({ a.forgetCompleted with reader := r } : Session).Delivers [] none := by
      refine .finish ?_
      rw [response_next, hafter.forgetCompleted.next_of_end hs hk]
      rfl
    refine ⟨hnext, ⟨hafter, hdelivers, hs, hcurrent, hexhausted, fun _ => rfl, fun _ _ => hk⟩, ?_⟩
    intro hm
    have hstay := hnext.symm.trans (hbetween.forgetCompleted.next_of_end hs (hend hm rfl))
    exact congrArg (fun answer => answer.2.reader.scanner) hstay
  | @fail _ fault response =>
    have hnext := next_of_response_failure response
    generalize (a.perform .next).2.2 = b at hnext hafter
    obtain ⟨r, rfl⟩ := of_next_eq_fault hnext
    have hdelivers : ({ a.forgetCompleted with reader := r, sticky := some fault } :
        Session).Delivers [] (some fault) := by
      refine .fail ?_
      rw [response_next, next_of_sticky rfl]
      rfl
    refine ⟨hnext, ⟨hafter, hdelivers, rfl, hcurrent, hexhausted, fun _ => rfl, nofun⟩, ?_⟩
    rintro rfl
    have hstay := hnext.symm.trans (next_of_sticky hsticky)
    exact congrArg (fun answer => answer.2.reader.scanner) hstay
  | next response rest =>
    obtain rfl : met = false := by
      cases met with
      | false => rfl
      | true => cases hremaining rfl
    have hnext := next_of_response response
    generalize (a.perform .next).2.2 = b at hnext hafter rest
    obtain ⟨hs, r, -, rfl⟩ := of_next_eq_ok hnext
    exact ⟨hnext, ⟨hafter, rest, hs, hcurrent, hexhausted, nofun, nofun⟩, nofun⟩

/-- **A run delivers all that remains** and meets the end. -/
theorem Serves.run (h : Serves f a) : a.run.statements = f.remaining ∧
    a.run.failure = f.ending.map .fault ∧
    Serves { f with remaining := [], met := true } a.run.final ∧
    (f.met = true → a.run.final.reader.scanner = a.reader.scanner) := by
  obtain ⟨remaining, ending, met, current, exhausted⟩ := f
  induction remaining generalizing a with
  | nil =>
    obtain ⟨b, hnext, hb, hscanner⟩ := h.take
    cases ending with
    | none =>
      rw [run_of_next_none hnext]
      exact ⟨rfl, rfl, hb, hscanner⟩
    | some fault =>
      rw [run_of_next_error hnext]
      exact ⟨rfl, rfl, hb, hscanner⟩
  | cons stmt stmts ih =>
    obtain ⟨b, hnext, hb, -⟩ := h.take
    have hlt := (h.between.forgetCompleted.of_next hnext).1 (Option.some_ne_none stmt)
    obtain ⟨hstmts, hfail, hfinal, -⟩ := ih hb
    rw [run_of_next_some hnext hlt]
    refine ⟨congrArg (stmt :: ·) hstmts, hfail, hfinal, fun hm => ?_⟩
    cases h.remaining hm

/-- What was completed does not matter to what remains. -/
theorem Serves.forgetCompleted (h : Serves f a) : Serves f a.forgetCompleted where
  between := h.between.forgetCompleted
  delivers := h.delivers.of_forgetCompleted
  sticky := h.sticky
  current := h.current
  exhausted := h.exhausted
  remaining := h.remaining
  atEnd := h.atEnd

/-- **A call is answered from what remains**, whichever it is; and after the end has been
met no call scans. -/
theorem Serves.answer (h : Serves f a) (call : Call) :
    (a.perform call.request).1 = (f.answer call).1 ∧
      Serves (f.answer call).2 (a.perform call.request).2.2 ∧
      (f.met = true → (a.perform call.request).2.2.reader.scanner = a.reader.scanner) := by
  obtain ⟨b, hnext, hb, hscanner⟩ := h.take
  cases call with
  | step =>
    simp only [Call.request, perform, step, hnext, Feed.answer]
    generalize f.take = taken at hb
    rcases taken with ⟨fault | found, after⟩
    · exact ⟨rfl, hb.setCurrent none, hscanner⟩
    · exact ⟨rfl, hb.setCurrent found, hscanner⟩
  | next =>
    simp only [Call.request, perform, hnext, Feed.answer]
    generalize f.take = taken at hb
    rcases taken with ⟨fault | found, after⟩ <;> exact ⟨rfl, hb, hscanner⟩
  | all =>
    obtain ⟨hstmts, hfail, hfinal, hscan⟩ := h.forgetCompleted.run
    refine ⟨?_, hfinal, hscan⟩
    simp only [Call.request, perform, Run.outcome, hstmts, hfail, Feed.answer, Feed.atEnd]
    cases f.ending <;> rfl
  | iterate => exact ⟨rfl, h.forgetCompleted.setExhausted false, fun _ => rfl⟩
  | nextItem =>
    have hex : a.forgetCompleted.exhausted = f.exhausted := h.exhausted
    simp only [Call.request, perform, nextItem, hex, hnext, Feed.answer]
    generalize f.take = taken at hb
    cases f.exhausted with
    | true => exact ⟨rfl, h.forgetCompleted, fun _ => rfl⟩
    | false =>
      rcases taken with ⟨fault | _ | stmt, after⟩
      · exact ⟨rfl, hb.setExhausted true, hscanner⟩
      · exact ⟨rfl, hb.setExhausted true, hscanner⟩
      · exact ⟨rfl, hb, hscanner⟩

/-- **Calls are answered from what remains**, one after the other.  What they hand over
is what no longer remains, unless all statements were asked for before a fault; and
after the end has been met none of them scans. -/
theorem Serves.answerAll (h : Serves f a) (calls : List Call) :
    (a.performAll (calls.map Call.request)).1 = (f.answerAll calls).1 ∧
      Serves (f.answerAll calls).2 (a.performAll (calls.map Call.request)).2 ∧
      ((.all ∈ calls → f.ending = none) →
        a.deliveredBy calls ++ (f.answerAll calls).2.remaining = f.remaining) ∧
      (f.met = true →
        (a.performAll (calls.map Call.request)).2.reader.scanner = a.reader.scanner) := by
  induction calls generalizing f a with
  | nil => exact ⟨rfl, h, fun _ => rfl, fun _ => rfl⟩
  | cons call calls ih =>
    obtain ⟨hresponse, hserves, hscanner⟩ := h.answer call
    obtain ⟨hresponses, hfinal, hdelivered, hstay⟩ := ih hserves
    obtain ⟨hending, hmet⟩ := f.answer_keeps call
    refine ⟨congrArg₂ List.cons hresponse hresponses, hfinal, fun hall => ?_, fun hm => ?_⟩
    · have hcall : call = .all → f.ending = none := fun hc => hall (hc ▸ List.mem_cons_self)
      have hcalls : .all ∈ calls → (f.answer call).2.ending = none := fun hc =>
        hending.trans (hall (List.mem_cons_of_mem call hc))
      calc a.deliveredBy (call :: calls) ++ ((f.answer call).2.answerAll calls).2.remaining
          = (f.answer call).1.delivered (f.answer call).2.current ++
              (f.answer call).2.remaining := by
            rw [← hdelivered hcalls, ← hserves.current, ← hresponse]
            exact List.append_assoc ..
        _ = f.remaining := f.delivered_answer call hcall
    · exact (hstay (hmet hm)).trans (hscanner hm)

/-- A call for the next statement fails with a fault of the script, if it does. -/
theorem Between.exists_fault (h : a.Between) {failure : Failure}
    (hn : a.next = (.error failure, b)) : ∃ fault, failure = .fault fault := by
  cases hsticky : a.sticky with
  | some fault =>
    rw [next_of_sticky hsticky] at hn
    cases hn
    exact ⟨fault, rfl⟩
  | none =>
    obtain ⟨s, hs, -⟩ := h hsticky
    rcases hs.next_cases with ⟨found, r, -, -, hnext⟩ | ⟨fault, r, -, -, hnext⟩
    · cases hn.symm.trans hnext
    · cases hn.symm.trans hnext
      exact ⟨fault, rfl⟩

/-- Asking for the next statement comes to the end of the script, or to a fault. -/
theorem Between.exists_delivers (h : a.Between) : ∃ stmts ending, a.Delivers stmts ending := by
  fun_induction Session.run a with
  | case1 a failure b hn =>
    obtain ⟨fault, rfl⟩ := h.forgetCompleted.exists_fault hn
    exact ⟨[], some fault, .fail (by rw [response_next, hn]; rfl)⟩
  | case2 a b hn => exact ⟨[], none, .finish (by rw [response_next, hn]; rfl)⟩
  | case3 a stmt b hn hlt run ih =>
    obtain ⟨stmts, ending, hdelivers⟩ := ih (h.reaches hn).1
    have hb : (a.perform .next).2.2 = b := congrArg Prod.snd hn
    exact ⟨stmt :: stmts, ending, .next (by rw [response_next, hn]; rfl) (hb ▸ hdelivers)⟩
  | case4 a stmt b hn hlt =>
    exact absurd ((h.forgetCompleted.of_next hn).1 (Option.some_ne_none stmt)) hlt

/-- What asking for the next statement comes to is determined. -/
theorem Delivers.unique {stmts' : List Stmt} {ending' : Option Fault}
    (h : a.Delivers stmts ending) (h' : a.Delivers stmts' ending') :
    stmts = stmts' ∧ ending = ending' := by
  induction h generalizing stmts' ending' with
  | finish response =>
    cases h' with
    | finish => exact ⟨rfl, rfl⟩
    | fail response' => cases response.symm.trans response'
    | next response' => cases response.symm.trans response'
  | fail response =>
    cases h' with
    | finish response' => cases response.symm.trans response'
    | fail response' =>
      cases response.symm.trans response'
      exact ⟨rfl, rfl⟩
    | next response' => cases response.symm.trans response'
  | next response rest ih =>
    cases h' with
    | finish response' => cases response.symm.trans response'
    | fail response' => cases response.symm.trans response'
    | next response' rest' =>
      obtain ⟨rfl, hending⟩ := ih rest'
      cases response.symm.trans response'
      exact ⟨rfl, hending⟩

/-- **One session, any driver.**  Let repeated requests for the next statement come to
some statements of a script and then to its end or a fault.  However statements are asked
for, every call is answered from what is left of them: they are handed over in order,
none is lost or repeated, and the end is the same for every call that comes to it.  No
fault is kept before all of them are delivered; once the end has been met, no call scans
any more, and the fault stays. -/
theorem performAll_eq_answerAll (source filename : String) :
    ∃ stmts ending, (start source filename).Delivers stmts ending ∧ ∀ calls : List Call,
      let (responses, final) := (start source filename).performAll (calls.map Call.request)
      let (answers, feed) := (Feed.whole stmts ending).answerAll calls
      responses = answers ∧ final.current = feed.current ∧ final.sticky = feed.error ∧
        (feed.met = true → feed.remaining = []) ∧
        ((.all ∈ calls → ending = none) →
          (start source filename).deliveredBy calls ++ feed.remaining = stmts) ∧
        (feed.met = true → ∀ more : List Call,
          let later := (final.performAll (more.map Call.request)).2
          later.reader.scanner = final.reader.scanner ∧ later.sticky = ending) := by
  obtain ⟨stmts, ending, hdelivers⟩ := (between_start source filename).exists_delivers
  refine ⟨stmts, ending, hdelivers, fun calls => ?_⟩
  have hstart : Serves (.whole stmts ending) (start source filename) :=
    ⟨between_start source filename, hdelivers, rfl, rfl, rfl, nofun, nofun⟩
  obtain ⟨hresponses, hserves, hdelivered, -⟩ := hstart.answerAll calls
  refine ⟨hresponses, hserves.current, hserves.sticky, hserves.remaining, hdelivered, ?_⟩
  intro hm more
  obtain ⟨-, hlater, -, hscanner⟩ := hserves.answerAll more
  obtain ⟨hending, -⟩ := (Feed.whole stmts ending).answerAll_keeps calls
  obtain ⟨hending', hmet⟩ := ((Feed.whole stmts ending).answerAll calls).2.answerAll_keeps more
  refine ⟨hscanner hm, ?_⟩
  rw [hlater.sticky, Feed.error, if_pos (hmet hm), hending', hending]
  rfl

/-- The first of two statements is delivered by a step and the other one with all that
remain; then the end is met, and an iterator finds nothing. -/
theorem performAll_eq_answerAll_shell :
    ((start "cd ~;\n$ls" unnamed).performAll [.step, .all, .nextItem]).1 =
        [.flag true, .statements [.exec .shell "ls"], .exhausted] ∧
      (start "cd ~;\n$ls" unnamed).deliveredBy [.step, .all, .nextItem] =
        [.call "cd" ["~"], .exec .shell "ls"] ∧
      ∀ more : List Call,
        let final := ((start "cd ~;\n$ls" unnamed).performAll [.step, .all, .nextItem]).2
        let later := (final.performAll (more.map Call.request)).2
        later.reader.scanner = final.reader.scanner ∧ later.sticky = none := by
  obtain ⟨stmts, ending, hdelivers, hcalls⟩ := performAll_eq_answerAll "cd ~;\n$ls" unnamed
  have hscript : (start "cd ~;\n$ls" unnamed).Delivers
      [.call "cd" ["~"], .exec .shell "ls"] none :=
    .next (by cbv) (.next (by cbv) (.finish (by cbv)))
  obtain ⟨rfl, rfl⟩ := hdelivers.unique hscript
  obtain ⟨hresponses, -, -, -, hdelivered, hlater⟩ := hcalls [.step, .all, .nextItem]
  exact ⟨hresponses, (List.append_nil _).symm.trans (hdelivered fun _ => rfl), hlater rfl⟩

end Session
end RcScript
