/-
# Reading further down

A reader below another one reads the same.  `Follows` says that one step does some
lines further down what another step does here: it gives what the other gives, as
seen from there, or it fails as the other fails.  Steps follow one another through
`bind` and through repetition, so every step of reading follows itself, up to a
whole statement (`stays_statement`).

The judgment is proved for the steps that touch the reader and carried over the ways of
putting steps together: one after the other, a branch that looks at the token, and a
repetition.  A branch looks at kinds and texts, which are the same further down, so it is
taken alike; a failure carries a place, which is moved.  Most steps give no token but a
text or a statement, and these give further down just what they give here (`Stays`), so
the kinds of statements follow in a few lines each.

Two steps are compared and not one with itself, for a step may have a place in it: what is
refused names the token that was met, and what is run once a token has been seen may use
that token.  Where a step has no place in it the two are the same one, and this is the case
that the kinds of statements are in.
-/

import RcScript.Proofs.Scanner.Below
import RcScript.Proofs.Reader.Parts

namespace RcScript

variable {n : Nat} {α β : Type}

/-- A failure some lines further down. -/
def Failure.down (n : Nat) : Failure → Failure
  | .fault f => .fault (f.down n)
  | .build error => .build error

/-- A reader some lines below another one, with the same token ahead. -/
structure Reader.Below (n : Nat) (r r' : Reader) : Prop where
  scanner : r.scanner.Below n r'.scanner
  token : r'.token = r.token.down n

/-- As many scans are left further down. -/
theorem Reader.Below.scansLeft {r r' : Reader} (h : r.Below n r') : r'.scansLeft = r.scansLeft :=
  h.scanner.scansLeft

/-- What leaves fewer scans here leaves fewer further down. -/
theorem Reader.Below.scansLeft_lt {r r' after after' : Reader} (h : after.Below n after')
    (hr : r.Below n r') (hlt : after.scansLeft < r.scansLeft) :
    after'.scansLeft < r'.scansLeft := by
  rwa [h.scansLeft, hr.scansLeft]

namespace Parse

/-- The results of two steps, the second one taken further down: a value is moved
there by the function, and a failure as failures are. -/
inductive Meets (n : Nat) (move : α → α) :
    EStateM.Result Failure Reader α → EStateM.Result Failure Reader α → Prop
  | ok {a : α} {r r' : Reader} (below : r.Below n r') : Meets n move (.ok a r) (.ok (move a) r')
  | error {failure : Failure} {r r' : Reader} :
      Meets n move (.error failure r) (.error (failure.down n) r')

/-- The second step does some lines further down what the first one does. -/
def Follows (n : Nat) (move : α → α) (p p' : Parse α) : Prop :=
  ∀ ⦃r r' : Reader⦄, r.Below n r' → Meets n move (p r) (p' r')

section
variable {move : α → α} {a : α} {failure : Failure} {r : Reader}
  {result : EStateM.Result Failure Reader α}

/-- A step that gives a value here gives it further down. -/
theorem Meets.of_ok (h : Meets n move (.ok a r) result) :
    ∃ r', result = .ok (move a) r' ∧ r.Below n r' := by
  cases h with
  | ok below => exact ⟨_, rfl, below⟩

/-- A step that fails here fails further down, at the place that is moved. -/
theorem Meets.of_error (h : Meets n move (.error failure r) result) :
    ∃ r', result = .error (failure.down n) r' := by
  cases h
  exact ⟨_, rfl⟩

end

section
variable {p p' q q' : Parse α} {move : α → α}

/-- To give a value follows giving it. -/
theorem follows_pure (a : α) : Follows n move (pure a) (pure (move a)) := fun _ _ h => .ok h

/-- **Steps that follow one another go on following.** -/
theorem Follows.bind {f f' : α → Parse β} {move' : β → β} (hp : Follows n move p p')
    (hf : ∀ a, Follows n move' (f a) (f' (move a))) : Follows n move' (p >>= f) (p' >>= f') := by
  intro r r' h
  change Meets n move' (EStateM.bind p f r) (EStateM.bind p' f' r')
  rw [EStateM.bind, EStateM.bind]
  have hr := hp h
  generalize p r = result, p' r' = result' at hr
  cases hr with
  | ok below => exact hf _ below
  | error => exact .error

/-- A branch follows if both of its sides do. -/
theorem Follows.ite {c : Prop} [Decidable c] (hp : Follows n move p p')
    (hq : Follows n move q q') : Follows n move (if c then p else q) (if c then p' else q') := by
  split
  · exact hp
  · exact hq

/-- The look-ahead is the same further down. -/
theorem follows_token : Follows n (Token.down n) token token := by
  intro r r' h
  have ht : token r' = .ok (r.token.down n) r' := congrArg (EStateM.Result.ok · r') h.token
  rw [ht]
  exact .ok h

/-- What is refused here is refused further down. -/
theorem follows_refuse (cause : Cause) : Follows n move (refuse cause) (refuse (cause.down n)) := by
  intro r r' h
  have hr : (refuse (cause.down n) : Parse α) r' =
      .error ((Failure.fault (Fault.atToken r.token cause r.scanner.filename)).down n) r' := by
    rw [refuse, h.token, h.scanner.filename]
    rfl
  rw [hr]
  exact .error

/-- **To pass the look-ahead does not depend on where it stands.** -/
theorem follows_advance (begins : Bool) :
    Follows n (Token.down n) (advance begins) (advance begins) := by
  intro r r' h
  obtain ⟨hs, ht⟩ := h.scanner.scan h.token begins
  simp only [advance, hs.fault, h.token]
  cases (r.scanner.scan begins).fault with
  | none => exact .ok ⟨hs, ht⟩
  | some fault => exact .error

/-- A token that is needed here is needed further down. -/
theorem follows_expect (kind : TokenKind) (what : Expectation) :
    Follows n (Token.down n) (expect kind what) (expect kind what) :=
  follows_token.bind fun found =>
    (follows_advance false).ite (follows_refuse (.expected what found))

/-- The text of a token is the same further down. -/
theorem Follows.text {p p' : Parse Token} (hp : Follows n (Token.down n) p p') :
    Follows n id (Token.text <$> p) (Token.text <$> p') := by
  intro r r' h
  change Meets n id (EStateM.map Token.text p r) (EStateM.map Token.text p' r')
  rw [EStateM.map, EStateM.map]
  have hr := hp h
  generalize p r = result, p' r' = result' at hr
  cases hr with
  | ok below => exact .ok below
  | error => exact .error

/-- A statement that is complete here is complete further down. -/
theorem follows_complete (stmt : Stmt) : Follows n id (complete stmt) (complete stmt) :=
  fun _ _ h => .ok ⟨h.scanner, h.token⟩

/-- **A step that follows another is repeated as often.** -/
theorem Follows.manyWhile {more : Token → Bool} (hp : Follows n move p p')
    (hm : ∀ token : Token, more (token.down n) = more token) :
    Follows n (List.map move) (manyWhile more p) (manyWhile more p') := by
  intro r r' h
  have hmore : more r'.token = more r.token := by rw [h.token, hm]
  fun_induction Parse.manyWhile more p r generalizing r' with
  | case1 r hr failure after hfail =>
    obtain ⟨after', hfail'⟩ := (hfail ▸ hp h).of_error
    rw [Parse.manyWhile, if_pos (hmore.trans hr), hfail']
    exact .error
  | case2 r hr a after hok hlt failure final hfail ih =>
    obtain ⟨after', hok', below⟩ := (hok ▸ hp h).of_ok
    obtain ⟨final', hfail'⟩ := (hfail ▸ ih below (by rw [below.token, hm])).of_error
    rw [manyWhile_of_ok (hmore.trans hr) hok' (below.scansLeft_lt h hlt)]
    change Meets n _ _ (EStateM.map _ _ after')
    rw [EStateM.map, hfail']
    exact .error
  | case3 r hr a after hok hlt as final hend ih =>
    obtain ⟨after', hok', below⟩ := (hok ▸ hp h).of_ok
    obtain ⟨final', hend', below'⟩ := (hend ▸ ih below (by rw [below.token, hm])).of_ok
    rw [manyWhile_of_ok (hmore.trans hr) hok' (below.scansLeft_lt h hlt)]
    change Meets n _ _ (EStateM.map _ _ after')
    rw [EStateM.map, hend']
    exact .ok below'
  | case4 r hr a after hok hlt =>
    obtain ⟨after', hok', below⟩ := (hok ▸ hp h).of_ok
    rw [Parse.manyWhile, if_pos (hmore.trans hr), hok']
    simp only [below.scansLeft, h.scansLeft, hlt, dite_false]
    exact .ok below
  | case5 r hr =>
    rw [manyWhile_of_not_more (by rw [hmore]; simpa using hr)]
    exact .ok h

end

/-- A step that gives further down just what it gives here. -/
abbrev Stays (n : Nat) (p : Parse α) : Prop := Follows n id p p

/-- A step that stays the same is repeated as often, if the condition looks at no places. -/
theorem Stays.manyWhile {p : Parse α} {more : Token → Bool} (hp : Stays n p)
    (hm : ∀ token : Token, more (token.down n) = more token) : Stays n (manyWhile more p) := by
  have h := Follows.manyWhile hp hm
  rwa [List.map_id_fun] at h

/-- A value stays the same. -/
theorem stays_pure (a : α) : Stays n (pure a : Parse α) := follows_pure a

/-- The text of a token that is needed stays the same. -/
theorem stays_expect (kind : TokenKind) (what : Expectation) :
    Stays n (Token.text <$> expect kind what) := (follows_expect kind what).text

/-- A statement that must be there stays the same. -/
theorem stays_nested {p : Parse (Option Stmt)} (hp : Stays n p) (owner : Owner) :
    Stays n (nested p owner) := by
  refine hp.bind fun found => ?_
  cases found with
  | some stmt => exact stays_pure stmt
  | none => exact follows_refuse (.endInside owner)

/-- The end of a setting is the same further down. -/
theorem stays_endOfSetting (option value : String) : Stays n (endOfSetting option value) :=
  (follows_expect _ _).bind fun _ => stays_pure (Tree.set option value)

/-- A setting is read further down as it is read here. -/
theorem stays_setting : Stays n setting := by
  refine (follows_advance false).bind fun _ => ?_
  refine (follows_expect .word .optionName).bind fun option => ?_
  have hend := stays_endOfSetting (n := n) option.text
  refine follows_token.bind fun next => ?_
  refine Follows.ite ?_ ?_
  · exact Follows.bind (stays_pure "") hend
  · exact Follows.bind (stays_expect _ _) hend

/-- A call is read further down as it is read here. -/
theorem stays_call : Stays n call := by
  refine (follows_advance false).bind fun name => ?_
  have hargs : Stays n (manyWhile (fun t => t.kind ≠ .semicolon) (argument name.text)) :=
    (stays_expect _ _).manyWhile fun _ => rfl
  refine Follows.bind hargs fun args => ?_
  exact (follows_advance false).bind fun _ => stays_pure (Tree.call name.text args)

/-- The end of a command is the same further down. -/
theorem stays_endOfCommand (sigil text : String) : Stays n (endOfCommand sigil text) := by
  refine (follows_expect _ _).bind fun _ => ?_
  cases Tree.exec? sigil text with
  | ok stmt => exact stays_pure stmt
  | error error => exact fun _ _ _ => Meets.error

/-- A command is read further down as it is read here. -/
theorem stays_exec : Stays n exec := by
  refine (follows_advance false).bind fun sigil => ?_
  have hend := fun text : Token => stays_endOfCommand (n := n) sigil.text text.text
  refine follows_token.bind fun head => ?_
  refine Follows.ite ?_ ((follows_expect _ _).bind hend)
  refine (follows_advance false).bind fun _ => ?_
  refine (follows_expect .command .commandText).bind fun text => ?_
  exact (follows_expect .closeBraces .closingBraces).bind fun _ => (follows_pure text).bind hend

section
variable {item : Owner → Parse Stmt} (hi : ∀ owner, Stays n (item owner))
include hi

/-- A binding or a definition is read as it is here, if its body is. -/
theorem stays_headed {what : Expectation} {owner : String → Owner} {build : String → Stmt → Stmt} :
    Stays n (headed what owner build item) := by
  refine (follows_advance false).bind fun _ => follows_token.bind fun head => ?_
  have hbody : Stays n (do
      let _ ← advance true
      let body ← item (owner head.text)
      return build head.text body : Parse Stmt) :=
    (follows_advance true).bind fun _ => (hi _).bind fun body => stays_pure (build head.text body)
  have hrefuse : Follows n id (refuse (.expected what head) : Parse Unit)
      (refuse (.expected what (head.down n))) := follows_refuse (.expected what head)
  exact (hrefuse.bind fun _ => hbody).ite hbody

/-- A list is read as it is here, if its items are. -/
theorem stays_list : Stays n (list item) := by
  refine (follows_advance false).bind fun _ => follows_token.bind fun head => ?_
  refine Follows.ite ?_ ?_
  · refine (follows_advance false).bind fun _ => (hi .bracedList).bind fun first => ?_
    refine ((hi .bracedList).manyWhile fun _ => rfl).bind fun others => ?_
    refine (follows_advance false).bind fun _ => ?_
    exact (follows_expect _ _).bind fun _ => stays_pure (Tree.list first others)
  · refine (hi .lineList).bind fun first => ?_
    refine ((hi .lineList).manyWhile fun _ => rfl).bind fun others => ?_
    exact (follows_expect _ _).bind fun _ => stays_pure (Tree.list first others)

/-- A statement is read as it is here, if those in it are. -/
theorem stays_statementAt : Stays n (statementAt item) := by
  refine follows_token.bind fun ⟨kind, text, position⟩ => ?_
  cases kind with
  | word =>
    exact stays_setting.ite ((stays_headed hi).ite ((stays_headed hi).ite stays_call))
  | colon => exact stays_list hi
  | sigil => exact stays_exec
  | _ => exact follows_refuse (.unexpected _)

end

/-- What is nested too deep here is so further down. -/
theorem stays_tooDeep : Stays n (tooDeep : Parse α) := by
  intro r r' h
  have hr : (tooDeep : Parse α) r' = .error ((Failure.fault
      ⟨.malformed, .nestedTooDeeply, r.scanner.filename, r.token.position⟩).down n) r' := by
    rw [tooDeep, h.token, h.scanner.filename]
    rfl
  rw [hr]
  exact .error

/-- **A statement is read further down as it is read here**, or refused as here. -/
theorem stays_statement (depth : Nat) : Stays n (statement depth) := by
  induction depth with
  | zero => exact stays_tooDeep
  | succ depth ih =>
    have hseps : Follows n (List.map (Token.down n)) separators separators :=
      (follows_advance true).manyWhile fun _ => rfl
    refine hseps.bind fun _ => follows_token.bind fun head => ?_
    refine (stays_pure none).ite ?_
    refine Follows.bind (stays_statementAt (stays_nested ih)) fun stmt => ?_
    exact (follows_complete stmt).bind fun _ => stays_pure (some stmt)

end Parse
end RcScript
