/-
# Reading a script that goes on

A script is read side by side with the same script and more text after it.  The two
readers are `Tied` until the end of the shorter script comes into play: then its reader
has the last word ahead, which the other one may see continued (`Touching`), or the end
itself (`Over`), and from there on it sees nothing else.

A step `Withstands` more text if it can only fail on the shorter script where it fails on
the longer one too, or in a way that is known for the end of a script
(`Failure.NearEnd`); it `Consumes` the last word if it passes a word that it finds ahead.
Both judgments are carried along `bind` and along repetition, each for a condition on the
look-ahead before the step and one on its value and the look-ahead after it.

The two judgments are made of three cases each, one for each way in which the readers may
stand to each other, and every case is a statement about results alone (`Ceases` at the
end of the shorter script, `Tracks` elsewhere).  This is what makes them carry over: a bind
is cut where the first step has ended, and which of the three cases holds there is part of
what is known of it.  The rest of the module does this for the steps that touch the reader
and for repetition; the kinds of statements follow in `RcScript.Proofs.Reader.Final`.

Words are what makes this intricate.  The last word of a script may go on in what follows,
so a reader that has it ahead cannot know its text, and two readers that see different
words must not do different things because of it.  Where a word is needed, any word will
do, and its text is only put into a statement.  Where a statement begins, the word may be a
keyword and may stop being one; then the readers part, but the first one is at its end and
what it comes to is one of the failures, or values, that are known of the end of a script.
-/

import RcScript.Proofs.Reader.Progress
import RcScript.Proofs.Scanner.Extended

namespace RcScript

open Scanner

variable {α β : Type} {r r' r₁ r₁' : Reader} {s : Scanner} {more : List Char} {place : Position}

/-- What the keyword of a setting, a binding or a definition must be followed by. -/
def Expectation.AfterKeyword (what : Expectation) : Prop :=
  what = .optionName ∨ what = .keys ∨ what = .commandName

/-- What is known of a failure near the end of a script: if it is one of a malformed
script, and not for its depth, then a keyword is the last word of the script, and the end
of its line was read after it. -/
def Failure.NearEnd (place : Position) (failure : Failure) : Prop :=
  ∀ fault, failure = .fault fault → fault.category = .malformed → fault.cause ≠ .nestedTooDeeply →
    fault.position = place ∧
      ∃ what : Expectation, what.AfterKeyword ∧ fault.cause = .expected what (Token.newlineAt place)

/-- A failure of the scanner is none of a malformed script. -/
theorem Reader.Halts.nearEnd {failure : Failure} (h : Reader.Halts failure r) :
    failure.NearEnd place := by
  obtain ⟨fault, rfl, -, hc, -⟩ := h
  rintro _ ⟨⟩ hm
  rw [hc] at hm
  cases hm

namespace Reader

/-- Two readers that see the same, the second one with more text to read, and have not
come to the end of the first script, which is at the given place. -/
structure Coupled (more : List Char) (place : Position) (r r' : Reader) : Prop where
  live : r.Live
  live' : r'.Live
  scanner : r'.scanner = r.scanner.extend more
  place : r.scanner.endPosition = place
  goesOn : r.token.kind ≠ .endOfInput

/-- Coupled readers outside a command. -/
structure Tied (more : List Char) (place : Position) (r r' : Reader) : Prop extends
    Coupled more place r r' where
  plain : r.scanner.mode = .sigil → r.token.kind = .sigil

/-- A reader that has nothing left to read but its look-ahead. -/
structure Late (place : Position) (r : Reader) : Prop where
  live : r.Live
  spent : r.scanner.Spent
  place : r.scanner.position = place

/-- A reader that sees the end of its script. -/
structure Over (place : Position) (r : Reader) : Prop extends Late place r where
  ended : r.scanner.Ended

/-- Two readers of which the first sees the last word of its script, and the second one
no separator. -/
structure Touching (place : Position) (r r' : Reader) : Prop where
  late : r.Late place
  live' : r'.Live
  word : r.token.kind = .word
  apart : r'.token.kind ≠ .semicolon

/-- Whether a fault has been met is a matter of the scanner. -/
theorem Live.congr (h : r.Live) (he : r₁.scanner = r.scanner) : r₁.Live := by
  obtain ⟨s, hs⟩ := h
  exact ⟨s, he.trans hs.scanner, hs.valid, hs.live, hs.sound⟩

/-- So is whether the end of the script is seen. -/
theorem Over.congr (h : r.Over place) (he : r₁.scanner = r.scanner) : r₁.Over place :=
  ⟨⟨h.live.congr he, he ▸ h.spent, he ▸ h.place⟩, he ▸ h.ended⟩

/-- So is whether the last word is ahead. -/
theorem Touching.congr (h : Touching place r r') (he : r₁.scanner = r.scanner)
    (he' : r₁'.scanner = r'.scanner) : Touching place r₁ r₁' := by
  have ht : r₁.token = r.token := congrArg Scanner.token he
  have ht' : r₁'.token = r'.token := congrArg Scanner.token he'
  exact ⟨⟨h.late.live.congr he, he ▸ h.late.spent, he ▸ h.late.place⟩, h.live'.congr he',
    ht ▸ h.word, ht' ▸ h.apart⟩

/-- And so is whether two readers are tied. -/
theorem Tied.congr (h : Tied more place r r') (he : r₁.scanner = r.scanner)
    (he' : r₁'.scanner = r'.scanner) : Tied more place r₁ r₁' := by
  have ht : r₁.token = r.token := congrArg Scanner.token he
  exact ⟨⟨h.live.congr he, h.live'.congr he', by rw [he', he, h.scanner], he ▸ h.place,
    ht ▸ h.goesOn⟩, by rw [he, ht]; exact h.plain⟩

/-- Coupled readers see the same token. -/
theorem Coupled.token_eq (h : Coupled more place r r') : r'.token = r.token := by
  rw [Reader.token, h.scanner]
  rfl

/-- At the end of a script the look-ahead is the end of input, or the line break that the
end stands for. -/
theorem Over.token (h : r.Over place) :
    r.token = Token.endAt place ∨ r.token = Token.newlineAt place :=
  h.place ▸ h.ended.token

/-- At the end of a script the look-ahead is the end of input or a separator. -/
theorem Over.kind (h : r.Over place) :
    r.token.kind = .endOfInput ∨ r.token.kind = .semicolon := by
  rcases h.token with ht | ht <;> rw [ht]
  · exact .inl rfl
  · exact .inr rfl

/-- **A reader that passes the last token sees the end.** -/
theorem Late.passes {begins : Bool} (h : r.Late place) (hk : r.token.kind ≠ .endOfInput)
    (hp : r.Passes begins r₁) : r₁.Over place := by
  obtain ⟨s, hs⟩ := h.live
  have h₁ := hs.of_passes hk hp
  rw [← hs.scanner] at h₁
  have hspent : (r.scanner.ask begins).Spent := ⟨h.spent.rest, h.spent.marker⟩
  have hended := hspent.step (step_look h₁.live) h₁.sound
  have hplace : (r.scanner.ask begins).look.position = place := by
    rw [← hended.spent.endPosition, (onward_look _).endPosition, hspent.endPosition]
    exact h.place
  rw [← h₁.scanner] at hended hplace
  exact ⟨⟨⟨_, h₁⟩, hended.spent, hplace⟩, hended⟩

/-- **Where two readers stand that have looked at the same place**, the second one with more
text to read: they are coupled, or the end of the first script has come into play. -/
theorem At.extended (h : r.At s) (h' : r'.At (s.extend more)) (hplace : s.endPosition = place) :
    (Coupled more place r r' ∧
        (s.mode ≠ .sigil → r.scanner.mode = .sigil → r.token.kind = .sigil)) ∨
      r.Over place ∨ Touching place r r' ∨ (r.Late place ∧ s.mode = .sigil) := by
  have hend : r.scanner.endPosition = place := by
    rw [h.scanner, (onward_look s).endPosition, hplace]
  have hlate : r.scanner.Spent → r.Late place := fun hspent =>
    ⟨⟨s, h⟩, hspent, hspent.endPosition.symm.trans hend⟩
  rcases extends_look h.live h.sound more with ⟨step, hk⟩ | ended | ⟨spent, hk, -, apart⟩ |
    ⟨spent, -, hm⟩
  · refine .inl ⟨⟨⟨s, h⟩, ⟨_, h'⟩, ?_, hend, h.token_eq ▸ hk⟩, fun hm hm₁ => ?_⟩
    · rw [h'.scanner, Extends.look_eq h.live step, h.scanner]
    · rw [h.scanner] at hm₁
      exact h.token_eq ▸ (step_look h.live).kind_of_sigil hm hm₁
  · rw [← h.scanner] at ended
    exact .inr (.inl ⟨hlate ended.spent, ended⟩)
  · rw [← h.scanner] at spent
    exact .inr (.inr (.inl ⟨hlate spent, ⟨_, h'⟩, h.token_eq ▸ hk, h'.token_eq ▸ apart⟩))
  · rw [← h.scanner] at spent
    exact .inr (.inr (.inr ⟨hlate spent, hm⟩))

/-- **Where coupled readers pass their look-ahead** they stay coupled, or the end of the
first script comes into play. -/
theorem Coupled.passes {begins : Bool} (h : Coupled more place r r') (hp : r.Passes begins r₁)
    (hp' : r'.Passes begins r₁') :
    (Coupled more place r₁ r₁' ∧ (r.scanner.mode ≠ .sigil → r₁.scanner.mode = .sigil →
        r₁.token.kind = .sigil)) ∨
      r₁.Over place ∨ Touching place r₁ r₁' ∨ (r₁.Late place ∧ r.scanner.mode = .sigil) := by
  obtain ⟨s, hs⟩ := h.live
  obtain ⟨s', hs'⟩ := h.live'
  have h₁ := hs.of_passes h.goesOn hp
  have h₁' := hs'.of_passes (h.token_eq ▸ h.goesOn) hp'
  rw [← hs.scanner] at h₁
  rw [← hs'.scanner, h.scanner] at h₁'
  exact h₁.extended h₁' h.place

end Reader

namespace Parse

open Reader

/-- What a step comes to at the end of a script: it sees the end afterwards, with a value
of which something holds, or it fails as may be near the end. -/
inductive Ceases (place : Position) (Q : α → Token → Prop) :
    EStateM.Result Failure Reader α → Prop
  | ok {a : α} {r : Reader} (atEnd : r.Over place) (holds : Q a r.token) : Ceases place Q (.ok a r)
  | error {failure : Failure} {r : Reader} (nearEnd : failure.NearEnd place) :
      Ceases place Q (.error failure r)

/-- What a step comes to on a script and on the same script with more text. -/
inductive Tracks (more : List Char) (place : Position) (Q : α → Token → Prop) :
    EStateM.Result Failure Reader α → EStateM.Result Failure Reader α → Prop
  | tied {a : α} {r r' : Reader} (tied : Tied more place r r') (holds : Q a r.token) :
      Tracks more place Q (.ok a r) (.ok a r')
  | touching {a : α} {r r' : Reader} (touching : Touching place r r') (holds : Q a r.token) :
      Tracks more place Q (.ok a r) (.ok a r')
  | ceases {result result' : EStateM.Result Failure Reader α} (ceases : Ceases place Q result) :
      Tracks more place Q result result'
  | refused {result : EStateM.Result Failure Reader α} {failure : Failure} {r' : Reader} :
      Tracks more place Q result (.error failure r')

/-- A step that more text does not mend, where something holds of the look-ahead. -/
structure Withstands (more : List Char) (place : Position) (P : Token → Prop)
    (Q : α → Token → Prop) (p : Parse α) : Prop where
  atEnd : ∀ ⦃r⦄, r.Over place → P r.token → Ceases place Q (p r)
  touching : ∀ ⦃r r'⦄, Touching place r r' → P r.token → Tracks more place Q (p r) (p r')
  tied : ∀ ⦃r r'⦄, Tied more place r r' → P r.token → Tracks more place Q (p r) (p r')

/-- A step that passes the last word of a script if it finds it ahead. -/
structure Consumes (more : List Char) (place : Position) (P : Token → Prop)
    (Q : α → Token → Prop) (p : Parse α) : Prop extends Withstands more place P Q p where
  late : ∀ ⦃r⦄, r.Late place → r.token.kind = .word → P r.token → Ceases place Q (p r)

section
variable {P P' : Token → Prop} {Q : α → Token → Prop} {Q' : β → Token → Prop} {p : Parse α}
  {f : α → Parse β}

/-- What passes the last word does not depend on how it is continued. -/
theorem Consumes.of_late
    (atEnd : ∀ r : Reader, r.Over place → P r.token → Ceases place Q (p r))
    (late : ∀ r : Reader, r.Late place → r.token.kind = .word → P r.token → Ceases place Q (p r))
    (tied : ∀ r r' : Reader, Tied more place r r' → P r.token →
      Tracks more place Q (p r) (p r')) : Consumes more place P Q p where
  atEnd := atEnd
  late := late
  tied := tied
  touching := fun r _ h hP => .ceases (late r h.late h.word hP)

/-- Where no word is ahead none need be passed. -/
theorem Withstands.consumes (h : Withstands more place P Q p) (hP : ∀ t, P t → t.kind ≠ .word) :
    Consumes more place P Q p where
  toWithstands := h
  late := fun r _ hk hp => absurd hk (hP r.token hp)

/-- What withstands more text does so where more is known of the look-ahead. -/
theorem Withstands.weaken (h : Withstands more place P Q p) (hP : ∀ t, P' t → P t) :
    Withstands more place P' Q p where
  atEnd := fun _ hr hp => h.atEnd hr (hP _ hp)
  touching := fun _ _ hr hp => h.touching hr (hP _ hp)
  tied := fun _ _ hr hp => h.tied hr (hP _ hp)

/-- What passes the last word does so where more is known of the look-ahead. -/
theorem Consumes.weaken (h : Consumes more place P Q p) (hP : ∀ t, P' t → P t) :
    Consumes more place P' Q p where
  toWithstands := h.toWithstands.weaken hP
  late := fun _ hr hk hp => h.late hr hk (hP _ hp)

/-- One step after another ceases if both do. -/
theorem Ceases.bind (hp : Ceases place Q (p r))
    (hf : ∀ a r₁, p r = .ok a r₁ → r₁.Over place → Q a r₁.token → Ceases place Q' (f a r₁)) :
    Ceases place Q' ((p >>= f) r) := by
  change Ceases place Q' (EStateM.bind p f r)
  rw [EStateM.bind]
  generalize p r = result at hp hf ⊢
  cases hp with
  | ok atEnd holds => exact hf _ _ rfl atEnd holds
  | error nearEnd => exact .error nearEnd

/-- One step after another is tracked if both are, however the readers stand in between. -/
theorem Tracks.bind (hp : Tracks more place Q (p r) (p r'))
    (hover : ∀ a r₁, p r = .ok a r₁ → r₁.Over place → Q a r₁.token → Ceases place Q' (f a r₁))
    (htouching : ∀ a r₁ r₁', p r = .ok a r₁ → Touching place r₁ r₁' → Q a r₁.token →
      Tracks more place Q' (f a r₁) (f a r₁'))
    (htied : ∀ a r₁ r₁', p r = .ok a r₁ → Tied more place r₁ r₁' → Q a r₁.token →
      Tracks more place Q' (f a r₁) (f a r₁')) :
    Tracks more place Q' ((p >>= f) r) ((p >>= f) r') := by
  change Tracks more place Q' (EStateM.bind p f r) (EStateM.bind p f r')
  rw [EStateM.bind, EStateM.bind]
  generalize p r = result, p r' = result' at hp hover htouching htied
  cases hp with
  | tied tied holds => exact htied _ _ _ rfl tied holds
  | touching touching holds => exact htouching _ _ _ rfl touching holds
  | ceases ceases =>
    refine .ceases ?_
    cases ceases with
    | ok atEnd holds => exact hover _ _ rfl atEnd holds
    | error nearEnd => exact .error nearEnd
  | refused => exact .refused

/-- What is done with a value makes no difference to how a step ceases. -/
theorem Ceases.map {g : α → β} (hp : Ceases place Q (p r)) (hg : ∀ a t, Q a t → Q' (g a) t) :
    Ceases place Q' ((g <$> p) r) := by
  rw [← bind_pure_comp]
  exact hp.bind fun a _ _ atEnd holds => .ok atEnd (hg a _ holds)

/-- What is done with a value makes no difference to how a step is tracked. -/
theorem Tracks.map {g : α → β} (hp : Tracks more place Q (p r) (p r'))
    (hg : ∀ a t, Q a t → Q' (g a) t) : Tracks more place Q' ((g <$> p) r) ((g <$> p) r') := by
  rw [← bind_pure_comp]
  exact hp.bind (fun a _ _ atEnd holds => .ok atEnd (hg a _ holds))
    (fun a _ _ _ touching holds => .touching touching (hg a _ holds))
    (fun a _ _ _ tied holds => .tied tied (hg a _ holds))

/-- **One step after another withstands more text if both do.** -/
theorem Withstands.bind (hp : Withstands more place P Q p)
    (hf : ∀ a, Withstands more place (Q a) Q' (f a)) : Withstands more place P Q' (p >>= f) where
  atEnd := fun _ h hP => (hp.atEnd h hP).bind fun a _ _ atEnd => (hf a).atEnd atEnd
  touching := fun _ _ h hP => (hp.touching h hP).bind (fun a _ _ atEnd => (hf a).atEnd atEnd)
    (fun a _ _ _ touching => (hf a).touching touching) (fun a _ _ _ tied => (hf a).tied tied)
  tied := fun _ _ h hP => (hp.tied h hP).bind (fun a _ _ atEnd => (hf a).atEnd atEnd)
    (fun a _ _ _ touching => (hf a).touching touching) (fun a _ _ _ tied => (hf a).tied tied)

/-- It passes the last word if the first step does. -/
theorem Consumes.bind (hp : Consumes more place P Q p)
    (hf : ∀ a, Withstands more place (Q a) Q' (f a)) : Consumes more place P Q' (p >>= f) where
  toWithstands := hp.toWithstands.bind hf
  late := fun _ h hk hP => (hp.late h hk hP).bind fun a _ _ atEnd => (hf a).atEnd atEnd

/-- To see the look-ahead is no step. -/
theorem Consumes.token_bind {f : Token → Parse β}
    (h : ∀ t, Consumes more place (fun u => u = t ∧ P u) Q' (f t)) :
    Consumes more place P Q' (token >>= f) := by
  refine .of_late (fun r hr hP => (h r.token).atEnd hr ⟨rfl, hP⟩)
    (fun r hr hk hP => (h r.token).late hr hk ⟨rfl, hP⟩) fun r r' hr hP => ?_
  have htied := (h r.token).tied hr ⟨rfl, hP⟩
  change Tracks more place Q' (f r.token r) (f r'.token r')
  rwa [hr.token_eq]

/-- To give a value withstands more text. -/
theorem withstands_pure {a : α} (hQ : ∀ t, P t → Q a t) : Withstands more place P Q (pure a) where
  atEnd := fun _ h hP => .ok h (hQ _ hP)
  touching := fun _ _ h hP => .touching h (hQ _ hP)
  tied := fun _ _ h hP => .tied h (hQ _ hP)

/-- To note that a statement is complete withstands more text. -/
theorem withstands_complete (stmt : Stmt) :
    Withstands more place P (fun _ _ => True) (complete stmt) where
  atEnd := fun _ h _ => .ok (h.congr rfl) trivial
  touching := fun _ _ h _ => .touching (h.congr rfl rfl) trivial
  tied := fun _ _ h _ => .tied (h.congr rfl rfl) trivial

/-- The look-ahead of a reader without a fault is passed, or the scanner halts. -/
theorem advance_cases (h : r.Live) (hk : r.token.kind ≠ .endOfInput) (begins : Bool) :
    (∃ r₁, r.Passes begins r₁) ∨
      ∃ failure r₁, advance begins r = .error failure r₁ ∧ Halts failure r₁ := by
  obtain ⟨s, hs⟩ := h
  have hp := proceeds_advance hs hk begins
  cases ha : advance begins r with
  | ok found r₁ => exact .inl ⟨r₁, (advance_eq_ok_iff.1 ha).1⟩
  | error failure r₁ => exact .inr ⟨failure, r₁, rfl, (hp.of_error ha).2⟩

/-- A reader that passes its last token sees the end of its script. -/
theorem ceases_advance (h : r.Late place) (hk : r.token.kind ≠ .endOfInput) (begins : Bool) :
    Ceases place (fun _ _ => True) (advance begins r) := by
  rcases advance_cases h.live hk begins with ⟨r₁, hp⟩ | ⟨failure, r₁, he, hhalts⟩
  · rw [advance_eq_ok_iff.2 ⟨hp, rfl⟩]
    exact .ok (h.passes hk hp) trivial
  · rw [he]
    exact .error hhalts.nearEnd

/-- **To pass a token is to withstand more text**, but for a sigil. -/
theorem consumes_advance (begins : Bool) :
    Consumes more place (fun t => t.kind ≠ .sigil) (fun _ _ => True) (advance begins) := by
  refine .of_late (fun r h _ => ?_) (fun r h hk _ => ceases_advance h (hk ▸ nofun) begins)
    fun r r' h hk => ?_
  · by_cases hend : r.token.kind = .endOfInput
    · obtain ⟨s, hs⟩ := h.live
      have hscan : r.scanner.scan begins = r.scanner := by
        refine scan_of_done ?_ begins
        rw [hs.scanner]
        exact (done_look_iff hs.live).2 (hs.token_eq ▸ hend)
      simp only [advance, hscan, hs.fault_eq_none]
      exact .ok (h.congr rfl) trivial
    · exact ceases_advance h.toLate hend begins
  · rcases advance_cases h.live h.goesOn begins with ⟨r₁, hp⟩ | ⟨failure, r₁, he, hhalts⟩
    · rcases advance_cases h.live' (h.token_eq ▸ h.goesOn) begins with ⟨r₁', hp'⟩ | ⟨_, r₁', he', -⟩
      · have ha' := advance_eq_ok_iff.2 ⟨hp', rfl⟩
        rw [advance_eq_ok_iff.2 ⟨hp, rfl⟩, ha', h.token_eq]
        have hmode : r.scanner.mode ≠ .sigil := fun hm => hk (h.plain hm)
        rcases h.passes hp hp' with ⟨coupled, plain⟩ | atEnd | touching | ⟨-, hm⟩
        · exact .tied ⟨coupled, plain hmode⟩ trivial
        · exact .ceases (.ok atEnd trivial)
        · exact .touching touching trivial
        · exact absurd hm hmode
      · rw [he']
        exact .refused
    · rw [he]
      exact .ceases (.error hhalts.nearEnd)

/-- What is refused on the longer script is not accepted there. -/
theorem consumes_refuse {cause : Cause} (hword : ∀ t, P t → t.kind ≠ .word)
    (hnewline : ∀ t, P t → t.kind = .semicolon →
      ∃ what : Expectation, what.AfterKeyword ∧ cause = .expected what t) :
    Consumes more place P Q (refuse cause) := by
  refine .of_late (fun r h hP => .error ?_) (fun r _ hk hP => absurd hk (hword _ hP))
    fun _ _ _ _ => .refused
  rintro _ ⟨⟩ hm -
  rcases h.token with ht | ht
  · rw [Fault.atToken, ht] at hm
    cases hm
  · obtain ⟨what, hw, rfl⟩ := hnewline _ hP (by rw [ht]; rfl)
    rw [ht]
    exact ⟨rfl, what, hw, rfl⟩

/-- A word that is needed is passed where it is the last one, too. -/
theorem consumes_expect_word {what : Expectation}
    (hw : ∀ t, P t → t.kind = .semicolon → what.AfterKeyword) :
    Consumes more place P (fun _ _ => True) (expect .word what) := by
  refine Consumes.token_bind fun found => ?_
  split
  · next hk => exact (consumes_advance false).weaken fun t ht => by rw [ht.1, hk]; nofun
  · next hk =>
    refine consumes_refuse (fun t ht => ht.1 ▸ hk) fun t ht hs => ⟨what, hw t ht.2 hs, ?_⟩
    rw [ht.1]

/-- A separator that is needed is there on both scripts or missing on both; the end of the
script stands for one if it can. -/
theorem withstands_expect_semicolon {what : Expectation} :
    Withstands more place P (fun _ _ => True) (expect .semicolon what) := by
  have hrefuse : ∀ {r : Reader}, r.token.kind ≠ .semicolon →
      expect .semicolon what r = refuse (.expected what r.token) r := fun {r} hk => by
    change (if r.token.kind = .semicolon then advance false
      else refuse (.expected what r.token) : Parse Token) r = _
    rw [if_neg hk]
  refine ⟨fun r h _ => ?_, fun r r' h _ => ?_, fun r r' h _ => ?_⟩
  · by_cases hk : r.token.kind = .semicolon
    · rw [expect_of_kind hk]
      exact ceases_advance h.toLate (hk ▸ nofun) false
    · have hend := h.kind.resolve_right hk
      rw [hrefuse hk]
      have hconsumes : Consumes more place (fun t => t.kind = .endOfInput) (fun _ _ => True)
          (refuse (.expected what r.token) : Parse Token) :=
        consumes_refuse (fun t ht => ht ▸ nofun) fun t ht hs => by rw [ht] at hs; cases hs
      exact hconsumes.atEnd h hend
  · rw [hrefuse h.apart]
    exact .refused
  · by_cases hk : r.token.kind = .semicolon
    · rw [expect_of_kind hk, expect_of_kind (h.token_eq ▸ hk)]
      exact (consumes_advance false).tied h (hk ▸ nofun)
    · rw [hrefuse (r := r') (h.token_eq ▸ hk)]
      exact .refused

end

/-- What is done with a value makes no difference to whether the last word is passed. -/
theorem Consumes.map {P : Token → Prop} {Q : α → Token → Prop} {Q' : β → Token → Prop}
    {p : Parse α} {g : α → β} (hp : Consumes more place P Q p) (hg : ∀ a t, Q a t → Q' (g a) t) :
    Consumes more place P Q' (g <$> p) where
  atEnd := fun _ h hP => (hp.atEnd h hP).map hg
  late := fun _ h hk hP => (hp.late h hk hP).map hg
  touching := fun _ _ h hP => (hp.touching h hP).map hg
  tied := fun _ _ h hP => (hp.tied h hP).map hg

section
variable {p : Parse α} {goes : Token → Bool}
  (hmoves : ∀ r : Reader, r.Live → goes r.token = true →
    Proceeds p r (fun _ => r.Advances) Reader.Stops)
include hmoves

/-- A repetition that goes on takes its step and goes on from there. -/
theorem manyWhile_eq_bind (h : r.Live) (hgoes : goes r.token = true) :
    manyWhile goes p r = (p >>= fun a => (a :: ·) <$> manyWhile goes p) r := by
  change _ = EStateM.bind p _ r
  rw [EStateM.bind]
  cases hr : p r with
  | ok a r₁ => exact manyWhile_of_ok hgoes hr ((hmoves r h hgoes).of_ok hr).2.lt
  | error failure r₁ => rw [manyWhile, if_pos hgoes, hr]

variable (hp : Consumes more place (fun t => goes t = true) (fun _ _ => True) p)
include hp

/-- A repetition at the end of a script, or at a last word that it does not stop before,
comes to the end. -/
theorem Consumes.ceases_manyWhile
    (h : r.Over place ∨ r.Late place ∧ r.token.kind = .word ∧ goes r.token = true) :
    Ceases place (fun _ t => goes t = false) (manyWhile goes p r) := by
  induction hn : r.scansLeft using Nat.strong_induction_on generalizing r with
  | _ n ih =>
    cases hgoes : goes r.token with
    | false =>
      rw [manyWhile_of_not_more hgoes]
      rcases h with h | ⟨-, -, hgoes'⟩
      · exact .ok h hgoes
      · exact absurd (hgoes.symm.trans hgoes') Bool.false_ne_true
    | true =>
      have hlive : r.Live := h.elim (·.live) (·.1.live)
      have hstep := h.elim (hp.atEnd · hgoes) fun ⟨late, hk, _⟩ => hp.late late hk hgoes
      rw [manyWhile_eq_bind hmoves hlive hgoes]
      refine hstep.bind fun a r₁ hok atEnd _ => ?_
      have hlt := ((hmoves r hlive hgoes).of_ok hok).2.lt
      exact (ih _ (hn ▸ hlt) (.inl atEnd) rfl).map fun _ _ => id

variable (hword : ∀ t t' : Token, t.kind = .word → t'.kind ≠ .semicolon → goes t = false →
    goes t' = false)
include hword

/-- A repetition at the last word passes it, or ends there on the longer script too. -/
theorem Consumes.touching_manyWhile (h : Touching place r r') :
    Tracks more place (fun _ t => goes t = false) (manyWhile goes p r) (manyWhile goes p r') := by
  cases hgoes : goes r.token with
  | true => exact .ceases (hp.ceases_manyWhile hmoves (.inr ⟨h.late, h.word, hgoes⟩))
  | false =>
    rw [manyWhile_of_not_more hgoes, manyWhile_of_not_more (hword _ _ h.word h.apart hgoes)]
    exact .touching h hgoes

/-- A repetition of tied readers is tracked. -/
theorem Consumes.tied_manyWhile (h : Tied more place r r') :
    Tracks more place (fun _ t => goes t = false) (manyWhile goes p r) (manyWhile goes p r') := by
  induction hn : r.scansLeft using Nat.strong_induction_on generalizing r r' with
  | _ n ih =>
    cases hgoes : goes r.token with
    | false =>
      rw [manyWhile_of_not_more hgoes, manyWhile_of_not_more (h.token_eq ▸ hgoes)]
      exact .tied h hgoes
    | true =>
      rw [manyWhile_eq_bind hmoves h.live hgoes,
        manyWhile_eq_bind hmoves h.live' (h.token_eq ▸ hgoes)]
      refine (hp.tied h hgoes).bind ?_ ?_ ?_
      · exact fun a r₁ _ atEnd _ => (hp.ceases_manyWhile hmoves (.inl atEnd)).map fun _ _ => id
      · exact fun a r₁ r₁' _ touching _ =>
          (hp.touching_manyWhile hmoves hword touching).map fun _ _ => id
      · intro a r₁ r₁' hok tied _
        have hlt := ((hmoves r h.live hgoes).of_ok hok).2.lt
        exact (ih _ (hn ▸ hlt) tied rfl).map fun _ _ => id

/-- **A repetition withstands more text if its step passes the last word.** -/
theorem Consumes.manyWhile {P : Token → Prop} :
    Withstands more place P (fun _ t => goes t = false) (manyWhile goes p) where
  atEnd := fun _ h _ => hp.ceases_manyWhile hmoves (.inl h)
  touching := fun _ _ h _ => hp.touching_manyWhile hmoves hword h
  tied := fun _ _ h _ => hp.tied_manyWhile hmoves hword h

end

end Parse
end RcScript
