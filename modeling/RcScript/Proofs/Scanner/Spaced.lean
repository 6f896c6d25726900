/-
# Spaces between tokens

Spaces that are put behind a word, a semicolon or opening braces change no token of a script
but for its place, unless there is a line break among them and a line list is open
(`sameRun_of_pauses`, `tokens_spaced`).  Up to there the two scripts are the same text before
different tails.  No token before the spaces can reach into what follows them: it would take
along the place where they are put, and so would closing braces that begin before it
(`scans_of_braces`).

The scans before the place are made with the flags that the caller gives, and the same
flags go on behind it, so nothing depends on what a reader would ask.  A line break may be
among the spaces where no line list is open, since it is only a space there; where one is
open it would end the line, and the statement leaves this case out because the tokens are
then not the same.

Three things have to be known of the place where the spaces are put.  No scan before it
reaches into what follows (`length_scans_lt`): a scan ends where the next one begins, and
the place is where one has ended.  The token there is one that spaces may follow; behind a
colon, a sigil or closing braces a line break would be read as something else, and the
text of a command would take the spaces along.  And what ends there would end before a
space as well, which is so for words because a space ends a word, and for braces and
semicolons because nothing has to end them.

From the place on both scanners have the same text left, behind different spaces.  The next
look skips these, and from then on the runs are the same (`Tailed.sameRun`), whatever else
the script holds and whether or not it ends in a fault.
-/

import RcScript.Proofs.Scanner.Tails
import RcScript.Proofs.Scanner.Located
import Mathlib

namespace RcScript
namespace Scanner

variable {s s' t : Scanner} {x v w : List Char}

/-- A scanner that has read a token which spaces may follow, and reads any token next. -/
structure Pauses (s : Scanner) : Prop where
  token : s.token.Spaceable
  mode : s.mode = .normal
  owed : s.owed = 0

/-- A scanner that pauses has not come to the end. -/
theorem Pauses.kind_ne (h : s.Pauses) : s.token.kind ≠ .endOfInput := by
  rcases h.token with hk | hk | ⟨hk, -⟩ <;> rw [hk] <;> nofun

/-! ### How far a scan goes -/

/-- A word, a semicolon or braces are read from what is left. -/
theorem Step.length_lt (step : Step s t) (hk : t.token.Spaceable) :
    t.rest.length < s.rest.length := by
  have hskip : ∀ u : Scanner, u.skip.rest.length ≤ u.rest.length := fun u =>
    length_skipWhile_le _ u
  have hblanks : s.resume.skipBlanks.rest.length ≤ s.rest.length := length_skipBlanks_le s.resume
  have hbraces : ∀ {cs}, s.resume.skipBlanks.rest = '{' :: '{' :: cs →
      (s.resume.skipBlanks.forward 2).rest.length < s.rest.length := fun hr =>
    Nat.lt_of_lt_of_le (length_forward_lt (by decide) (hr ▸ List.cons_ne_nil _ _)) hblanks
  cases step with
  | owed => rcases hk with hk | hk | ⟨-, hk⟩ <;> simp [Token.newlineAt] at hk
  | token owed mode read => exact Nat.lt_of_lt_of_le (read.length_lt hk) (hskip s.resume)
  | bracedList owed mode rest => exact hbraces rest
  | lineList owed mode rest read =>
    have hline := rest_skip_openLine s
    exact Nat.lt_of_lt_of_le (read.length_lt hk) (hline ▸ hblanks)
  | block owed mode rest => exact hbraces rest
  | terminator owed mode rest read =>
    exact Nat.lt_of_lt_of_le (read.length_lt hk) (Nat.le_trans (hskip _) hblanks)
  | lineEnd => rcases hk with hk | hk | ⟨-, hk⟩ <;> simp [Token.newlineAt] at hk
  | noCommand | openCommand | command | openBlock | blockText | stray =>
    rcases hk with hk | hk | ⟨hk, -⟩ <;> cases hk

/-- A scanner that comes to pause goes on. -/
theorem Valid.live_of_pauses (h : s.Valid) {flags : List Bool} (hp : (s.scans flags).Pauses) :
    s.done = false := by
  by_contra hd
  rw [Bool.not_eq_false] at hd
  rw [scans_of_done hd] at hp
  exact hp.kind_ne (congrArg Token.kind (h.ended hd))

/-- Before a scanner pauses, more was left. -/
theorem length_scans_lt (begins : Bool) (flags : List Bool)
    (hp : (s.scans (begins :: flags)).Pauses) (hs : s.Valid) :
    (s.scans (begins :: flags)).rest.length < s.rest.length := by
  induction flags generalizing s begins with
  | nil =>
    have hd : s.done = false := hs.live_of_pauses hp
    change (s.scan begins).rest.length < _
    rw [← look_ask hd]
    refine (step_look (s := s.ask begins) hd).length_lt ?_
    rw [look_ask hd]
    exact hp.token
  | cons next flags ih =>
    have hlt := ih next hp (hs.scan begins)
    exact Nat.lt_of_lt_of_le hlt (onward_scan begins s).length_le

/-- Closing braces are read as such, where any token may be read. -/
theorem TokenRead.rest_of_closeBraces {begins : Bool} {token : Token} {after : Scanner}
    {cs : List Char} (read : TokenRead begins s token after)
    (hr : s.skip.rest = '}' :: '}' :: cs) : after.rest = cs := by
  obtain ⟨-, rfl⟩ := read.unique (.closeBraces hr)
  rw [rest_closeBraces]
  change (s.skip.forward 2).rest = cs
  rw [rest_forward, hr]
  rfl

/-- A step leaves closing braces where they are, or goes past both. -/
theorem Step.rest_of_braces {cs : List Char} (step : Step s t) (hr : s.rest = '}' :: '}' :: cs) :
    t.rest = '}' :: '}' :: cs ∨ t.rest.length ≤ cs.length := by
  have hspace : Text.isSpace '}' = false := by decide
  have hb : s.resume.skipBlanks.rest = '}' :: '}' :: cs := rest_skipBlanks hr hspace
  have hne : ∀ {c tail}, s.resume.skipBlanks.rest = c :: tail → c ≠ '}' → False := fun hc h =>
    h (List.cons_eq_cons.1 (hc.symm.trans hb)).1
  have hend : ¬(s.resume.skipBlanks.rest = [] ∨
      ∃ tail, s.resume.skipBlanks.rest = '\n' :: tail) := by
    rintro (hc | ⟨tail, hc⟩)
    · exact List.cons_ne_nil _ _ (hb.symm.trans hc)
    · exact hne hc (by decide)
  cases step with
  | owed => exact .inl hr
  | token owed mode read =>
    exact .inr (Nat.le_of_eq (congrArg List.length
      (read.rest_of_closeBraces (rest_skip (s := s.resume) hr hspace))))
  | bracedList owed mode rest => exact absurd (hne rest (by decide)) not_false
  | lineList owed mode rest read =>
    exact .inr (Nat.le_of_eq (congrArg List.length
      (read.rest_of_closeBraces ((rest_skip_openLine s).trans hb))))
  | block owed mode rest => exact absurd (hne rest (by decide)) not_false
  | noCommand owed mode rest => exact absurd rest hend
  | openCommand =>
    refine .inr ?_
    change (s.resume.skipBlanks.forward _).rest.length ≤ _
    rw [rest_forward, List.drop_length]
    exact Nat.zero_le _
  | @command text owed mode rest opens space found =>
    have htext : 2 ≤ text.length := by
      rw [hb, Lexeme.commandText_cons (by decide) (by decide),
        Lexeme.commandText_cons (by decide) (by decide), Option.map_map] at found
      obtain ⟨after, -, rfl⟩ := Option.map_eq_some_iff.1 found
      simp
    refine .inr ?_
    change ((s.resume.skipBlanks.forward text.length).endLine 1).rest.length ≤ _
    rw [rest_endLine, List.length_drop, rest_forward, hb, List.length_drop, List.length_cons,
      List.length_cons]
    omega
  | openBlock => exact .inl hr
  | blockText owed mode found =>
    have hbraces : s.resume.rest = '}' :: '}' :: cs := hr
    rw [hbraces] at found
    obtain rfl := Option.some.inj found
    exact .inl hr
  | terminator owed mode rest read => exact absurd (hne rest (by decide)) not_false
  | lineEnd owed mode rest => exact absurd rest hend
  | stray => exact .inl hb

/-- **No scan stops between closing braces.** -/
theorem scans_of_braces {cs : List Char} (flags : List Bool)
    (h : s.rest = '}' :: '}' :: cs ∨ s.rest.length ≤ cs.length) :
    (s.scans flags).rest ≠ '}' :: cs := by
  induction flags generalizing s with
  | nil =>
    intro hr
    have hlen : s.rest.length = cs.length + 1 := congrArg List.length hr
    rcases h with h | h
    · rw [h, List.length_cons, List.length_cons] at hlen
      omega
    · omega
  | cons begins flags ih =>
    refine ih (s := s.scan begins) ?_
    rcases h with h | h
    · cases hd : s.done with
      | true =>
        rw [scan_of_done hd]
        exact .inl h
      | false =>
        rw [← look_ask hd]
        exact (step_look (s := s.ask begins) hd).rest_of_braces h
    · exact .inr (Nat.le_trans (onward_scan begins s).length_le h)

/-! ### Two runs -/

/-- Without flags the scanner is asked with none raised. -/
theorem tokens_nil (s : Scanner) : s.tokens [] = s.tokens [false] := by
  rw [tokens.eq_def [] s, tokens.eq_def [false] s]
  rfl

/-- Tokens listed from two scanners are the same if the first two are, and those after. -/
theorem SameRun.of_look {begins : Bool} {flags : List Bool} (hs : s.Valid) (hs' : s'.Valid)
    (hk : s.look.token.kind ≠ .endOfInput) (hkind : s'.look.token.kind = s.look.token.kind)
    (htext : s'.look.token.text = s.look.token.text)
    (h : SameRun ((s.look.ask begins).look.tokens flags) ((s'.look.ask begins).look.tokens flags)) :
    SameRun (s.look.tokens (begins :: flags)) (s'.look.tokens (begins :: flags)) := by
  rw [hs.tokens_look hk, hs'.tokens_look (hkind ▸ hk)]
  exact h.cons hkind htext

/-- Before spaces that separate tokens a scanner reads what comes after them. -/
theorem Tailed.look_of_spaces (h : Tailed [] v (w ++ v) s s') (hp : s.Pauses)
    (hd : s.done = false) (hf : s.fault = none)
    (hw : ∀ c ∈ w, (if s.lineLists = 0 then Text.isSpace else Text.isBlank) c = true) :
    s'.look.token.kind = s.look.token.kind ∧ s'.look.token.text = s.look.token.text ∧
      Tailed s.look.rest [] [] s.look s'.look := by
  have hf' : s'.fault = none := by
    rw [← Option.isNone_iff_eq_none, ← Option.not_isSome, h.fault, hf]
    rfl
  have hpoised : Poised .normal 0 s.lineLists s.saved s' :=
    ⟨h.level.mode.trans hp.mode, h.level.owed.trans hp.owed, h.level.lists, h.level.saved,
      h.level.done.trans hd, hf'⟩
  have hforward : Tailed v [] [] s (s'.forward w.length) :=
    { h with
      level := { h.level with }
      rest := h.rest.trans (List.append_nil v).symm
      rest' := by rw [rest_forward, h.rest', List.nil_append, List.drop_left, List.append_nil] }
  have hrest' : s'.rest = w ++ v := h.rest'
  rw [← hpoised.look_forward hrest' hw]
  exact hforward.look hd (List.append_nil _).symm (.inl ⟨rfl, rfl⟩)

/-- Where more than the tail is left, some of the text is. -/
theorem Tailed.exists_rest_look {v' : List Char} (h : Tailed x v v' s s')
    (hlt : v.length < s.look.rest.length) : ∃ y, s.look.rest = y ++ v ∧ y ≠ [] := by
  obtain ⟨k, hk⟩ := (onward_look s).cursor
  have hr : s.look.rest = (x ++ v).drop k := by
    have hdrop : s.look.cursor.rest = s.cursor.rest.drop k := by rw [hk, Cursor.rest_forward]
    exact hdrop.trans (congrArg (List.drop k) h.rest)
  have hle : k < x.length := by
    rw [hr, List.length_drop, List.length_append] at hlt
    omega
  refine ⟨x.drop k, by rw [hr, List.drop_append_of_le_length (Nat.le_of_lt hle)], fun he => ?_⟩
  exact Nat.not_le_of_lt hle (List.drop_eq_nil_iff.1 he)

/-- **The run goes on alike behind spaces** that are put where the scanner pauses. -/
theorem sameRun_of_pauses {front : List Bool} (back : List Bool)
    (h : Tailed x v (w ++ v) s s') (hs : s.Valid) (hs' : s'.Valid) (hd : s.done = false)
    (hp : (s.look.scans front).Pauses) (hr : (s.look.scans front).rest = v) (hne : w ≠ [])
    (hw : ∀ c ∈ w, Text.isSpace c = true)
    (hline : '\n' ∈ w → (s.look.scans front).lineLists = 0) :
    SameRun (s.look.tokens (front ++ back)) (s'.look.tokens (front ++ back)) := by
  induction front generalizing x s s' with
  | nil =>
    have hk : s.look.token.kind ≠ .endOfInput := hp.kind_ne
    have hlive := hs.look.not_done hk
    have hf := hs.look.fault_eq_none hlive
    have hhead : ∃ c ∈ (w ++ v).head?, Text.isSpace c = true := by
      obtain ⟨c, w, rfl⟩ := List.exists_cons_of_ne_nil hne
      exact ⟨c, rfl, hw c (.head _)⟩
    obtain ⟨hkind, htext, h'⟩ := h.look (y := []) hd hr
      (.inr ⟨hf, Lexeme.endAlike_of_isSpace hhead, .inr ⟨hp.mode, hp.token⟩⟩)
    have hpass : ∀ c ∈ w,
        (if s.look.lineLists = 0 then Text.isSpace else Text.isBlank) c = true := by
      intro c hc
      split
      · exact hw c hc
      · next hl =>
        rcases (Text.isSpace_iff c).1 (hw c hc) with hb | rfl
        · exact hb
        · exact absurd (hline hc) hl
    have hback : ∀ begins flags, SameRun (s.look.tokens (begins :: flags))
        (s'.look.tokens (begins :: flags)) := fun begins flags => by
      obtain ⟨hk', ht', hgap⟩ := (h'.ask begins).look_of_spaces
        ⟨hp.token, hp.mode, hp.owed⟩ hlive hf hpass
      exact .of_look hs hs' hk hkind htext (hgap.sameRun hk' ht' flags)
    cases back with
    | nil =>
      rw [List.append_nil, tokens_nil s.look, tokens_nil s'.look]
      exact hback false []
    | cons begins flags => exact hback begins flags
  | cons begins front ih =>
    have hlive : s.look.done = false := hs.look.live_of_pauses hp
    have hk := (done_look_iff hd).not.1 (by simp [hlive])
    have hlt := length_scans_lt begins front hp hs.look
    rw [hr] at hlt
    obtain ⟨y, hy, hyne⟩ := h.exists_rest_look hlt
    have hbraces : y = ['}'] → v.head? ≠ some '}' := by
      -- braces that begin in the text would be passed together
      rintro rfl hv
      obtain ⟨tail, rfl⟩ := List.head?_eq_some_iff.1 hv
      exact scans_of_braces (begins :: front) (.inl hy) hr
    obtain ⟨hkind, htext, h'⟩ := h.look hd hy
      (.inr ⟨hs.look.fault_eq_none hlive, Lexeme.endAlike_append hyne hbraces _, .inl hyne⟩)
    refine .of_look hs hs' hk hkind htext ?_
    have hscan : s.look.scans (begins :: front) = (s.look.ask begins).look.scans front := by
      rw [scans_cons, look_ask hlive]
    rw [hscan] at hp hr hline
    exact ih (h'.ask begins) (hs.look.ask begins) (hs'.look.ask begins) hlive hp hr hline

/-- Scans go on in the script. -/
theorem onward_scans (flags : List Bool) (s : Scanner) : Onward s (s.scans flags) := by
  induction flags generalizing s with
  | nil => exact Onward.refl s
  | cons begins flags ih => exact (onward_scan begins s).trans (ih (s.scan begins))

/-- What is left of a script is what comes after the offset. -/
theorem rest_of_offset {u v filename : String} (h : Onward (ofText (u ++ v) filename) s)
    (ho : s.cursor.offset = u.length) : s.rest = v.toList := by
  have htext : s.cursor.past.reverse ++ s.cursor.rest = u.toList ++ v.toList := by
    rw [← String.toList_append]
    exact h.text_eq
  have hlen : s.cursor.past.reverse.length = u.toList.length := by
    rw [List.length_reverse, String.length_toList]
    exact ho
  exact (List.append_inj htext hlen).2

/-- A fault that a run ends with is lexical. -/
theorem Valid.exists_lexical_iff (hs : s.Valid) (hd : s.done = false) (flags : List Bool) :
    (∃ fault, (s.look.tokens flags).2.fault = some fault ∧ fault.category = .lexical) ↔
      (s.look.tokens flags).2.fault.isSome = true := by
  rw [Option.isSome_iff_exists]
  refine ⟨fun ⟨fault, hf, _⟩ => ⟨fault, hf⟩, fun ⟨fault, hf⟩ => ⟨fault, hf, ?_⟩⟩
  obtain ⟨t, ht, htd, step⟩ := (hs.lists_tokens hd flags).exists_step hs hd
  exact (step.of_fault (ht.fault_eq_none htd) hf).1

/-- **Spaces between tokens are insignificant.**  Let scans of a script, with any flags, have
just read a word, a semicolon that is written in it, or opening braces, and let any token be
next and no marker be owed.  Spaces that are put there, with no line break among them unless
no line list is open, leave all tokens of the script as they are, up to the end of input, but
for their places; and the script ends with a lexical fault just when it did without them. -/
theorem tokens_spaced (u v w filename : String) (first : Bool) (front back : List Bool)
    (hp : (((ofText (u ++ v) filename).scan first).scans front).Pauses)
    (ho : (((ofText (u ++ v) filename).scan first).scans front).cursor.offset = u.length)
    (hw : ∀ c ∈ w.toList, Text.isSpace c = true)
    (hline : '\n' ∈ w.toList →
      (((ofText (u ++ v) filename).scan first).scans front).lineLists = 0) :
    (((ofText (u ++ w ++ v) filename).scan first).tokens (front ++ back)).1.map
          (fun token => (token.kind, token.text)) =
        (((ofText (u ++ v) filename).scan first).tokens (front ++ back)).1.map
          (fun token => (token.kind, token.text)) ∧
      ((∃ fault, (((ofText (u ++ w ++ v) filename).scan first).tokens (front ++ back)).2.fault =
            some fault ∧ fault.category = .lexical) ↔
        ∃ fault, (((ofText (u ++ v) filename).scan first).tokens (front ++ back)).2.fault =
          some fault ∧ fault.category = .lexical) := by
  have hr := rest_of_offset ((onward_scan first _).trans (onward_scans front _)) ho
  have hs : ∀ source, ((ofText source filename).ask first).Valid := fun source =>
    (valid_ofText source filename).ask first
  have hlook : ∀ source, (ofText source filename).scan first =
      ((ofText source filename).ask first).look := fun source => (look_ask rfl first).symm
  rw [hlook] at hp hr hline ⊢
  rw [hlook, (hs _).exists_lexical_iff rfl, (hs _).exists_lexical_iff rfl]
  by_cases hne : w = ""
  · rw [hne, String.append_empty]
    exact ⟨rfl, Iff.rfl⟩
  · have htailed : Tailed u.toList v.toList (w.toList ++ v.toList)
        ((ofText (u ++ v) filename).ask first) ((ofText (u ++ w ++ v) filename).ask first) :=
      { level := ⟨rfl, rfl, rfl, rfl, rfl, rfl⟩
        fault := rfl
        rest := String.toList_append
        rest' := by
          change (u ++ w ++ v).toList = _
          rw [String.toList_append, String.toList_append, List.append_assoc] }
    obtain ⟨htokens, hfault⟩ := sameRun_of_pauses back htailed (hs _) (hs _) rfl hp hr
      (fun h => hne (String.toList_eq_nil_iff.1 h)) hw hline
    exact ⟨htokens, by rw [hfault]⟩

/-- Blanks before the second statement of a line list. -/
theorem tokens_spaced_lineList :
    (((ofText (":a;" ++ "b;") unnamed).scan false).scans [false, false]).Pauses ∧
      (((ofText (":a;" ++ "b;") unnamed).scan false).scans [false, false]).lineLists = 1 ∧
      (((ofText (":a;" ++ " \t" ++ "b;") unnamed).scan false).tokens [false, false]).1.map
          (fun token => (token.kind, token.text)) =
        [(.colon, ":"), (.word, "a"), (.semicolon, ";"), (.word, "b"), (.semicolon, ";"),
          (.semicolon, "\n"), (.endOfInput, "")] ∧
      ¬∃ fault, (((ofText (":a;" ++ " \t" ++ "b;") unnamed).scan false).tokens
        [false, false]).2.fault = some fault ∧ fault.category = .lexical := by
  have hp : (((ofText (":a;" ++ "b;") unnamed).scan false).scans [false, false]).Pauses :=
    ⟨.inr (.inr (by cbv)), by cbv, by cbv⟩
  have hlists : (((ofText (":a;" ++ "b;") unnamed).scan false).scans [false, false]).lineLists =
      1 := rfl
  have htokens : (((ofText (":a;" ++ "b;") unnamed).scan false).tokens [false, false]).1.map
      (fun token => (token.kind, token.text)) =
        [(.colon, ":"), (.word, "a"), (.semicolon, ";"), (.word, "b"), (.semicolon, ";"),
          (.semicolon, "\n"), (.endOfInput, "")] := by cbv
  have hf : (((ofText (":a;" ++ "b;") unnamed).scan false).tokens [false, false]).2.fault =
      none := by cbv
  obtain ⟨hsame, hfault⟩ := tokens_spaced ":a;" "b;" " \t" unnamed false [false, false] [] hp
    (by cbv) (List.all_eq_true.1 rfl) (fun h => absurd h (by decide))
  refine ⟨hp, hlists, hsame.trans htokens, fun h => ?_⟩
  obtain ⟨fault, hsome, -⟩ := hfault.1 h
  exact Option.some_ne_none fault (hsome.symm.trans hf)

end Scanner
end RcScript
