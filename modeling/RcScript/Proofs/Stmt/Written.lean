/-
# Well-formed statements are read as they are written

In front of the canonical text of a well-formed statement a scanner yields tokens
that derive it in the strict grammar, and then it stands in front of what comes
after the text (`Stmt.reads_text`).  The induction follows the tree; what it
carries is that no marker is owed, so that it holds whatever line lists are open.
Only a command on a line at the end of the statement closes them
(`Stmt.endsLine`).

The canonical text of each kind of statement is first written out as a list of characters,
in the form in which a scanner meets it: the lemmas `toList_text_set` and so on are where
the texts of `Stmt.text` are opened, and nothing below them looks at strings.  Then the
parts that occur in several kinds, words, separators, keywords and the heading of a body,
each have one lemma about how they are read, and `reads_text` puts them together along the
tree.

The last lemmas go from statements to scripts.  Items between braces stand behind one
another with a space before each, and the statements of a script stand on lines of their
own; the first have line lists around them and the others do not.  A statement that ends
with a command on a line has used up its line break, and so the next one may stand right
behind it.  `StandsBehind` says both at once: either nothing is owed behind a statement, or
the line has been ended and its markers are to be paid.
-/

import RcScript.Proofs.Scanner.Written

namespace RcScript

/-- Texts behind one another, a separator between any two of them. -/
theorem toList_intercalate_cons {sep first : String} {d : Char} (hd : sep.toList = [d])
    (others : List String) :
    (sep.intercalate (first :: others)).toList =
      first.toList ++ others.flatMap (fun text => d :: text.toList) := by
  rw [String.toList_intercalate, hd, List.map_cons]
  induction others generalizing first with
  | nil => simp
  | cons second others ih =>
    rw [List.map_cons, List.intercalate_cons_cons, ih]
    simp

namespace Stmt

/-- Whether the canonical text of a statement ends with the end of a line. -/
def endsLine : Stmt → Bool
  | .map _ body => endsLine body
  | .cmd _ body => endsLine body
  | .exec _ text => !fitsBlock text
  | _ => false

/-- The text of a setting without a value, character by character. -/
theorem toList_text_switch (option : String) :
    (text (.set option "")).toList = "set".toList ++ ' ' :: (option.toList ++ [';']) := by
  simp [text, String.toList_append]

/-- The text of a setting with a value, character by character. -/
theorem toList_text_set {option value : String} (hv : value ≠ "") :
    (text (.set option value)).toList =
      "set".toList ++ ' ' :: (option.toList ++ ' ' :: (value.toList ++ [';'])) := by
  simp [text, hv, String.toList_append]

/-- The text of a binding: its keys and then its body. -/
theorem toList_text_map (keys : String) (body : Stmt) :
    (text (.map keys body)).toList =
      "map".toList ++ ' ' :: (keys.toList ++ ' ' :: (text body).toList) := by
  simp [text, String.toList_append]

/-- The text of a definition: its name and then its body. -/
theorem toList_text_cmd (name : String) (body : Stmt) :
    (text (.cmd name body)).toList =
      "cmd".toList ++ ' ' :: (name.toList ++ ' ' :: (text body).toList) := by
  simp [text, String.toList_append]

/-- The text of a call: its name and its arguments, a space before each. -/
theorem toList_text_call (name : String) (args : List String) :
    (text (.call name args)).toList =
      name.toList ++ (args.flatMap (fun arg => ' ' :: arg.toList) ++ [';']) := by
  rw [text, String.toList_append, toList_intercalate_cons (d := ' ') rfl, List.append_assoc]
  rfl

/-- The text of a command that a block can hold. -/
theorem toList_text_block {g : Sigil} {command : String} (hf : fitsBlock command = true) :
    (text (.exec g command)).toList =
      g.char :: '{' :: '{' :: (command.toList ++ ['}', '}', ';']) := by
  simp [text, hf, Sigil.text, String.toList_append]

/-- The text of a command that only a line can hold, up to the line break. -/
theorem toList_text_line {g : Sigil} {command : String} (hf : fitsBlock command = false) :
    (text (.exec g command)).toList = g.char :: (command.toList ++ ['\n']) := by
  simp [text, hf, Sigil.text, String.toList_append]

/-- The text of a list: its items between braces, a space before each. -/
theorem toList_text_list (first : Stmt) (others : List Stmt) :
    (text (.list first others)).toList = ':' :: '{' :: '{' :: ' ' :: ((text first).toList ++
      (others.flatMap (fun stmt => ' ' :: (text stmt).toList) ++ [' ', '}', '}', ';'])) := by
  rw [text, String.toList_append, String.toList_append, toList_intercalate_cons (d := ' ') rfl,
    texts_eq_map, List.flatMap_map]
  simp

/-- The text of a well-formed statement begins with something to read. -/
theorem exists_text_eq_cons {stmt : Stmt} (h : stmt.WellFormed) :
    ∃ c cs, (text stmt).toList = c :: cs ∧ Text.isSpace c = false := by
  cases stmt with
  | set option value =>
    by_cases hv : value = ""
    · exact ⟨'s', _, by rw [hv, toList_text_switch]; rfl, by decide⟩
    · exact ⟨'s', _, by rw [toList_text_set hv]; rfl, by decide⟩
  | map keys body => exact ⟨'m', _, by rw [toList_text_map]; rfl, by decide⟩
  | cmd name body => exact ⟨'c', _, by rw [toList_text_cmd]; rfl, by decide⟩
  | call name args =>
    have hw := (forall_walk_call.1 h).1.word
    obtain ⟨c, l, hl⟩ := List.exists_cons_of_ne_nil
      (show name.toList ≠ [] by simpa using hw.nonempty)
    exact ⟨c, _, by rw [toList_text_call, hl]; rfl, (hw.spaceless c (by rw [hl]; exact .head _)).1⟩
  | exec g command =>
    have hg : Text.isSpace g.char = false := by cases g <;> decide
    cases hf : fitsBlock command with
    | true => exact ⟨g.char, _, toList_text_block hf, hg⟩
    | false => exact ⟨g.char, _, toList_text_line hf, hg⟩
  | list first others => exact ⟨':', _, toList_text_list first others, by decide⟩
  | hole value => exact value.elim

end Stmt

open Scanner Terminal

variable {s : Scanner} {lists : Nat} {saved : List Nat} {tail : List Char}

/-- A word has a first character, which is no space. -/
theorem IsWord.exists_cons {w : String} (hw : IsWord w) :
    ∃ c l, w.toList = c :: l ∧ Text.isSpace c = false := by
  obtain ⟨c, l, hl⟩ := List.exists_cons_of_ne_nil (show w.toList ≠ [] by simpa using hw.nonempty)
  exact ⟨c, l, hl, (hw.spaceless c (by rw [hl]; exact .head _)).1⟩

namespace Scanner

/-- A word after a space is read as it is written. -/
theorem Stands.reads_word {w : String} (h : Stands .normal 0 lists saved false
      (' ' :: (w.toList ++ tail)) s) (hw : IsWord w)
    (ht : ∀ c ∈ tail.head?, Text.isSpace c = true ∨ c = ';') (begins : Bool) :
    ∃ t, Reads s [⟨.word, w, begins⟩] t ∧ Stands .normal 0 lists saved begins tail t := by
  obtain ⟨c, l, hl, hc⟩ := hw.exists_cons
  refine h.poised.reads_word hw ?_ ht (fun hb => ?_) begins
  · rw [hl]
    refine rest_skip_space ?_ hc (.inl rfl)
    rw [h.rest, hl]
    rfl
  · rw [h.begins] at hb
    cases hb

/-- A separator is read as it is written, and a statement may begin behind it. -/
theorem Stands.reads_separator {begins : Bool}
    (h : Stands .normal 0 lists saved begins (';' :: tail) s) :
    ∃ t, Reads s [.separator] t ∧ Stands .normal 0 lists saved true tail t :=
  h.poised.reads_separator (rest_skip h.rest (by decide))

/-- The name of a call ends before its arguments. -/
theorem stops_words (args : List String) :
    ∀ c ∈ (args.flatMap (fun arg => ' ' :: arg.toList) ++ ';' :: tail).head?,
      Text.isSpace c = true ∨ c = ';' := by
  cases args with
  | nil => simp
  | cons arg args =>
    rintro c ⟨⟩
    exact .inl (by decide)

/-- The words of a call are read as they are written. -/
theorem Stands.reads_words {args : List String} (hw : ∀ arg ∈ args, IsWord arg)
    (h : Stands .normal 0 lists saved false
      (args.flatMap (fun arg => ' ' :: arg.toList) ++ ';' :: tail) s) :
    ∃ t, Reads s (args.map word) t ∧ Stands .normal 0 lists saved false (';' :: tail) t := by
  induction args generalizing s with
  | nil => exact ⟨s, rfl, h⟩
  | cons arg args ih =>
    obtain ⟨hw₁, hw₂⟩ := List.forall_mem_cons.1 hw
    rw [List.flatMap_cons, List.cons_append, List.cons_append, List.append_assoc] at h
    obtain ⟨u, e₁, h₁⟩ := h.reads_word hw₁ (stops_words args) false
    obtain ⟨t, e₂, h₂⟩ := ih hw₂ h₁
    exact ⟨t, reads_append.2 ⟨u, e₁, e₂⟩, h₂⟩

/-- A keyword is read where a statement begins. -/
theorem Poised.reads_keyword (h : Poised .normal 0 lists saved s) {w : String}
    (hw : w ∈ keywords) (hr : s.skip.rest = w.toList ++ ' ' :: tail) :
    ∃ t, Reads s [.word w] t ∧ Stands .normal 0 lists saved false (' ' :: tail) t := by
  have hk : ∀ w ∈ keywords, IsWord w ∧
      w.toList.head?.all (fun c => c != ':' && (Sigil.ofChar? c).isNone) = true := by decide
  obtain ⟨hw, hall⟩ := hk w hw
  have hh : ∀ c ∈ w.toList.head?, c ≠ ':' ∧ Sigil.ofChar? c = none := by
    simpa [Option.all_eq_true] using hall
  exact h.reads_word hw hr (fun c hc => by cases hc; exact .inl (by decide)) (fun _ => hh) false

/-- A word before a space ends there. -/
theorem stops_space {cs : List Char} :
    ∀ c ∈ (' ' :: cs).head?, Text.isSpace c = true ∨ c = ';' := by
  rintro c ⟨⟩
  exact .inl (by decide)

/-- What comes before the body of a binding or of a definition is read as it is written. -/
theorem Poised.reads_heading (h : Poised .normal 0 lists saved s) {w key : String}
    (hw : w ∈ keywords) (hk : IsWord key)
    (hr : s.skip.rest = w.toList ++ ' ' :: (key.toList ++ ' ' :: tail)) :
    ∃ t, Reads s [.word w, .head key] t ∧ Stands .normal 0 lists saved true (' ' :: tail) t := by
  obtain ⟨u, e₁, h₁⟩ := h.reads_keyword hw hr
  obtain ⟨t, e₂, h₂⟩ := h₁.reads_word hk stops_space true
  exact ⟨t, e₁.cons e₂, h₂⟩

end Scanner

namespace Stmt

/-- A scanner behind a statement: a command on a line has closed all line lists
and left their markers to be paid. -/
def StandsBehind (stmt : Stmt) (lists : Nat) (saved : List Nat) (rest : List Char) (s : Scanner) :
    Prop :=
  if stmt.endsLine then Stands .normal lists 0 saved true rest s
  else Stands .normal 0 lists saved true rest s

/-- Where no line list is open, a scanner behind a statement may read the next one at once. -/
theorem StandsBehind.of_not_open {stmt : Stmt} (h : stmt.StandsBehind 0 saved tail s) :
    Stands .normal 0 0 saved true tail s := by
  rw [StandsBehind] at h
  split at h <;> exact h

/-- Before a statement that is written behind a space nothing is left but the
statement. -/
theorem rest_skip_text {stmt : Stmt} {mode : Mode} {owed : Int} {begins : Bool} {d : Char}
    (hw : stmt.WellFormed)
    (h : Stands mode owed lists saved begins (d :: ((text stmt).toList ++ tail)) s)
    (hd : d = ' ' ∨ d = '\n' ∧ lists = 0) : s.skip.rest = (text stmt).toList ++ tail := by
  obtain ⟨c, cs, hc, hs⟩ := exists_text_eq_cons hw
  rw [hc]
  refine rest_skip_space ?_ hs (h.poised.lists.symm ▸ hd)
  rw [h.rest, hc]
  rfl

mutual

/-- **A well-formed statement is read as it is written.** -/
theorem reads_text : ∀ (stmt : Stmt), stmt.WellFormed → ∀ {lists saved tail s},
    Poised .normal 0 lists saved s → s.beginsStatement = true →
    s.skip.rest = (text stmt).toList ++ tail →
    ∃ xs t, Derives IsSeparator (.statement stmt) xs ∧ Reads s xs t ∧
      stmt.StandsBehind lists saved tail t
  | .set option value, hw, lists, saved, tail, s, h, hb, hr => by
    obtain ⟨ho, hv⟩ := forall_walk_set.1 hw
    by_cases hempty : value = ""
    · subst hempty
      rw [toList_text_switch, List.append_assoc, List.cons_append, List.append_assoc] at hr
      obtain ⟨s₁, e₁, h₁⟩ := h.reads_keyword (by decide) hr
      obtain ⟨s₂, e₂, h₂⟩ := h₁.reads_word ho (by simp) false
      obtain ⟨t, e₃, h₃⟩ := h₂.reads_separator
      exact ⟨_, t, .switch option rfl, e₁.cons (e₂.cons e₃), h₃⟩
    · rw [toList_text_set hempty, List.append_assoc, List.cons_append, List.append_assoc,
        List.cons_append, List.append_assoc] at hr
      obtain ⟨s₁, e₁, h₁⟩ := h.reads_keyword (by decide) hr
      obtain ⟨s₂, e₂, h₂⟩ := h₁.reads_word ho stops_space false
      obtain ⟨s₃, e₃, h₃⟩ := h₂.reads_word (hv.resolve_left hempty) (by simp) false
      obtain ⟨t, e₄, h₄⟩ := h₃.reads_separator
      exact ⟨_, t, .setting option value rfl, e₁.cons (e₂.cons (e₃.cons e₄)), h₄⟩
  | .map keys body, hw, lists, saved, tail, s, h, hb, hr => by
    obtain ⟨hk, hbody⟩ := Tree.forall_walk_map.1 hw
    rw [toList_text_map, List.append_assoc, List.cons_append, List.append_assoc,
      List.cons_append] at hr
    obtain ⟨s₁, e₁, h₁⟩ := h.reads_heading (by decide) hk hr
    obtain ⟨xs, t, hxs, e₂, h₂⟩ := reads_text body hbody h₁.poised h₁.begins
      (rest_skip_text hbody h₁ (.inl rfl))
    exact ⟨_, t, .binding hxs.nest, reads_append.2 ⟨s₁, e₁, e₂⟩, h₂⟩
  | .cmd name body, hw, lists, saved, tail, s, h, hb, hr => by
    obtain ⟨hn, hbody⟩ := Tree.forall_walk_cmd.1 hw
    rw [toList_text_cmd, List.append_assoc, List.cons_append, List.append_assoc,
      List.cons_append] at hr
    obtain ⟨s₁, e₁, h₁⟩ := h.reads_heading (by decide) hn hr
    obtain ⟨xs, t, hxs, e₂, h₂⟩ := reads_text body hbody h₁.poised h₁.begins
      (rest_skip_text hbody h₁ (.inl rfl))
    exact ⟨_, t, .definition hxs.nest, reads_append.2 ⟨s₁, e₁, e₂⟩, h₂⟩
  | .call name args, hw, lists, saved, tail, s, h, hb, hr => by
    obtain ⟨hn, ha⟩ := forall_walk_call.1 hw
    rw [toList_text_call, List.append_assoc, List.append_assoc, List.singleton_append] at hr
    obtain ⟨s₁, e₁, h₁⟩ := h.reads_word hn.word hr (stops_words args) (fun _ => hn.head) false
    obtain ⟨s₂, e₂, h₂⟩ := h₁.reads_words ha
    obtain ⟨t, e₃, h₃⟩ := h₂.reads_separator
    exact ⟨_, t, .call args hn.free rfl, e₁.cons (reads_append.2 ⟨s₂, e₂, e₃⟩), h₃⟩
  | .exec g command, hw, lists, saved, tail, s, h, hb, hr => by
    have hc := forall_walk_exec.1 hw
    cases hf : fitsBlock command with
    | true =>
      rw [toList_text_block hf, List.cons_append, List.cons_append, List.cons_append,
        List.append_assoc] at hr
      obtain ⟨t, e, ht⟩ := h.reads_block hb hf hr
      exact ⟨_, t, .block g command (.inl rfl), e, by simpa [StandsBehind, endsLine, hf] using ht⟩
    | false =>
      obtain ⟨hline, hd⟩ := hc.resolve_left (by simp [hf])
      rw [toList_text_line hf, List.cons_append, List.append_assoc, List.singleton_append] at hr
      obtain ⟨t, e, ht⟩ := h.reads_line hb hline hd hr
      exact ⟨_, t, .line g command, e, by simpa [StandsBehind, endsLine, hf] using ht⟩
  | .list first others, hw, lists, saved, tail, s, h, hb, hr => by
    obtain ⟨-, hitems⟩ := Tree.forall_walk_list.1 hw
    obtain ⟨hfirst, hothers⟩ := List.forall_mem_cons.1 hitems
    rw [toList_text_list, List.cons_append, List.cons_append, List.cons_append, List.cons_append,
      List.append_assoc, List.append_assoc] at hr
    obtain ⟨s₁, e₁, h₁⟩ := h.reads_openList hb hr
    obtain ⟨xs, s₂, hxs, e₂, h₂⟩ := reads_text first hfirst h₁.poised h₁.begins
      (rest_skip_text hfirst h₁ (.inl rfl))
    obtain ⟨ys, s₃, hys, e₃, h₃⟩ := reads_items others hothers hxs.nest e₂ h₂.of_not_open
    have hclose := rest_skip_space h₃.rest (by decide) (.inl rfl)
    obtain ⟨t, e₄, h₄⟩ := h₃.poised.reads_closeBraces hclose
    refine ⟨_, t, .bracedList hys (.inl rfl), ?_, h₄⟩
    exact reads_append.2 ⟨s₁, e₁, reads_append.2 ⟨s₃, e₃, e₄⟩⟩
  | .hole value, _, _, _, _, _, _, _, _ => value.elim

/-- The items of a list are read as they are written. -/
theorem reads_items : ∀ (others : List Stmt), (∀ stmt ∈ others, stmt.WellFormed) →
    ∀ {first xs saved tail s t}, Derives IsSeparator (.nested first) xs → Reads s xs t →
    Stands .normal 0 0 saved true
      (others.flatMap (fun stmt => ' ' :: (text stmt).toList) ++ tail) t →
    ∃ ys u, Derives IsSeparator (.items (first :: others)) ys ∧ Reads s ys u ∧
      Stands .normal 0 0 saved true tail u
  | [], _, first, xs, saved, tail, s, t, hd, hr, ht => ⟨xs, t, .one hd, hr, ht⟩
  | second :: others, hw, first, xs, saved, tail, s, t, hd, hr, ht => by
    obtain ⟨hw₁, hw₂⟩ := List.forall_mem_cons.1 hw
    rw [List.flatMap_cons, List.cons_append, List.cons_append, List.append_assoc] at ht
    obtain ⟨ys, u, hys, hr₁, hu⟩ := reads_text second hw₁ ht.poised ht.begins
      (rest_skip_text hw₁ ht (.inl rfl))
    obtain ⟨zs, v, hzs, hr₂, hv⟩ := reads_items others hw₂ hys.nest hr₁ hu.of_not_open
    exact ⟨_, v, .more hd hzs, reads_append.2 ⟨t, hr, hr₂⟩, hv⟩

end

/-- Statements below one another are read as they are written. -/
theorem reads_lines {stmts : List Stmt} (hw : ∀ stmt ∈ stmts, stmt.WellFormed)
    (h : Stands .normal 0 0 saved true (stmts.flatMap fun stmt => '\n' :: (text stmt).toList) s) :
    ∃ xs t, Derives IsSeparator (.script stmts) xs ∧ Reads s xs t ∧
      Stands .normal 0 0 saved true [] t := by
  induction stmts generalizing s with
  | nil => exact ⟨[], s, .finish nofun, rfl, h⟩
  | cons stmt stmts ih =>
    obtain ⟨hw₁, hw₂⟩ := List.forall_mem_cons.1 hw
    rw [List.flatMap_cons, List.cons_append] at h
    obtain ⟨xs, u, hxs, hr₁, hu⟩ := reads_text stmt hw₁ h.poised h.begins
      (rest_skip_text hw₁ h (.inr ⟨rfl, rfl⟩))
    obtain ⟨ys, t, hys, hr₂, ht⟩ := ih hw₂ hu.of_not_open
    exact ⟨_, t, .next hxs.nest hys, reads_append.2 ⟨u, hr₁, hr₂⟩, ht⟩

/-- **A script of well-formed statements is read as it is written**, up to its end. -/
theorem reads_scriptText {stmts : List Stmt} (hw : ∀ stmt ∈ stmts, stmt.WellFormed)
    (filename : String) :
    ∃ xs t, Derives IsSeparator (.script stmts) xs ∧
      Reads (ofText (scriptText stmts) filename) xs t ∧ Stands .normal 0 0 [] true [] t := by
  have h := poised_ofText (scriptText stmts) filename
  cases stmts with
  | nil => exact ⟨[], _, .finish nofun, rfl, h, rfl, rfl⟩
  | cons stmt stmts =>
    obtain ⟨hw₁, hw₂⟩ := List.forall_mem_cons.1 hw
    have hrest : (ofText (scriptText (stmt :: stmts)) filename).rest =
        (text stmt).toList ++ stmts.flatMap (fun stmt => '\n' :: (text stmt).toList) := by
      change (scriptText (stmt :: stmts)).toList = _
      rw [scriptText, List.map_cons, toList_intercalate_cons (d := '\n') rfl, List.flatMap_map]
    obtain ⟨c, cs, hc, hs⟩ := exists_text_eq_cons hw₁
    obtain ⟨xs, u, hxs, hr₁, hu⟩ := reads_text stmt hw₁ h rfl (by
      rw [hc] at hrest ⊢
      exact rest_skip hrest hs)
    obtain ⟨ys, t, hys, hr₂, ht⟩ := reads_lines hw₂ hu.of_not_open
    exact ⟨_, t, .next hxs.nest hys, reads_append.2 ⟨u, hr₁, hr₂⟩, ht⟩

end Stmt

/-- Where nothing is left, the next token is the end of input. -/
theorem Scanner.Stands.look_end {begins : Bool} (h : Stands .normal 0 0 saved begins [] s) :
    s.look.token.kind = .endOfInput := by
  have hr : s.resume.skip.rest = [] := by
    rw [Scanner.skip, rest_skipWhile, show s.resume.rest = [] from h.rest, List.dropWhile_nil]
  rw [h.poised.look_of_read (.finish hr h.poised.lists)]
  rfl

end RcScript
