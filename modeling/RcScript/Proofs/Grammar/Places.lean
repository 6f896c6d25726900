/-
# Places in a derivation

Which terminal may come next in a derivation is a matter of all that came before.  Some of it
is told by the last few terminals alone: whether there is room for a word or for a command
text, with which flag the scanner is asked after it, and whether a newline marker is more than
a semicolon would be.  So terminals that are derived and terminals that the loose grammar
begins with agree in their flags where they agree in kind and text
(`Place.Allows.begins_eq`), and a word or a command text that the loose grammar has room for
goes on with what the strict one has begun (`Begun.concat`).

Nine places are enough.  Where terminals lead is a function of them and of the place where
they start (`Place.after`), and the lemmas below give its value for each terminal and each
place that matters, as simplification rules; a derivation is then followed by rewriting
(`Derives.leads`).  The strict and the loose grammar differ in what may end a statement and
in nothing else, so both lead to the same places (`Leads.unique`).

A place is told by the last terminals of one statement, and what is nested is not
remembered: behind the head of a binding, behind a colon and behind the opening braces of
a list a statement begins, and so one does behind a separator.  The places are where a
statement may begin, behind the keyword of a setting, behind its option and behind its
value, behind the keyword of a binding or a definition, behind the name of a call or one
of its arguments, behind a sigil, in a block, and where a command or a list between braces
needs no more than its end.
-/

import RcScript.Proofs.Grammar.Begun

namespace RcScript

open Terminal

variable {Sep Sep' : Terminal → Prop} {depth : Nat} {part : Part} {p : Phrase} {x z : Terminal}
  {xs ys zs : List Terminal}

/-- Where the next terminal stands, as far as the last few ones tell. -/
inductive Place
  /-- a statement may begin -/
  | start
  /-- after the keyword of a setting -/
  | set
  /-- after the option of a setting -/
  | option
  /-- after the value of a setting -/
  | value
  /-- after the keyword of a binding or a definition -/
  | keyword
  /-- after the name of a call, or an argument -/
  | call
  | sigil
  /-- in a block -/
  | block
  /-- after the text of a command, or closing braces -/
  | complete
deriving DecidableEq

namespace Place

variable {place : Place}

/-- The place after a terminal. -/
def after (place : Place) (x : Terminal) : Place :=
  match x.kind, place with
  | .word, .start =>
    if x.text = "set" then .set
    else if x.text = "map" ∨ x.text = "cmd" then .keyword
    else .call
  | .word, .set => .option
  | .word, .option => .value
  | .word, .keyword => .start
  | .word, .call => .call
  | .sigil, _ => .sigil
  | .openBraces, .sigil => .block
  | .word, _ | .command, _ | .closeBraces, _ => .complete
  | _, _ => .start

/-- A terminal may stand at a place: a word or a command text only if there is room for it,
and what ends a statement, if it is nothing that `Sep` says, only where a statement has been
complete before.  A statement begins after the word that a keyword needs. -/
structure Allows (Sep : Terminal → Prop) (place : Place) (x : Terminal) : Prop where
  begins : x.begins = true ↔ x.kind = .word ∧ place = .keyword
  word : x.kind = .word → place ∈ [.start, .set, .option, .keyword, .call]
  command : x.kind = .command → place ∈ [.sigil, .block]
  ends : x.kind = .semicolon → Sep x ∨ place ∈ [.start, .complete]

/-- Terminals may stand one after the other, the first one at a place. -/
def AllowsAll (Sep : Terminal → Prop) : Place → List Terminal → Prop
  | _, [] => True
  | place, x :: xs => Allows Sep place x ∧ AllowsAll Sep (place.after x) xs

/-- The flag is told by the place, whatever may end a statement. -/
theorem Allows.begins_eq (hx : Allows Sep place x) (hz : Allows Sep' place z)
    (hk : x.kind = z.kind) : x.begins = z.begins := by
  rw [Bool.eq_iff_iff, hx.begins, hz.begins, hk]

/-- Terminals may stand one after the other if the later ones may where the earlier ones lead.
-/
theorem allowsAll_append : AllowsAll Sep place (xs ++ ys) ↔
    AllowsAll Sep place xs ∧ AllowsAll Sep (xs.foldl after place) ys := by
  induction xs generalizing place with
  | nil => simp [AllowsAll]
  | cons x xs ih => simp [AllowsAll, ih, and_assoc]

/-- A word may stand where there is room for one that begins nothing. -/
@[simp] theorem allows_word {text : String} :
    Allows Sep place (word text) ↔ place ∈ [.start, .set, .option, .call] := by
  have hsub : [start, set, option, call] ⊆ [start, set, option, keyword, call] := by decide
  refine ⟨fun h => ?_, fun h => ⟨⟨nofun, ?_⟩, fun _ => hsub h, nofun, nofun⟩⟩
  · have hp : place ≠ .keyword := fun hp => Bool.false_ne_true (h.begins.2 ⟨rfl, hp⟩)
    simpa [hp] using h.word rfl
  · rintro ⟨-, rfl⟩
    simp at h

/-- A head may stand behind a keyword. -/
@[simp] theorem allows_head {text : String} :
    Allows Sep place (head text) ↔ place = .keyword := by
  refine ⟨fun h => (h.begins.1 rfl).2, ?_⟩
  rintro rfl
  exact ⟨⟨fun _ => ⟨rfl, rfl⟩, fun _ => rfl⟩, fun _ => by decide, nofun, nofun⟩

/-- The text of a command may stand behind a sigil, or in a block. -/
@[simp] theorem allows_command {text : String} :
    Allows Sep place (command text) ↔ place ∈ [.sigil, .block] :=
  ⟨fun h => h.command rfl, fun h => ⟨⟨nofun, nofun⟩, nofun, fun _ => h, nofun⟩⟩

/-- What is neither a word nor a command text nor an end may stand anywhere. -/
theorem allows_of_kind (hw : x.kind ≠ .word) (hc : x.kind ≠ .command) (hs : x.kind ≠ .semicolon)
    (hb : x.begins = false) : Allows Sep place x :=
  ⟨⟨fun h => absurd (hb.symm.trans h) Bool.false_ne_true, fun h => absurd h.1 hw⟩,
    fun h => absurd h hw, fun h => absurd h hc, fun h => absurd h hs⟩

/-- A sigil may stand anywhere. -/
@[simp] theorem allows_sigil (g : Sigil) : Allows Sep place (Terminal.sigil g) :=
  allows_of_kind (x := .sigil g) nofun nofun nofun rfl

/-- A colon may stand anywhere. -/
@[simp] theorem allows_colon : Allows Sep place colon :=
  allows_of_kind (x := colon) nofun nofun nofun rfl

/-- Opening braces may stand anywhere. -/
@[simp] theorem allows_openBraces : Allows Sep place openBraces :=
  allows_of_kind (x := openBraces) nofun nofun nofun rfl

/-- Closing braces may stand anywhere. -/
@[simp] theorem allows_closeBraces : Allows Sep place closeBraces :=
  allows_of_kind (x := closeBraces) nofun nofun nofun rfl

/-- What ends braces may stand where it separates, or where there is nothing to end. -/
theorem allows_end (hx : x.IsEnd) (h : Sep x ∨ place ∈ [.start, .complete]) :
    Allows Sep place x := by
  obtain rfl | rfl := hx
  all_goals exact ⟨⟨nofun, nofun⟩, nofun, nofun, fun _ => h⟩

/-- The keyword of a setting asks for an option. -/
@[simp] theorem after_word_set : start.after (word "set") = set := rfl

/-- An option may have a value. -/
@[simp] theorem set_after_word (text : String) : set.after (word text) = option := rfl

/-- A value ends its setting. -/
@[simp] theorem option_after_word (text : String) : option.after (word text) = value := rfl

/-- The keywords of bindings and definitions ask for a head. -/
theorem after_keyword {text : String} (known : text = "map" ∨ text = "cmd") :
    start.after (word text) = keyword := by
  obtain rfl | rfl := known <;> rfl

/-- Behind a head a statement begins. -/
@[simp] theorem keyword_after_head (text : String) : keyword.after (head text) = start := rfl

/-- Any other name is that of a call. -/
theorem after_name {name : String} (free : name ∉ keywords) : start.after (word name) = call := by
  simp only [keywords, List.mem_cons, List.not_mem_nil, or_false, not_or] at free
  simp [after, word, free]

/-- An argument may follow another. -/
@[simp] theorem call_after_word (text : String) : call.after (word text) = call := rfl

/-- A sigil asks for the text of a command. -/
@[simp] theorem after_sigil (g : Sigil) : place.after (Terminal.sigil g) = sigil := by
  cases place <;> rfl

/-- The text of a command is all of it. -/
@[simp] theorem after_command (text : String) : place.after (command text) = complete := by
  cases place <;> rfl

/-- Closing braces leave nothing to add. -/
@[simp] theorem after_closeBraces : place.after closeBraces = complete := by
  cases place <;> rfl

/-- Braces behind a sigil are those of a block. -/
@[simp] theorem sigil_after_openBraces : sigil.after openBraces = block := rfl

/-- Between the braces of a list a statement begins. -/
@[simp] theorem start_after_openBraces : start.after openBraces = start := rfl

/-- Behind a colon a statement begins. -/
@[simp] theorem after_colon : place.after colon = start := by
  cases place <;> rfl

/-- A statement begins after what ends one. -/
theorem after_end (hx : x.IsEnd) : place.after x = start := by
  obtain rfl | rfl := hx <;> cases place <;> rfl

/-- Terminals lead from a place to another one. -/
def Leads (Sep : Terminal → Prop) (place : Place) (xs : List Terminal) (place' : Place) : Prop :=
  AllowsAll Sep place xs ∧ xs.foldl after place = place'

variable {place' place'' : Place}

/-- No terminals lead nowhere else. -/
@[simp] theorem leads_nil : Leads Sep place [] place' ↔ place = place' := by
  simp [Leads, AllowsAll]

/-- A terminal leads where it may stand, and the others on from there. -/
@[simp] theorem leads_cons : Leads Sep place (x :: xs) place' ↔
    Allows Sep place x ∧ Leads Sep (place.after x) xs place' := by
  simp [Leads, AllowsAll, and_assoc]

/-- Terminals lead where the first of them and then the others lead. -/
theorem leads_append : Leads Sep place (xs ++ ys) place' ↔
    ∃ between, Leads Sep place xs between ∧ Leads Sep between ys place' := by
  simp [Leads, allowsAll_append, and_assoc]

/-- What leads to a place is followed by what leads on from it. -/
theorem Leads.append (h : Leads Sep place xs place') (h' : Leads Sep place' ys place'') :
    Leads Sep place (xs ++ ys) place'' := leads_append.2 ⟨place', h, h'⟩

/-- Terminals lead to one place, whatever may end a statement. -/
theorem Leads.unique (h : Leads Sep place xs place') (h' : Leads Sep' place xs place'') :
    place' = place'' := h.2.symm.trans h'.2

/-- What ends a statement leads to where one may begin. -/
theorem leads_end (hx : x.IsEnd) (h : Sep x ∨ place ∈ [.start, .complete]) :
    Leads Sep place [x] start := by
  simp [allows_end hx h, after_end hx]

/-- Separators lead back to where a statement may begin. -/
theorem leads_separators (hsep : ∀ x, Sep x → x.IsEnd) (h : ∀ x ∈ xs, Sep x) :
    Leads Sep start xs start := by
  induction xs with
  | nil => exact leads_nil.2 rfl
  | cons x xs ih =>
    obtain ⟨hx, h⟩ := List.forall_mem_cons.1 h
    exact (leads_end (hsep x hx) (.inl hx)).append (ih h)

/-- Arguments lead from one to the next. -/
theorem leads_args (args : List String) : Leads Sep call (args.map word) call := by
  induction args with
  | nil => exact leads_nil.2 rfl
  | cons arg args ih => simpa using ih

/-- A terminal is told by its kind, its text and its flag. -/
theorem exists_eq_mk {kind : TokenKind} {begins : Bool} (hk : x.kind = kind)
    (hb : x.begins = begins) : ∃ text, x = ⟨kind, text, begins⟩ := by
  obtain rfl := hk
  obtain rfl := hb
  exact ⟨x.text, rfl⟩

section
variable (h : Allows Sep place x) (hk : x.kind = .word ∨ x.kind = .command)
include h hk

/-- Where there is room for a word that begins nothing, a terminal with room is such a word. -/
theorem Allows.exists_word (hp : place ∈ [.start, .set, .option, .call]) :
    ∃ text, x = .word text := by
  have hword : x.kind = .word := hk.resolve_right fun hk => by
    have hcommand := h.command hk
    cases place <;> simp at hp hcommand
  have hb : x.begins = false := by
    rw [← Bool.not_eq_true, h.begins]
    rintro ⟨-, rfl⟩
    simp at hp
  exact exists_eq_mk hword hb

/-- Behind a keyword it is a head. -/
theorem Allows.exists_head (hp : place = .keyword) : ∃ text, x = .head text := by
  obtain rfl := hp
  have hword : x.kind = .word := hk.resolve_right fun hk => absurd (h.command hk) (by decide)
  have hb := h.begins.2 ⟨hword, rfl⟩
  exact exists_eq_mk hword hb

/-- Behind a sigil, or in a block, it is the text of a command. -/
theorem Allows.exists_command (hp : place ∈ [.sigil, .block]) : ∃ text, x = .command text := by
  have hcommand : x.kind = .command := hk.resolve_left fun hk => by
    have hword := h.word hk
    cases place <;> simp at hp hword
  have hb : x.begins = false := by
    rw [← Bool.not_eq_true, h.begins, hcommand]
    exact fun hb => nomatch hb.1
  exact exists_eq_mk hcommand hb

/-- There is room for neither a word nor a command text where a statement can only end. -/
theorem Allows.not_mem : place ∉ [.value, .complete] := by
  intro hp
  rcases hk with hk | hk
  · have hword := h.word hk
    simp at hp hword
    rcases hp with rfl | rfl <;> simp at hword
  · have hcommand := h.command hk
    cases place <;> simp at hp hcommand

end
end Place

open Place

/-- **Whatever is derived leads from where a statement may begin to where the next one may.** -/
theorem Derives.leads (hsep : ∀ x, Sep x → x.IsEnd) (hd : Derives Sep p xs) :
    Leads Sep start xs start := by
  have hend : ∀ {x place}, Sep x → Leads Sep place [x] start := fun hx =>
    leads_end (hsep _ hx) (.inl hx)
  have hcomplete : ∀ {x : Terminal}, x.IsEnd → Leads Sep complete [x] start := fun hx =>
    leads_end hx (.inr (by decide))
  induction hd with
  | switch option ends => simpa using hend ends
  | setting option value ends => simpa using hend ends
  | binding nested ih => simpa [after_keyword] using ih
  | definition nested ih => simpa [after_keyword] using ih
  | call args free ends =>
    simpa [after_name free] using (leads_args args).append (hend ends)
  | line g text => simpa using hcomplete (.inr rfl)
  | block g text ends => simpa using hcomplete ends
  | bracedList items ends ih =>
    have hclose : Leads Sep start [closeBraces] complete := by simp
    simpa using ih.append (hclose.append (hcomplete ends))
  | lineList items ih => simpa using ih.append (leads_end (.inr rfl) (.inr (by decide)))
  | nested separate statement ih => exact (leads_separators hsep separate).append ih
  | one nested ih => exact ih
  | more nested items ih₁ ih₂ => exact ih₁.append ih₂
  | finish separate => exact leads_separators hsep separate
  | next nested script ih₁ ih₂ => exact ih₁.append ih₂

/-- What is whole within a depth is whole within one more. -/
theorem Whole.succ (h : Whole Sep part depth xs) : Whole Sep part (depth + 1) xs := by
  cases part with
  | one =>
    obtain ⟨stmt, hle, hd⟩ := h
    exact ⟨stmt, Nat.le_succ_of_le hle, hd⟩
  | several =>
    obtain ⟨first, others, hle, hd⟩ := h
    exact ⟨first, others, fun stmt hs => Nat.le_succ_of_le (hle stmt hs), hd⟩

/-- Where a statement may begin, a word begins one. -/
theorem begun_singleton (hx : Allows Sep' start x) (hk : x.kind = .word ∨ x.kind = .command) :
    Begun Sep .one (depth + 2) [x] := by
  obtain ⟨text, rfl⟩ := hx.exists_word hk (by decide)
  by_cases hs : text = "set"
  · exact hs ▸ .set
  by_cases hm : text = "map" ∨ text = "cmd"
  · exact .keyword hm
  · exact .call [] (by simpa [keywords, hs] using hm)

/-- **A word or a command text goes on with what is begun**, if its place allows it.  The
keyword of a binding needs more depth than other words. -/
theorem Begun.concat (hsep : ∀ x, Sep x → x.IsEnd) (hb : Begun Sep part depth xs) {place : Place}
    (hl : Leads Sep' start xs place) (hx : Allows Sep' place x)
    (hk : x.kind = .word ∨ x.kind = .command) :
    Begun Sep part (depth + 1) (xs ++ [x]) := by
  induction hb with
  | nothing =>
    obtain rfl := leads_nil.1 hl
    exact begun_singleton hx hk
  | separator ends begun ih =>
    rw [leads_cons, after_end (hsep _ ends)] at hl
    exact .separator ends (ih hl.2)
  | set =>
    obtain rfl : Place.set = place := by simpa using hl
    obtain ⟨text, rfl⟩ := hx.exists_word hk (by decide)
    exact .option text
  | option =>
    obtain rfl : Place.option = place := by simpa using hl
    obtain ⟨text, rfl⟩ := hx.exists_word hk (by decide)
    exact .value _ text
  | keyword known =>
    have hp : Place.keyword = place := by simpa [after_keyword known] using hl
    obtain ⟨text, rfl⟩ := hx.exists_head hk hp.symm
    exact .body known text .nothing
  | body known text begun ih =>
    rw [leads_cons, after_keyword known, leads_cons, keyword_after_head] at hl
    exact .body known text (ih hl.2.2)
  | call args free =>
    rw [leads_cons, after_name free] at hl
    have hargs : Leads Sep Place.call (args.map word) .call := leads_args args
    obtain rfl := hargs.unique hl.2
    obtain ⟨text, rfl⟩ := hx.exists_word hk (by decide)
    simpa using Begun.call (args ++ [text]) free
  | sigil g =>
    obtain rfl : Place.sigil = place := by simpa using hl
    obtain ⟨text, rfl⟩ := hx.exists_command hk (by decide)
    exact .line g text
  | openBlock g =>
    obtain rfl : Place.block = place := by simpa using hl
    obtain ⟨text, rfl⟩ := hx.exists_command hk (by decide)
    exact .blockText g text
  | value =>
    obtain rfl : Place.value = place := by simpa using hl
    exact absurd (by decide) (hx.not_mem hk)
  | line | blockText | block =>
    obtain rfl : complete = place := by simpa using hl
    exact absurd (by decide) (hx.not_mem hk)
  | colon =>
    obtain rfl : start = place := by simpa using hl
    exact .lineList (.first (begun_singleton hx hk))
  | lineList begun ih =>
    rw [leads_cons, after_colon] at hl
    exact .lineList (ih hl.2)
  | bracedList begun ih =>
    rw [leads_cons, after_colon, leads_cons, start_after_openBraces] at hl
    exact .bracedList (ih hl.2.2)
  | closed whole =>
    obtain ⟨first, others, -, hd⟩ := whole
    rw [leads_cons, after_colon, leads_cons, start_after_openBraces] at hl
    have hclose : Leads Sep start [closeBraces] complete := by simp
    obtain rfl := ((hd.leads hsep).append hclose).unique hl.2.2
    exact absurd (by decide) (hx.not_mem hk)
  | first begun ih => exact .first (ih hl)
  | next whole begun ih =>
    obtain ⟨stmt, -, hd⟩ := id whole
    obtain ⟨between, h₁, h₂⟩ := leads_append.1 hl
    obtain rfl := (hd.leads hsep).unique h₁
    rw [List.append_assoc]
    exact .next whole.succ (ih h₂)

end RcScript
