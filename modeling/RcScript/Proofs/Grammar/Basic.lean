/-
# The strict grammar

Which tokens make up a script, and what statements they stand for:

    script    = (';'* statement)* ';'*
    nested    = ';'* statement
    statement = 'set' word word? ';'
              | 'map' word nested
              | 'cmd' word nested
              | word word* ';'
              | sigil command newline
              | sigil braces command braces end
              | ':' braces nested+ braces end
              | ':' nested+ newline
    end       = ';' | newline

A newline marker stands only where the grammar has `newline`: it ends no setting
and no call, and it separates nothing.  What may stand where the grammar has a
semicolon is a parameter of `Derives`: `Terminal.IsSeparator` for the grammar as
it is written here, and `Terminal.IsEnd` for the looser one in which a newline
marker may stand there too.  Each terminal says with which flag the scanner is
asked for the token after it; the flag is set after the keys of a binding and the
name of a definition, and nowhere else.

The derivation keeps the separators before a statement with the statement
(`Phrase.nested`), so that a phrase begins where the one before it ends, and no terminal
is left between two.  What a phrase may begin with is settled once for all kinds
(`Derives.statement_starts`, `Derives.nested_starts`, `Derives.items_starts`), and what
the grammar says of each terminal is carried to whole derivations by one induction
(`Derives.forall_mem`).
-/

import RcScript.Proofs.Stmt.WellFormed
import RcScript.Token

namespace RcScript

/-- A token of a derivation, and the flag with which the next one is asked for. -/
structure Terminal where
  kind : TokenKind
  text : String
  begins : Bool
deriving DecidableEq, Repr

namespace Terminal

/-- A word after which no statement begins at once. -/
def word (text : String) : Terminal := ⟨.word, text, false⟩

/-- The keys of a binding, or the name of a definition: a statement follows. -/
def head (text : String) : Terminal := ⟨.word, text, true⟩

/-- A literal semicolon. -/
def separator : Terminal := ⟨.semicolon, ";", false⟩

/-- A newline marker. -/
def newline : Terminal := ⟨.semicolon, "\n", false⟩

/-- A colon, which begins a list. -/
def colon : Terminal := ⟨.colon, ":", false⟩

/-- The opening braces of a list or of a block. -/
def openBraces : Terminal := ⟨.openBraces, "\x7b\x7b", false⟩

/-- The closing braces of a list or of a block. -/
def closeBraces : Terminal := ⟨.closeBraces, "\x7d\x7d", false⟩

/-- A sigil, which begins a command. -/
def sigil (g : Sigil) : Terminal := ⟨.sigil, g.text, false⟩

/-- The text of a command, on a line or in a block. -/
def command (text : String) : Terminal := ⟨.command, text, false⟩

/-- What separates statements and ends settings and calls. -/
def IsSeparator (x : Terminal) : Prop := x = separator

/-- What may end a block or the braces of a list. -/
def IsEnd (x : Terminal) : Prop := x = separator ∨ x = newline

/-- A literal semicolon is a separator. -/
theorem isSeparator_separator : separator.IsSeparator := rfl

/-- A separator is told by its kind. -/
theorem IsSeparator.kind_eq {x : Terminal} (h : x.IsSeparator) : x.kind = .semicolon := by
  obtain rfl := h
  rfl

/-- What may end braces is told by its kind too. -/
theorem IsEnd.kind_eq {x : Terminal} (h : x.IsEnd) : x.kind = .semicolon := by
  obtain rfl | rfl := h <;> rfl

/-- The scanner is asked without the flag after what may end braces. -/
theorem IsEnd.begins_eq {x : Terminal} (h : x.IsEnd) : x.begins = false := by
  obtain rfl | rfl := h <;> rfl

end Terminal

/-- What is derived: a statement, one that separators may precede, several of
these, or a script. -/
inductive Phrase
  | statement (stmt : Stmt)
  | nested (stmt : Stmt)
  | items (stmts : List Stmt)
  | script (stmts : List Stmt)

open Terminal in
/-- The terminals that a phrase may be written with, where `Sep` may stand for a
semicolon. -/
inductive Derives (Sep : Terminal → Prop) : Phrase → List Terminal → Prop
  | switch (option : String) {last : Terminal} (ends : Sep last) :
      Derives Sep (.statement (.set option "")) [word "set", word option, last]
  | setting (option value : String) {last : Terminal} (ends : Sep last) :
      Derives Sep (.statement (.set option value)) [word "set", word option, word value, last]
  | binding {keys : String} {body : Stmt} {xs : List Terminal}
      (nested : Derives Sep (.nested body) xs) :
      Derives Sep (.statement (.map keys body)) (word "map" :: head keys :: xs)
  | definition {name : String} {body : Stmt} {xs : List Terminal}
      (nested : Derives Sep (.nested body) xs) :
      Derives Sep (.statement (.cmd name body)) (word "cmd" :: head name :: xs)
  | call {name : String} (args : List String) {last : Terminal} (free : name ∉ keywords)
      (ends : Sep last) :
      Derives Sep (.statement (.call name args)) (word name :: (args.map word ++ [last]))
  | line (g : Sigil) (text : String) :
      Derives Sep (.statement (.exec g text)) [sigil g, command text, newline]
  | block (g : Sigil) (text : String) {last : Terminal} (ends : last.IsEnd) :
      Derives Sep (.statement (.exec g text)) [sigil g, openBraces, command text, closeBraces, last]
  | bracedList {first : Stmt} {others : List Stmt} {xs : List Terminal} {last : Terminal}
      (items : Derives Sep (.items (first :: others)) xs) (ends : last.IsEnd) :
      Derives Sep (.statement (.list first others))
        (colon :: openBraces :: (xs ++ [closeBraces, last]))
  | lineList {first : Stmt} {others : List Stmt} {xs : List Terminal}
      (items : Derives Sep (.items (first :: others)) xs) :
      Derives Sep (.statement (.list first others)) (colon :: (xs ++ [newline]))
  | nested {stmt : Stmt} {seps xs : List Terminal} (separate : ∀ x ∈ seps, Sep x)
      (statement : Derives Sep (.statement stmt) xs) : Derives Sep (.nested stmt) (seps ++ xs)
  | one {stmt : Stmt} {xs : List Terminal} (nested : Derives Sep (.nested stmt) xs) :
      Derives Sep (.items [stmt]) xs
  | more {first second : Stmt} {others : List Stmt} {xs ys : List Terminal}
      (nested : Derives Sep (.nested first) xs)
      (items : Derives Sep (.items (second :: others)) ys) :
      Derives Sep (.items (first :: second :: others)) (xs ++ ys)
  | finish {seps : List Terminal} (separate : ∀ x ∈ seps, Sep x) : Derives Sep (.script []) seps
  | next {stmt : Stmt} {stmts : List Stmt} {xs ys : List Terminal}
      (nested : Derives Sep (.nested stmt) xs) (script : Derives Sep (.script stmts) ys) :
      Derives Sep (.script (stmt :: stmts)) (xs ++ ys)

/-- A statement without separators before it. -/
theorem Derives.nest {Sep : Terminal → Prop} {stmt : Stmt} {xs : List Terminal}
    (h : Derives Sep (.statement stmt) xs) : Derives Sep (.nested stmt) xs := by
  have hn : Derives Sep (.nested stmt) ([] ++ xs) := .nested nofun h
  exact hn

/-- What a statement begins with, separators before it included. -/
def Terminal.Starts (Sep : Terminal → Prop) (x : Terminal) : Prop :=
  Sep x ∨ x.kind = .word ∨ x.kind = .colon ∨ x.kind = .sigil

/-- No statement begins with braces. -/
theorem Terminal.Starts.kind_ne {Sep : Terminal → Prop} (hsep : ∀ x, Sep x → x.IsEnd)
    {x : Terminal} (h : x.Starts Sep) : x.kind ≠ .openBraces := by
  rcases h with hx | hx | hx | hx
  · rw [(hsep x hx).kind_eq]
    nofun
  all_goals
    rw [hx]
    nofun

section
variable {Sep : Terminal → Prop} {stmt : Stmt} {xs : List Terminal}

/-- A statement starts with a word, a colon or a sigil. -/
theorem Derives.statement_starts (h : Derives Sep (.statement stmt) xs) :
    ∃ x ys, xs = x :: ys ∧ (x.kind = .word ∨ x.kind = .colon ∨ x.kind = .sigil) := by
  cases h with
  | switch | setting | binding | definition | call => exact ⟨_, _, rfl, .inl rfl⟩
  | line | block => exact ⟨_, _, rfl, .inr (.inr rfl)⟩
  | bracedList | lineList => exact ⟨_, _, rfl, .inr (.inl rfl)⟩

/-- A nested statement starts as statements do. -/
theorem Derives.nested_starts (h : Derives Sep (.nested stmt) xs) :
    ∃ x ys, xs = x :: ys ∧ x.Starts Sep := by
  cases h with
  | @nested _ seps _ separate statement =>
    cases seps with
    | nil =>
      obtain ⟨x, ys, hxs, hx⟩ := statement.statement_starts
      exact ⟨x, ys, hxs, .inr hx⟩
    | cons x seps => exact ⟨x, _, rfl, .inl (separate x (.head _))⟩

/-- Items start as their first statement does. -/
theorem Derives.items_starts {stmts : List Stmt} (h : Derives Sep (.items stmts) xs) :
    ∃ x ys, xs = x :: ys ∧ x.Starts Sep := by
  cases h with
  | one nested => exact nested.nested_starts
  | more nested items =>
    obtain ⟨x, ys, rfl, hx⟩ := nested.nested_starts
    exact ⟨x, _, rfl, hx⟩

end

/-- What holds of every terminal that the grammar has holds of all of a derivation. -/
theorem Derives.forall_mem {Sep P : Terminal → Prop} (hsep : ∀ x, Sep x → P x)
    (hend : ∀ x : Terminal, x.IsEnd → P x)
    (hword : ∀ text, P (.word text) ∧ P (.head text) ∧ P (.command text))
    (hsigil : ∀ g, P (.sigil g)) (hcolon : P .colon) (hopen : P .openBraces)
    (hclose : P .closeBraces) {p : Phrase} {xs : List Terminal} (h : Derives Sep p xs) :
    ∀ x ∈ xs, P x := by
  have hnewline : P .newline := hend _ (.inr rfl)
  induction h with
  | switch option ends => simp [hword, hsep _ ends]
  | setting option value ends => simp [hword, hsep _ ends]
  | binding nested ih => simpa [hword] using ih
  | definition nested ih => simpa [hword] using ih
  | call args free ends =>
    simp only [List.forall_mem_cons, List.forall_mem_append, List.forall_mem_map]
    exact ⟨(hword _).1, fun arg _ => (hword arg).1, hsep _ ends, nofun⟩
  | line g text => simp [hword, hsigil, hnewline]
  | block g text ends => simp [hword, hsigil, hopen, hclose, hend _ ends]
  | bracedList items ends ih =>
    simp only [List.forall_mem_cons, List.forall_mem_append]
    exact ⟨hcolon, hopen, ih, hclose, hend _ ends, nofun⟩
  | lineList items ih =>
    simp only [List.forall_mem_cons, List.forall_mem_append]
    exact ⟨hcolon, ih, hnewline, nofun⟩
  | nested separate statement ih =>
    exact List.forall_mem_append.2 ⟨fun x hx => hsep x (separate x hx), ih⟩
  | one nested ih => exact ih
  | more nested items ih₁ ih₂ => exact List.forall_mem_append.2 ⟨ih₁, ih₂⟩
  | finish separate => exact fun x hx => hsep x (separate x hx)
  | next nested script ih₁ ih₂ => exact List.forall_mem_append.2 ⟨ih₁, ih₂⟩

/-- No terminal of a derivation is the end of input. -/
theorem Derives.kind_ne {Sep : Terminal → Prop} (hsep : ∀ x, Sep x → x.kind = .semicolon)
    {p : Phrase} {xs : List Terminal} (h : Derives Sep p xs) : ∀ x ∈ xs, x.kind ≠ .endOfInput :=
  have hne : ∀ x : Terminal, x.kind = .semicolon → x.kind ≠ .endOfInput := fun x hx => by
    rw [hx]
    nofun
  h.forall_mem (fun x hx => hne x (hsep x hx)) (fun x hx => hne x hx.kind_eq)
    (fun _ => ⟨nofun, nofun, nofun⟩) (fun _ => nofun) nofun nofun nofun

/-- Only after a word is a statement to begin at once. -/
theorem Derives.kind_of_begins {Sep : Terminal → Prop} (hsep : ∀ x, Sep x → x.IsEnd)
    {p : Phrase} {xs : List Terminal} (h : Derives Sep p xs) :
    ∀ x ∈ xs, x.begins = true → x.kind = .word :=
  have hend : ∀ x : Terminal, x.IsEnd → x.begins = true → x.kind = .word := fun x hx hb => by
    rw [hx.begins_eq] at hb
    cases hb
  h.forall_mem (fun x hx => hend x (hsep x hx)) hend (fun _ => ⟨nofun, fun _ => rfl, nofun⟩)
    (fun _ => nofun) nofun nofun nofun

end RcScript
