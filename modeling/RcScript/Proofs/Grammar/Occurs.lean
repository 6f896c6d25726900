/-
# Phrases in other phrases

A phrase `Occurs` in another one when a derivation of the one is part of a derivation of the
other: behind some of its terminals, and between the braces of some lists.  Every node of a
derived tree occurs (`Derives.nodeOccurs`).  Reading the whole reads what stands before
the part and then the part, by a scanner at which a statement begins
(`Occurs.exists_ready`); only the first item of a line list is an exception, because its
list is not open before its first token is read.  Where the whole takes no newline marker
for a semicolon, no part does (`Occurs.strict`).

The braces between a part and the whole are counted, because a line break between them is
another matter, and the terminals before the part are kept, because they say where the
scanner is when it comes to the part.  The first item of a line list is read before the
list counts as open, so what stands at a part may be a scanner that stands for the one
that is there (`StandsFor`); the next token makes them equal.

The constructors of `Occurs` follow the productions inwards, as those of a context with a
hole would: the part is in the body of a binding or a definition, among the items of a
list, behind separators, or among the statements of a script.  The terminals around it are
put before and after those of the part, and only those before it are kept.  From this three
facts are drawn for every part: it is derived itself, its terminals stand in those of the
whole, and in a strict whole it is strict.  What is said later of places in scripts, that
names are legible and that line lists end with their lines, is said of occurrences and
proved by these.
-/

import RcScript.Proofs.Grammar.Strict

namespace RcScript

open Terminal

variable {Sep : Terminal → Prop} {p q : Phrase} {xs ys before : List Terminal} {depth : Nat}

/-- The phrase `q` with the terminals `ys` is part of a derivation, behind the terminals
before it and between the braces of so many lists. -/
inductive Occurs (Sep : Terminal → Prop) (q : Phrase) (ys : List Terminal) :
    Phrase → List Terminal → Nat → List Terminal → Prop
  | here (derived : Derives Sep q ys) : Occurs Sep q ys q ys 0 []
  | binding {keys : String} {body : Stmt} {xs before : List Terminal} {depth : Nat}
      (inside : Occurs Sep q ys (.nested body) xs depth before) :
      Occurs Sep q ys (.statement (.map keys body)) (word "map" :: head keys :: xs) depth
        (word "map" :: head keys :: before)
  | definition {name : String} {body : Stmt} {xs before : List Terminal} {depth : Nat}
      (inside : Occurs Sep q ys (.nested body) xs depth before) :
      Occurs Sep q ys (.statement (.cmd name body)) (word "cmd" :: head name :: xs) depth
        (word "cmd" :: head name :: before)
  | bracedList {first : Stmt} {others : List Stmt} {xs before : List Terminal} {depth : Nat}
      {last : Terminal} (inside : Occurs Sep q ys (.items (first :: others)) xs depth before)
      (ends : last.IsEnd) :
      Occurs Sep q ys (.statement (.list first others))
        (colon :: openBraces :: (xs ++ [closeBraces, last])) (depth + 1)
        (colon :: openBraces :: before)
  | lineList {first : Stmt} {others : List Stmt} {xs before : List Terminal} {depth : Nat}
      (inside : Occurs Sep q ys (.items (first :: others)) xs depth before) :
      Occurs Sep q ys (.statement (.list first others)) (colon :: (xs ++ [newline])) depth
        (colon :: before)
  | nested {stmt : Stmt} {seps xs before : List Terminal} {depth : Nat}
      (separate : ∀ x ∈ seps, Sep x)
      (inside : Occurs Sep q ys (.statement stmt) xs depth before) :
      Occurs Sep q ys (.nested stmt) (seps ++ xs) depth (seps ++ before)
  | one {stmt : Stmt} {xs before : List Terminal} {depth : Nat}
      (inside : Occurs Sep q ys (.nested stmt) xs depth before) :
      Occurs Sep q ys (.items [stmt]) xs depth before
  | first {first second : Stmt} {others : List Stmt} {xs zs before : List Terminal} {depth : Nat}
      (inside : Occurs Sep q ys (.nested first) xs depth before)
      (items : Derives Sep (.items (second :: others)) zs) :
      Occurs Sep q ys (.items (first :: second :: others)) (xs ++ zs) depth before
  | later {first second : Stmt} {others : List Stmt} {xs zs before : List Terminal} {depth : Nat}
      (nested : Derives Sep (.nested first) xs)
      (inside : Occurs Sep q ys (.items (second :: others)) zs depth before) :
      Occurs Sep q ys (.items (first :: second :: others)) (xs ++ zs) depth (xs ++ before)
  | next {stmt : Stmt} {stmts : List Stmt} {xs zs before : List Terminal} {depth : Nat}
      (inside : Occurs Sep q ys (.nested stmt) xs depth before)
      (script : Derives Sep (.script stmts) zs) :
      Occurs Sep q ys (.script (stmt :: stmts)) (xs ++ zs) depth before
  | after {stmt : Stmt} {stmts : List Stmt} {xs zs before : List Terminal} {depth : Nat}
      (nested : Derives Sep (.nested stmt) xs)
      (inside : Occurs Sep q ys (.script stmts) zs depth before) :
      Occurs Sep q ys (.script (stmt :: stmts)) (xs ++ zs) depth (xs ++ before)

/-- What something occurs in is derived. -/
theorem Occurs.derives (h : Occurs Sep q ys p xs depth before) : Derives Sep p xs := by
  induction h with
  | here derived => exact derived
  | binding _ ih => exact .binding ih
  | definition _ ih => exact .definition ih
  | bracedList _ ends ih => exact .bracedList ih ends
  | lineList _ ih => exact .lineList ih
  | nested separate _ ih => exact .nested separate ih
  | one _ ih => exact .one ih
  | first _ items ih => exact .more ih items
  | later nested _ ih => exact .more nested ih
  | next _ script ih => exact .next ih script
  | after nested _ ih => exact .next nested ih

/-- What occurs in something is derived. -/
theorem Occurs.part (h : Occurs Sep q ys p xs depth before) : Derives Sep q ys := by
  induction h with
  | here derived => exact derived
  | _ => assumption

/-- A part of a part is a part. -/
theorem Occurs.trans {r : Phrase} {zs outer : List Terminal} {outerDepth : Nat}
    (h : Occurs Sep q ys p xs depth before) (ho : Occurs Sep p xs r zs outerDepth outer) :
    Occurs Sep q ys r zs (outerDepth + depth) (outer ++ before) := by
  induction ho with
  | here _ =>
    rw [Nat.zero_add]
    exact h
  | binding _ ih => exact .binding ih
  | definition _ ih => exact .definition ih
  | bracedList _ ends ih =>
    rw [Nat.add_right_comm]
    exact .bracedList ih ends
  | lineList _ ih => exact .lineList ih
  | nested separate _ ih =>
    rw [List.append_assoc]
    exact .nested separate ih
  | one _ ih => exact .one ih
  | first _ items ih => exact .first ih items
  | later nested _ ih =>
    rw [List.append_assoc]
    exact .later nested ih
  | next _ script ih => exact .next ih script
  | after nested _ ih =>
    rw [List.append_assoc]
    exact .after nested ih

section
variable {Sep' : Terminal → Prop} (hsep : ∀ x, Sep x → Sep' x)
include hsep

/-- More may be derived where more may stand for a semicolon. -/
theorem Derives.mono (hd : Derives Sep p xs) : Derives Sep' p xs := by
  induction hd with
  | switch option ends => exact .switch option (hsep _ ends)
  | setting option value ends => exact .setting option value (hsep _ ends)
  | binding _ ih => exact .binding ih
  | definition _ ih => exact .definition ih
  | call args free ends => exact .call args free (hsep _ ends)
  | line g text => exact .line g text
  | block g text ends => exact .block g text ends
  | bracedList _ ends ih => exact .bracedList ih ends
  | lineList _ ih => exact .lineList ih
  | nested separate _ ih => exact .nested (fun x hx => hsep x (separate x hx)) ih
  | one _ ih => exact .one ih
  | more _ _ ih₁ ih₂ => exact .more ih₁ ih₂
  | finish separate => exact .finish fun x hx => hsep x (separate x hx)
  | next _ _ ih₁ ih₂ => exact .next ih₁ ih₂

/-- A part stays one where more may stand for a semicolon. -/
theorem Occurs.mono (h : Occurs Sep q ys p xs depth before) :
    Occurs Sep' q ys p xs depth before := by
  induction h with
  | here derived => exact .here (derived.mono hsep)
  | binding _ ih => exact .binding ih
  | definition _ ih => exact .definition ih
  | bracedList _ ends ih => exact .bracedList ih ends
  | lineList _ ih => exact .lineList ih
  | nested separate _ ih => exact .nested (fun x hx => hsep x (separate x hx)) ih
  | one _ ih => exact .one ih
  | first _ items ih => exact .first ih (items.mono hsep)
  | later nested _ ih => exact .later (nested.mono hsep) ih
  | next _ script ih => exact .next ih (script.mono hsep)
  | after nested _ ih => exact .after (nested.mono hsep) ih

end

/-- The terminals of a part stand in those of the whole. -/
theorem Occurs.exists_append (h : Occurs Sep q ys p xs depth before) :
    ∃ after, xs = before ++ (ys ++ after) := by
  induction h with
  | here => exact ⟨[], (List.append_nil ys).symm⟩
  | binding _ ih | definition _ ih =>
    obtain ⟨after, rfl⟩ := ih
    exact ⟨after, rfl⟩
  | bracedList _ _ ih | lineList _ ih =>
    obtain ⟨after, rfl⟩ := ih
    exact ⟨_, by simp only [List.cons_append, List.append_assoc]; rfl⟩
  | nested _ _ ih | later _ _ ih | after _ _ ih =>
    obtain ⟨after, rfl⟩ := ih
    exact ⟨after, (List.append_assoc ..).symm⟩
  | one _ ih => exact ih
  | first _ _ ih | next _ _ ih =>
    obtain ⟨after, rfl⟩ := ih
    exact ⟨_, by simp only [List.append_assoc]; rfl⟩

/-- The statements that a phrase is made of. -/
def Phrase.stmts : Phrase → List Stmt
  | .statement stmt | .nested stmt => [stmt]
  | .items stmts | .script stmts => stmts

/-- A node of a list is the list or a node of an item. -/
theorem Tree.mem_walk_list {α : Type} {first node : Tree α} {others : List (Tree α)} :
    node ∈ (list first others).walk ↔
      node = list first others ∨ ∃ item ∈ first :: others, node ∈ item.walk := by
  simp [walk]

/-- Whether a statement occurs somewhere in a derivation. -/
def NodeOccurs (Sep : Terminal → Prop) (p : Phrase) (xs : List Terminal) (node : Stmt) : Prop :=
  ∃ ys depth before, Occurs Sep (.statement node) ys p xs depth before

/-- A statement without others in it occurs where it is derived. -/
theorem Derives.nodeOccurs_of_leaf {stmt : Stmt} (hd : Derives Sep (.statement stmt) xs)
    (hw : stmt.walk = [stmt]) :
    ∀ item ∈ (Phrase.statement stmt).stmts, ∀ node ∈ item.walk,
      NodeOccurs Sep (.statement stmt) xs node := by
  intro item hi node hn
  obtain rfl := List.mem_singleton.1 hi
  rw [hw] at hn
  obtain rfl := List.mem_singleton.1 hn
  exact ⟨_, _, _, .here hd⟩

/-- **Every node of a derived tree occurs.** -/
theorem Derives.nodeOccurs (hd : Derives Sep p xs) :
    ∀ stmt ∈ p.stmts, ∀ node ∈ stmt.walk, NodeOccurs Sep p xs node := by
  induction hd with
  | switch option ends => exact (Derives.switch option ends).nodeOccurs_of_leaf rfl
  | setting option value ends => exact (Derives.setting option value ends).nodeOccurs_of_leaf rfl
  | call args free ends => exact (Derives.call args free ends).nodeOccurs_of_leaf rfl
  | line g text => exact (Derives.line g text).nodeOccurs_of_leaf rfl
  | block g text ends => exact (Derives.block g text ends).nodeOccurs_of_leaf rfl
  | binding nested ih =>
    intro stmt hs node hn
    obtain rfl := List.mem_singleton.1 hs
    rcases List.mem_cons.1 hn with rfl | hn
    · exact ⟨_, _, _, .here (.binding nested)⟩
    · obtain ⟨_, _, _, h⟩ := ih _ (.head _) node hn
      exact ⟨_, _, _, .binding h⟩
  | definition nested ih =>
    intro stmt hs node hn
    obtain rfl := List.mem_singleton.1 hs
    rcases List.mem_cons.1 hn with rfl | hn
    · exact ⟨_, _, _, .here (.definition nested)⟩
    · obtain ⟨_, _, _, h⟩ := ih _ (.head _) node hn
      exact ⟨_, _, _, .definition h⟩
  | bracedList items ends ih =>
    intro stmt hs node hn
    obtain rfl := List.mem_singleton.1 hs
    rcases Tree.mem_walk_list.1 hn with rfl | ⟨item, hi, hn⟩
    · exact ⟨_, _, _, .here (.bracedList items ends)⟩
    · obtain ⟨_, _, _, h⟩ := ih item hi node hn
      exact ⟨_, _, _, .bracedList h ends⟩
  | lineList items ih =>
    intro stmt hs node hn
    obtain rfl := List.mem_singleton.1 hs
    rcases Tree.mem_walk_list.1 hn with rfl | ⟨item, hi, hn⟩
    · exact ⟨_, _, _, .here (.lineList items)⟩
    · obtain ⟨_, _, _, h⟩ := ih item hi node hn
      exact ⟨_, _, _, .lineList h⟩
  | nested separate statement ih =>
    intro stmt hs node hn
    obtain ⟨_, _, _, h⟩ := ih stmt hs node hn
    exact ⟨_, _, _, .nested separate h⟩
  | one nested ih =>
    intro stmt hs node hn
    obtain ⟨_, _, _, h⟩ := ih stmt hs node hn
    exact ⟨_, _, _, .one h⟩
  | more nested items ih₁ ih₂ =>
    intro stmt hs node hn
    rcases List.mem_cons.1 hs with rfl | hs
    · obtain ⟨_, _, _, h⟩ := ih₁ _ (.head _) node hn
      exact ⟨_, _, _, .first h items⟩
    · obtain ⟨_, _, _, h⟩ := ih₂ stmt hs node hn
      exact ⟨_, _, _, .later nested h⟩
  | finish separate => exact nofun
  | next nested script ih₁ ih₂ =>
    intro stmt hs node hn
    rcases List.mem_cons.1 hs with rfl | hs
    · obtain ⟨_, _, _, h⟩ := ih₁ _ (.head _) node hn
      exact ⟨_, _, _, .next h script⟩
    · obtain ⟨_, _, _, h⟩ := ih₂ stmt hs node hn
      exact ⟨_, _, _, .after nested h⟩

namespace Scanner

variable {s : Scanner} {lists : Nat} {saved : List Nat}

/-- Without braces after a colon, one more line list is open, as if it had been opened before
the next token is read. -/
theorem Poised.openLine_of_colon (h : Poised .colon 0 lists saved s)
    (hk : s.look.token.kind ≠ .openBraces) :
    Poised .normal 0 (lists + 1) saved s.openLine ∧ s.openLine.look = s.look := by
  refine h.look_openLine fun cs hr => ?_
  rw [(Step.bracedList h.owed h.mode hr).eq_look h.live] at hk
  exact hk rfl

/-- One scanner stands for another: it is the same, or it has opened the line list that the
other opens with its next token. -/
def StandsFor (u v : Scanner) : Prop :=
  u.look = v.look ∧ (u = v ∨ v.mode = .colon ∧ u = v.openLine)

/-- A scanner stands for itself. -/
theorem standsFor_refl (s : Scanner) : StandsFor s s := ⟨rfl, .inl rfl⟩

/-- A scanner has the dues that it has. -/
theorem Ready.unique {dues dues' : Int} (h : Ready dues saved s) (h' : Ready dues' saved s) :
    dues = dues' := by
  obtain ⟨⟨owed, lists, -, rfl, hp⟩, -⟩ := h
  obtain ⟨⟨owed', lists', -, rfl, hp'⟩, -⟩ := h'
  rw [← hp.owed, ← hp.lists, ← hp'.owed, ← hp'.lists]

end Scanner

/-- Of two phrases that leave the dues as they are together, each one does. -/
theorem Derives.strict_append (hp : Derives IsEnd p xs) (hq : Derives IsEnd q ys)
    {s t : Scanner} {dues : Int} {saved : List Nat} (hs : s.Ready dues saved)
    (hr : s.Reads (xs ++ ys) t) (ht : t.Ready dues saved) :
    ∃ u, s.Reads xs u ∧ u.Reads ys t ∧ u.Ready dues saved ∧
      Derives IsSeparator p xs ∧ Derives IsSeparator q ys := by
  obtain ⟨u, hr₁, hr₂⟩ := Scanner.reads_append.1 hr
  obtain ⟨-, d₁, hle₁, h₁, hs₁, -⟩ := hp.settles (fun _ => id) hs hr₁
  obtain ⟨-, d₂, hle₂, h₂, hs₂, -⟩ := hq.settles (fun _ => id) h₁ hr₂
  obtain rfl : d₂ = dues := h₂.unique ht
  obtain rfl : d₁ = d₂ := Int.le_antisymm hle₁ hle₂
  exact ⟨u, hr₁, hr₂, h₁, hs₁ rfl, hs₂ rfl⟩

/-- **A part is strict where the whole leaves the dues as they are.** -/
theorem Occurs.strict (h : Occurs IsEnd q ys p xs depth before) {s t : Scanner} {dues : Int}
    {saved : List Nat} (hs : s.Ready dues saved) (hr : s.Reads xs t) (ht : t.Ready dues saved) :
    Occurs IsSeparator q ys p xs depth before := by
  induction h generalizing s t dues saved with
  | here derived =>
    obtain ⟨-, d, -, h, hstrict, -⟩ := derived.settles (fun _ => id) hs hr
    exact .here (hstrict (h.unique ht))
  | binding _ ih =>
    obtain ⟨s₁, -, hr, h₁, -⟩ := hs.read_headed hr
    exact .binding (ih h₁ hr ht)
  | definition _ ih =>
    obtain ⟨s₁, -, hr, h₁, -⟩ := hs.read_headed hr
    exact .definition (ih h₁ hr ht)
  | bracedList inside ends ih =>
    obtain ⟨_, s₁, -, -, hr, h₁⟩ := hs.read_listHead hr
    obtain ⟨s₂, hr₂, -⟩ := Scanner.reads_append.1 hr
    exact .bracedList (ih h₁ hr₂ (inside.derives.strict h₁ hr₂).2.2) ends
  | lineList inside ih =>
    obtain ⟨s₁, hr₁, hr⟩ := Scanner.reads_cons.1 hr
    obtain ⟨lists, rfl, h₁⟩ := hs.owing.read_colon hr₁
    obtain ⟨x, xs, rfl, hx⟩ := inside.derives.items_starts
    obtain ⟨u, hu, hr⟩ := h₁.exists_ready_of_reads hr (hx.kind_ne fun _ => id)
    have hr : u.Reads ((x :: xs) ++ [newline]) t := hr
    obtain ⟨s₂, hr₂, hr₃⟩ := Scanner.reads_append.1 hr
    obtain ⟨-, d, -, h₂, -⟩ := inside.derives.settles (fun _ => id) hu hr₂
    have hd := (h₂.owing.read_newline hr₃).unique ht
    obtain rfl : d = lists + 1 := by omega
    exact .lineList (ih hu hr₂ h₂)
  | nested separate inside ih =>
    obtain ⟨s₁, hr₁, hr⟩ := Scanner.reads_append.1 hr
    obtain ⟨d₁, hle₁, h₁, hs₁⟩ := hs.read_separators separate hr₁
    obtain ⟨-, d₂, hle₂, h₂, -⟩ := inside.derives.settles (fun _ => id) h₁ hr
    obtain rfl : d₂ = dues := h₂.unique ht
    obtain rfl : d₁ = d₂ := Int.le_antisymm hle₁ hle₂
    exact .nested (hs₁.1 rfl) (ih h₁ hr ht)
  | one _ ih => exact .one (ih hs hr ht)
  | first inside items ih =>
    obtain ⟨u, hr₁, hr₂, hu, -, hitems⟩ := inside.derives.strict_append items hs hr ht
    exact .first (ih hs hr₁ hu) hitems
  | later nested inside ih =>
    obtain ⟨u, hr₁, hr₂, hu, hnested, -⟩ := nested.strict_append inside.derives hs hr ht
    exact .later hnested (ih hu hr₂ ht)
  | next inside script ih =>
    obtain ⟨u, hr₁, hr₂, hu, -, hscript⟩ := inside.derives.strict_append script hs hr ht
    exact .next (ih hs hr₁ hu) hscript
  | after nested inside ih =>
    obtain ⟨u, hr₁, hr₂, hu, hnested, -⟩ := nested.strict_append inside.derives hs hr ht
    exact .after hnested (ih hu hr₂ ht)

/-- **What stands before a part is read, and then the part.** -/
theorem Occurs.exists_ready (hsep : ∀ x, Sep x → x.IsEnd)
    (h : Occurs Sep q ys p xs depth before) {s t : Scanner} {dues : Int} {saved : List Nat}
    (hs : s.Ready dues saved) (hr : s.Reads xs t) :
    ∃ u v w : Scanner, s.Reads before v ∧ u.StandsFor v ∧ (∃ dues saved, u.Ready dues saved) ∧
      u.Reads ys w := by
  induction h generalizing s t dues saved with
  | here derived => exact ⟨s, s, t, rfl, Scanner.standsFor_refl s, ⟨dues, saved, hs⟩, hr⟩
  | binding inside ih | definition inside ih =>
    obtain ⟨s₁, hr₁, hr, h₁, -⟩ := hs.read_headed hr
    obtain ⟨u, v, w, hv, h⟩ := ih h₁ hr
    exact ⟨u, v, w, Scanner.reads_append.2 ⟨s₁, hr₁, hv⟩, h⟩
  | bracedList inside ends ih =>
    obtain ⟨_, s₁, -, hr₁, hr, h₁⟩ := hs.read_listHead hr
    obtain ⟨s₂, hr₂, -⟩ := Scanner.reads_append.1 hr
    obtain ⟨u, v, w, hv, h⟩ := ih h₁ hr₂
    exact ⟨u, v, w, Scanner.reads_append.2 ⟨s₁, hr₁, hv⟩, h⟩
  | @lineList _ _ _ before _ inside ih =>
    obtain ⟨s₁, hr₁, hr⟩ := Scanner.reads_cons.1 hr
    obtain ⟨lists, -, h₁⟩ := hs.owing.read_colon hr₁
    obtain ⟨x, xs, rfl, hx⟩ := inside.derives.items_starts
    have hk : s₁.look.token.kind ≠ .openBraces := by
      rw [hr.1.1]
      exact hx.kind_ne hsep
    obtain ⟨hopen, hl⟩ := h₁.openLine_of_colon hk
    have hready : s₁.openLine.Ready (lists + 1) saved :=
      ⟨⟨0, lists + 1, Int.le_refl 0, by omega, hopen⟩, rfl⟩
    have hru : s₁.openLine.Reads ((x :: xs) ++ [newline]) t := hr.congr hl.symm
    obtain ⟨s₂, hr₂, -⟩ := Scanner.reads_append.1 hru
    obtain ⟨u, v, w, hv, hstands, hu⟩ := ih hready hr₂
    cases before with
    | nil =>
      -- nothing was read since the colon: the scanner that stands there has no list open yet
      obtain rfl : v = s₁.openLine := hv
      obtain ⟨hlook, rfl | ⟨hm, -⟩⟩ := hstands
      · exact ⟨_, s₁, w, hr₁, ⟨hl, .inr ⟨h₁.mode, rfl⟩⟩, hu⟩
      · cases hm
    | cons y before => exact ⟨u, v, w, hr₁.cons (hv.congr hl), hstands, hu⟩
  | nested separate inside ih =>
    obtain ⟨s₁, hr₁, hr⟩ := Scanner.reads_append.1 hr
    obtain ⟨_, -, h₁, -⟩ := hs.read_separators (fun x hx => hsep x (separate x hx)) hr₁
    obtain ⟨u, v, w, hv, h⟩ := ih h₁ hr
    exact ⟨u, v, w, Scanner.reads_append.2 ⟨s₁, hr₁, hv⟩, h⟩
  | one inside ih => exact ih hs hr
  | first inside _ ih | next inside _ ih =>
    obtain ⟨s₁, hr₁, -⟩ := Scanner.reads_append.1 hr
    exact ih hs hr₁
  | later nested inside ih | after nested inside ih =>
    obtain ⟨s₁, hr₁, hr⟩ := Scanner.reads_append.1 hr
    obtain ⟨-, _, -, h₁, -⟩ := nested.settles hsep hs hr₁
    obtain ⟨u, v, w, hv, h⟩ := ih h₁ hr
    exact ⟨u, v, w, Scanner.reads_append.2 ⟨s₁, hr₁, hv⟩, h⟩

end RcScript
