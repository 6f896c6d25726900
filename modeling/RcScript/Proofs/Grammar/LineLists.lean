/-
# Line lists end with their lines

The marker that closes a line list stands where the first line behind its colon ends, where
line breaks in the texts of commands and between the braces of nested lists do not count
(`LineListOccurs.ends`).  That it stands no later is because a line list passes no other line
breaks; that it stands no earlier is a matter of the order in which tokens stand.  A line
list in another one, with no braces between them, is closed by a marker of the same line
break (`LineListOccurs.closed`).

Two orders have to be brought together, that of the terminals and that of the text.  The
end of the line is found by the scanner, as an offset; which line breaks do not count is
said of the derivation, in terms of what stands behind which terminals.  What ends the line
is behind all terminals of the items that come before it and before all that come after,
so a line break that ends it is neither in a text of a command nor between braces
(`not_covered`, `not_fenced`).

What is meant by the end of a line is stated without the scanner (`EndsFirst`): a line
begins behind an offset and ends at the first line break from there that is not hidden, or
with the text.  The other half of the statement is about the marker, which is the terminal
right behind the items, and says at which offset its token stands.  `LineListEnds` puts the
two together, with the offset of the colon where the line begins and that of the marker
where it ends, so that it can be read as a statement about the source.
-/

import RcScript.Proofs.Grammar.LineBreaks

namespace RcScript

open Terminal Scanner

variable {source filename : String} {outer xs ys before : List Terminal} {Sep : Terminal → Prop}
  {p : Phrase} {depth : Nat} {first : Stmt} {others : List Stmt}

/-- A line list with the terminals of its items occurs in a phrase. -/
structure LineListOccurs (Sep : Terminal → Prop) (first : Stmt) (others : List Stmt)
    (ys : List Terminal) (p : Phrase) (xs : List Terminal) (depth : Nat) (before : List Terminal) :
    Prop where
  items : Derives Sep (.items (first :: others)) ys
  occurs : Occurs Sep (.statement (.list first others)) (colon :: (ys ++ [newline])) p xs depth
    before

/-- **A line list in another one**, with no braces between them, ends where the line ends, and
so does all that is read of the phrase that it is in. -/
theorem LineListOccurs.closed (ho : LineListOccurs IsSeparator first others ys p xs depth before)
    (hd : depth = 0) (hp : p.IsInner) {s t : Scanner} {lists a : Nat}
    {saved : List Nat} (h : Amid source filename outer lists saved a s) (hl : lists ≠ 0)
    (hr : Reads s xs t) :
    Poised .normal lists 0 saved t ∧
      (tokenBehind source filename (outer ++ (before ++ colon :: ys))).position = t.marker := by
  obtain ⟨items, ho⟩ := ho
  induction ho generalizing outer s t lists saved a with
  | here derived =>
    obtain ⟨s₁, hr₁, hr⟩ := reads_cons.1 hr
    obtain ⟨b, hle, hu, hcolon, hbehind, hb⟩ := h.read_colon hl hr₁
    obtain ⟨m, -, -, ht, -, hmarker⟩ := hcolon.close_line hbehind hb
      (items.kind_ne fun _ => IsSeparator.kind_eq) items.items_head hr
      fun hu => items.outcome trivial hu (Nat.succ_ne_zero _)
    rw [List.append_assoc] at hmarker
    exact ⟨ht, hmarker⟩
  | @binding keys _ xs before _ inside ih =>
    obtain ⟨u, hr₁, hr⟩ := reads_append.1 (show Reads s ([word "map", head keys] ++ xs) t from hr)
    obtain ⟨b, -, -, h'⟩ := h.reads_plain hl (by simp [word, head]) hr₁
    have hclosed := ih hd trivial h' hl hr
    rwa [List.append_assoc] at hclosed
  | @definition name _ xs before _ inside ih =>
    obtain ⟨u, hr₁, hr⟩ := reads_append.1 (show Reads s ([word "cmd", head name] ++ xs) t from hr)
    obtain ⟨b, -, -, h'⟩ := h.reads_plain hl (by simp [word, head]) hr₁
    have hclosed := ih hd trivial h' hl hr
    rwa [List.append_assoc] at hclosed
  | bracedList => cases hd
  | @lineList _ _ xs before _ inside ih =>
    obtain ⟨s₁, hr₁, hr⟩ := reads_cons.1 hr
    obtain ⟨b, -, -, hcolon, hbehind, hb⟩ := h.read_colon hl hr₁
    have hclosed := hcolon.close_inner hbehind hb inside.derives.items_head hr
      fun hu hr => ih hd trivial hu (Nat.succ_ne_zero _) hr
    rwa [List.append_assoc] at hclosed
  | nested separate inside ih =>
    obtain ⟨u, hr₁, hr⟩ := reads_append.1 hr
    obtain ⟨b, -, -, h'⟩ := h.reads_plain hl (fun x hx => .inr (separate x hx)) hr₁
    have hclosed := ih hd trivial h' hl hr
    rwa [List.append_assoc, ← List.append_assoc _ _ (colon :: _)] at hclosed
  | one inside ih => exact ih hd trivial h hl hr
  | first inside items' ih =>
    obtain ⟨u, hr₁, hr⟩ := reads_append.1 hr
    -- no item follows one in which the line has ended: a marker would come before it
    obtain ⟨x, zs, rfl, hx⟩ := items'.items_starts
    exact ((ih hd trivial h hl hr₁).1.not_starts (Int.natCast_ne_zero.2 hl) hr hx).elim
  | later nested inside ih =>
    obtain ⟨u, hr₁, hr⟩ := reads_append.1 hr
    cases nested.outcome trivial h hl hr₁ with
    | goesOn poised located =>
      have hbehind := h.behind.reads hr₁ (nested.kind_ne fun _ => IsSeparator.kind_eq)
      have hclosed := ih hd trivial ⟨poised, hbehind, located⟩ hl hr
      rwa [List.append_assoc, ← List.append_assoc _ _ (colon :: _)] at hclosed
    | ended poised =>
      obtain ⟨x, zs, rfl, hx⟩ := inside.derives.items_starts
      exact (poised.not_starts (Int.natCast_ne_zero.2 hl) hr hx).elim
  | next | after => exact hp.elim

/-- A line list that occurs where the loose grammar leaves the dues as they are occurs in the
strict one. -/
theorem LineListOccurs.strict (ho : LineListOccurs IsEnd first others ys p xs depth before)
    {s t : Scanner} {dues : Int} {saved : List Nat} (hs : s.Ready dues saved) (hr : Reads s xs t)
    (ht : t.Ready dues saved) : LineListOccurs IsSeparator first others ys p xs depth before := by
  have hitems := (Occurs.lineList (.here ho.items)).trans ho.occurs
  exact ⟨(hitems.strict hs hr ht).part, ho.occurs.strict hs hr ht⟩

/-- A line list in the items of another one, with no braces between them, is closed where
that one is. -/
theorem LineListOccurs.position_eq {stmts : List Stmt} {inner zs : List Terminal}
    (ho : LineListOccurs IsEnd first others zs (.items stmts) ys 0 inner)
    (items : Derives IsSeparator (.items stmts) ys) {s t : Scanner} {lists a : Nat}
    {saved : List Nat} (h : Poised .colon 0 lists saved s) (hb : Behind source filename outer s)
    (hs : Located source.toList a s) (hr : Reads s (ys ++ [newline]) t) :
    (tokenBehind source filename (outer ++ (inner ++ colon :: zs))).position = t.marker := by
  obtain ⟨x, ys, rfl, hx⟩ := items.items_head
  obtain ⟨u, hu, hru⟩ := h.exists_ready_of_reads hr hx
  obtain ⟨v, hv, -⟩ := reads_append.1 (show Reads u ((x :: ys) ++ [newline]) t from hru)
  have hstrict := ho.strict hu hv (items.keeps_dues hu hv)
  exact (h.close_inner hb hs ⟨x, ys, rfl, hx⟩ hr fun hu =>
    hstrict.closed rfl trivial hu (Nat.succ_ne_zero _)).2

/-! ### The line break that closes a line list -/

section
variable {rest : List Terminal} {s t u : Scanner} {text : List Char} {stop last m : Nat}

/-- Terminals that stand in two places in a list do so one after the other. -/
theorem append_cons_eq {x y : Terminal} {as bs cs ds : List Terminal} (hne : x ≠ y)
    (h : as ++ x :: bs = cs ++ y :: ds) :
    (∃ mid, cs = as ++ x :: mid) ∨ ∃ mid, as = cs ++ y :: mid := by
  rcases List.append_eq_append_iff.1 h with ⟨mid, rfl, hb⟩ | ⟨mid, rfl, hb⟩
  · cases mid with
    | nil => exact absurd (List.cons_eq_cons.1 hb).1 hne
    | cons z mid => exact .inl ⟨mid, by rw [(List.cons_eq_cons.1 hb).1]⟩
  · cases mid with
    | nil => exact absurd (List.cons_eq_cons.1 hb).1.symm hne
    | cons z mid => exact .inr ⟨mid, by rw [(List.cons_eq_cons.1 hb).1]⟩

/-- Tokens stand in the order of their terminals, and what comes behind the text of a command
stands behind all of it. -/
theorem offset_le_of_behind {x : Terminal} {i j : Nat} (hs : Behind source filename [] s)
    (htracks : Tracks source.toList stop last s)
    (hx : ∀ y ∈ before ++ x :: ys, y.kind ≠ .endOfInput)
    (hr : Reads s (before ++ x :: ys) t) (hi : offsetBehind? source filename before = some i)
    (hj : offsetBehind? source filename (before ++ x :: ys) = some j) :
    i ≤ j ∧ (x.kind = .command → i + x.text.toList.length ≤ j) := by
  have ht : Behind source filename (before ++ x :: ys) t := hs.reads hr hx
  obtain ⟨u, hr₁, hr₂⟩ := reads_append.1 hr
  obtain ⟨hx₁, hx₂⟩ := List.forall_mem_append.1 hx
  have hu : Behind source filename before u := hs.reads hr₁ hx₁
  obtain ⟨stop', last', -, htracks⟩ := hr₁.tracks htracks hs.live hx₁
  rw [hu.offsetBehind?_eq] at hi
  rw [ht.offsetBehind?_eq] at hj
  exact ⟨hr₂.offset_le htracks hu.live hx₂ hi hj, hr₂.command_le htracks hu.live hx₂ hi hj⟩

/-- What ends a line is in no text of a command: the texts before it end before it, and
those behind it begin behind its line break. -/
theorem not_covered (hs : Behind source filename [] s) (htracks : Tracks source.toList stop last s)
    (hx : ∀ x ∈ before ++ newline :: rest, x.kind ≠ .endOfInput)
    (hr : Reads s (before ++ [newline]) t) (hr' : Reads t rest u)
    (hm : offsetBehind? source filename before = some m) (hline : LineEnded source.toList m t) :
    ¬Covered source filename [] (before ++ newline :: rest) m := by
  rintro ⟨zs, text, after, i, hxs, hi, him, hmi⟩
  have hne : command text ≠ newline := nofun
  rcases append_cons_eq hne hxs.symm with ⟨mid, rfl⟩ | ⟨mid, rfl⟩
  · obtain ⟨v, hr, -⟩ := reads_append.1 hr
    have hle := (offset_le_of_behind hs htracks (List.forall_mem_append.1 hx).1 hr hi hm).2 rfl
    exact absurd hmi (Nat.not_lt_of_le hle)
  · obtain rfl : rest = mid ++ command text :: after := by simpa using hxs
    obtain ⟨v, hr₁, ⟨hk, htext⟩, -⟩ := reads_append.1 hr'
    rw [List.append_cons] at hx hi
    obtain ⟨hx₁, hx₂⟩ := List.forall_mem_append.1 hx
    have hv := (hs.reads hr hx₁).reads hr₁ (List.forall_mem_append.1 hx₂).1
    rw [List.nil_append] at hi hv
    rw [hv.offsetBehind?_eq] at hi
    obtain ⟨b, hbreak, hb⟩ := hline.passed
    obtain ⟨c, hbc, hc⟩ := hr₁.located hb
    have hw : v.look.token.isWritten = true := by
      simp [Token.isWritten, Token.isNewline, hk, command]
    obtain ⟨i', hci, hi', hbound⟩ := (step_look hv.live).written_placed hw hc
    obtain rfl := Option.some.inj (hi'.symm.trans hi)
    have hlength : v.look.token.text.toList.length = text.toList.length := by rw [htext]; rfl
    rcases hbreak with ⟨-, rfl⟩ | ⟨rfl, rfl⟩
    · omega
    · omega

/-- What ends a line is not between braces that have been closed before. -/
theorem not_fenced (hs : Behind source filename [] s) (htracks : Tracks source.toList stop last s)
    (hx : ∀ x ∈ outer ++ xs, x.kind ≠ .endOfInput) (hr : Reads s (outer ++ xs) t)
    (hm : offsetBehind? source filename (outer ++ xs) = some m) :
    ¬Fenced source filename outer xs Sep p m := by
  rintro ⟨first, others, ys, last, depth, zs, i, j, ho, -, hj, -, hmj⟩
  obtain ⟨after, rfl⟩ := ho.exists_append
  have hsplit : outer ++ (zs ++ (colon :: openBraces :: (ys ++ [.closeBraces, last]) ++ after)) =
      (outer ++ (zs ++ colon :: openBraces :: ys)) ++ .closeBraces :: (last :: after) := by simp
  rw [hsplit] at hx hr hm
  have hle := (offset_le_of_behind hs htracks hx hr hj hm).1
  exact absurd hmj (Nat.not_lt_of_le hle)

end

/-- A line that begins behind `start` ends at `stop`: at the first line break that is not
hidden, or with the text. -/
structure EndsFirst (text : List Char) (IsHidden : Nat → Prop) (start stop : Nat) : Prop where
  later : start < stop
  line : EndsLine text stop
  bare : ¬IsHidden stop
  first : Screened text IsHidden (start + 1) stop

/-- How a line list with the terminals of its items ends in a script with other terminals.
Its colon and the marker that closes it stand behind their terminals.  The marker stands
where the line of the colon ends, if line breaks in the texts of commands and between the
braces of lists in it are left out; and the markers that close line lists in it, with no
braces between them, stand there too. -/
structure LineListEnds (source filename : String) (xs before : List Terminal) (first : Stmt)
    (others : List Stmt) (ys : List Terminal) : Prop where
  opens : (tokenBehind source filename before).Is colon
  closes : (tokenBehind source filename (before ++ colon :: ys)).Is newline
  line : ∃ start stop, offsetBehind? source filename before = some start ∧
    offsetBehind? source filename (before ++ colon :: ys) = some stop ∧
      EndsFirst source.toList (fun k => Covered source filename [] xs k ∨
        Fenced source filename (before ++ [colon]) ys IsEnd (.items (first :: others)) k) start stop
  together : ∀ first' others' zs inner,
    LineListOccurs IsEnd first' others' zs (.items (first :: others)) ys 0 inner →
      (tokenBehind source filename (before ++ colon :: (inner ++ colon :: zs))).position =
        (tokenBehind source filename (before ++ colon :: ys)).position

/-- **A line list ends with its line.** -/
theorem LineListOccurs.ends (ho : LineListOccurs IsEnd first others ys p xs depth before)
    {s t : Scanner} {dues : Int} {saved : List Nat} {stop last : Nat} (hs : s.Ready dues saved)
    (hr : Reads s xs t) (ht : t.Ready dues saved) (hbehind : Behind source filename [] s)
    (htracks : Tracks source.toList stop last s) (hlocated : Located source.toList 0 s) :
    LineListEnds source filename xs before first others ys := by
  obtain ⟨items, occurs⟩ := ho.strict hs hr ht
  obtain ⟨u, v, -, hv, ⟨hlook, -⟩, ⟨_, _, hu⟩, -⟩ := occurs.exists_ready (fun _ => .inl) hs hr
  have hx := occurs.derives.kind_ne fun _ => IsSeparator.kind_eq
  have hys := items.kind_ne fun _ => IsSeparator.kind_eq
  obtain ⟨after, rfl⟩ := occurs.exists_append
  -- The whole is read up to the colon, up to the marker that closes the list, and to its end.
  obtain ⟨v', hr₁, hr⟩ := reads_append.1 hr
  obtain rfl : v' = v := hr₁.unique hv
  obtain ⟨w, hr₂, hr₅⟩ := reads_append.1 hr
  obtain ⟨s₁, hr₂, hr₃⟩ := reads_cons.1 hr₂
  obtain ⟨s₂, hr₃', hr₄⟩ := reads_append.1 hr₃
  have hbv : Behind source filename before v' := hbehind.reads hr₁ (List.forall_mem_append.1 hx).1
  have hbs₁ := hbv.reads hr₂ (List.forall_mem_singleton.2 nofun)
  have hbs₂ := hbs₁.reads hr₃' hys
  have hclosing : before ++ colon :: ys = before ++ [colon] ++ ys := List.append_cons ..
  -- The list begins behind its colon, and ends with its line.
  obtain ⟨lists, -, hcolon⟩ := hu.owing.read_colon (hr₂.congr hlook.symm)
  obtain ⟨c, -, hc⟩ := hr₁.located hlocated
  obtain ⟨start, hstart⟩ := hr₂.placed (.inl (by decide)) hbv.live hc
  have hlength : v'.look.token.text.toList.length = 1 := by rw [hr₂.1.2]; rfl
  have hs₁ := hstart.located
  rw [hlength] at hs₁
  obtain ⟨m, hle, hscreened, -, hline, hmarker⟩ := hcolon.close_line hbs₁ hs₁ hys items.items_head
    hr₃ fun hu => items.outcome trivial hu (Nat.succ_ne_zero _)
  have hm : offsetBehind? source filename (before ++ [colon] ++ ys) = some m := by
    rw [offsetBehind?, hmarker]
    exact hline.marker
  refine ⟨hbv.token_eq ▸ hr₂.1, hclosing ▸ hbs₂.token_eq ▸ hr₄.1,
    ⟨start, m, hbv.offsetBehind?_eq.trans hstart.place, hclosing ▸ hm, hle, ?_, ?_, ?_⟩, ?_⟩
  · obtain ⟨b, hbreak, -⟩ := hline.passed
    exact hbreak.endsLine
  · have hread : Reads s (before ++ [colon] ++ ys) s₂ :=
      reads_append.2 ⟨s₁, reads_append.2 ⟨v', hr₁, hr₂⟩, hr₃'⟩
    have hwhole : before ++ (colon :: (ys ++ [newline]) ++ after) =
        before ++ [colon] ++ ys ++ newline :: after := by simp
    rw [hwhole] at hx ⊢
    rintro (hcovered | hfenced)
    · exact not_covered hbehind htracks hx (reads_append.2 ⟨s₂, hread, hr₄⟩) hr₅ hm hline hcovered
    · exact not_fenced hbehind htracks (List.forall_mem_append.1 hx).1 hread hm hfenced
  · refine hscreened.imp fun k hk => hk.imp (fun hc => ?_) (Fenced.mono fun _ => .inl)
    exact hc.of_occurs ((Occurs.lineList (.here ho.items)).trans ho.occurs)
  · intro first' others' zs inner hinner
    have hclosed := hinner.position_eq items hcolon hbs₁ hs₁ hr₃
    rw [List.append_assoc] at hclosed
    exact hclosing ▸ hclosed.trans hmarker.symm

end RcScript
