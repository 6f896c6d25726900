/-
# Where reading breaks off

A script that fails as incomplete has been read as far as it goes: the tokens passed begin a
statement, in the loose grammar in which a newline marker may stand for any semicolon, and
the end of input comes next (`breaks_statement`).  The statement may be one higher than the
depth allows, for the keyword of a binding is read where its body could not be.

Only failures are looked at: a statement that is read is no concern of this module, so
each judgment says nothing of values and what must hold of a failure.  A failure of the
scanner needs no word, since it is not one of an incomplete script.  For each kind of
statement the terminals passed so far are followed from one token to the next, and where a
token is refused they are put together to what is begun by the lemmas of
`RcScript.Proofs.Grammar.Begun`, which have the shape of the productions.

The depth in the statement is one more than that of the reader, because the keyword of a
binding or a colon is read without asking whether what must follow it could be read.  If
the script ends there it is incomplete, although no statement of the depth could be made
of it; one more level is enough in all cases.  This is where the bound on nesting shows in
what can be completed, and `RcScript.Proofs.Session.Completed` has to take it into
account.
-/

import RcScript.Proofs.Grammar.Begun
import RcScript.Proofs.Reader.Complete
import RcScript.Proofs.Reader.Progress
import RcScript.Proofs.Scanner.Extended

namespace RcScript

open Terminal Scanner

variable {r r' r₁ : Reader} {s t : Scanner} {part : Part} {depth : Nat} {xs ys : List Terminal}

namespace Reader

/-- A reader stands past some terminals that were read from a scanner. -/
def After (r : Reader) (s : Scanner) (xs : List Terminal) : Prop := ∃ t, Reads s xs t ∧ r.At t

/-- A reader past some terminals has met no fault. -/
theorem After.live (h : r.After s xs) : r.Live := by
  obtain ⟨t, -, ht⟩ := h
  exact ⟨t, ht⟩

/-- A reader at a scanner is past no terminals. -/
theorem At.after (h : r.At s) : r.After s [] := ⟨s, rfl, h⟩

/-- What is read behind some terminals is read behind all of them. -/
theorem After.append {s : Scanner} (h : r.After s xs)
    (hnext : ∀ t, r.At t → r'.After t ys) : r'.After s (xs ++ ys) := by
  obtain ⟨t, hr, ht⟩ := h
  obtain ⟨u, hr', hu⟩ := hnext t ht
  exact ⟨u, reads_append.2 ⟨t, hr, hr'⟩, hu⟩

/-- Where the end of input comes next the script has ended. -/
theorem At.ended (h : r.At s) (hk : r.token.kind = .endOfInput) :
    s.look.Ended := by
  have hend := h.token_eq ▸ hk
  rcases extends_look h.live h.sound [] with ⟨-, hk'⟩ | ended | ⟨-, hk', -⟩ | ⟨-, hk', -⟩
  · exact absurd hend hk'
  · exact ended
  · cases hk'.symm.trans hend
  · cases hk'.symm.trans hend

/-- What a failure of an incomplete script leaves: the terminals passed begin a part, and
the end of input comes next. -/
def Breaks (s : Scanner) (part : Part) (depth : Nat) (failure : Failure) (r : Reader) : Prop :=
  ∀ fault, failure = .fault fault → fault.category = .incomplete →
    r.token.kind = .endOfInput ∧ ∃ xs, Begun IsEnd part depth xs ∧ r.After s xs

/-- Where the scanner has met a fault the script is not incomplete. -/
theorem Halts.breaks {failure : Failure} (h : Halts failure r) : Breaks s part depth failure r := by
  obtain ⟨fault, rfl, -, hc, -⟩ := h
  rintro _ ⟨⟩ hi
  rw [hc] at hi
  cases hi

/-- Where a part breaks off, what it is a part of does. -/
theorem Breaks.after {failure : Failure} {part' : Part} {depth' : Nat}
    (h : Breaks t part depth failure r) (hr : Reads s xs t)
    (hbegun : ∀ ys, Begun IsEnd part depth ys → Begun IsEnd part' depth' (xs ++ ys)) :
    Breaks s part' depth' failure r := by
  intro fault hf hc
  obtain ⟨hk, ys, hys, u, hr', hu⟩ := h fault hf hc
  exact ⟨hk, xs ++ ys, hbegun ys hys, u, reads_append.2 ⟨t, hr, hr'⟩, hu⟩

end Reader

namespace Parse

open Reader

section
variable {α : Type} {p : Parse α} {Q : α → Reader → Prop} {E : Failure → Reader → Prop}

/-- A value that a step comes to is what it has given. -/
theorem Proceeds.with_eq (h : Proceeds p r Q E) :
    Proceeds p r (fun a r' => Q a r' ∧ p r = .ok a r') E := by
  unfold Proceeds at h ⊢
  generalize p r = result at h ⊢
  cases h with
  | ok reaches holds => exact .ok reaches ⟨holds, rfl⟩
  | error reaches fails => exact .error reaches fails

/-- The look-ahead is passed, or the scanner halts. -/
theorem proceeds_passes (h : r.Live) (hk : r.token.kind ≠ .endOfInput) (begins : Bool) :
    Proceeds (advance begins) r (fun found r' => found = r.token ∧ r.Passes begins r')
      (Breaks s part depth) := by
  obtain ⟨t, ht⟩ := h
  refine (proceeds_advance ht hk begins).with_eq.mono ?_ fun _ _ => Halts.breaks
  rintro _ r' ⟨⟨rfl, -⟩, hp⟩
  exact ⟨rfl, hp⟩

/-- What is refused after terminals that begin a part is refused there. -/
theorem breaks_refuse {cause : Cause} (h : r.After s xs) (hb : Begun IsEnd part depth xs) :
    Proceeds (refuse cause : Parse α) r Q (Breaks s part depth) := by
  refine .error (.refl r) ?_
  rintro _ ⟨⟩ hc
  have hk : r.token.kind = .endOfInput := by
    by_contra hk
    rw [Fault.atToken, if_neg hk] at hc
    cases hc
  exact ⟨hk, xs, hb, h⟩

/-- A token that must come after terminals that begin a part. -/
theorem breaks_expect (kind : TokenKind) (what : Expectation) (hk : kind ≠ .endOfInput)
    (h : r.After s xs) (hb : Begun IsEnd part depth xs) :
    Proceeds (expect kind what) r
      (fun found r' => found = r.token ∧ r.token.kind = kind ∧ r.Passes false r')
      (Breaks s part depth) := by
  refine Proceeds.token_bind ?_
  split
  · next hkind =>
    refine (proceeds_passes h.live (hkind ▸ hk) false).mono ?_ fun _ _ => id
    rintro _ r' ⟨rfl, hp⟩
    exact ⟨rfl, hkind, hp⟩
  · exact breaks_refuse h hb

end

/-- A setting breaks off in its own terminals. -/
theorem breaks_setting (h : r.At s) (hk : r.token.kind = .word) (ht : r.token.text = "set") :
    Proceeds setting r (fun _ _ => True) (Breaks s .one (depth + 1)) := by
  refine (proceeds_passes ⟨s, h⟩ (hk ▸ nofun) false).bind ?_
  rintro _ r₁ ⟨rfl, p₁⟩
  have h₁ : r₁.After s [word "set"] := ht ▸ h.pass_word hk p₁
  refine (breaks_expect .word _ nofun h₁ .set).bind ?_
  rintro _ r₂ ⟨rfl, hk₁, p₂⟩
  have h₂ := h₁.append fun _ ht => ht.pass_word hk₁ p₂
  have hend : ∀ {xs r₃ value}, r₃.After s xs → Begun IsEnd .one (depth + 1) xs →
      Proceeds (endOfSetting r₁.token.text value) r₃ (fun _ _ => True)
        (Breaks s .one (depth + 1)) := fun h₃ hb =>
    (breaks_expect .semicolon _ nofun h₃ hb).bind fun _ _ _ => proceeds_pure trivial
  have hoption : Begun IsEnd .one (depth + 1) ([word "set"] ++ [word r₁.token.text]) := .option _
  refine Proceeds.token_bind ?_
  split
  · exact hend h₂ hoption
  · have hvalue := breaks_expect .word (.valueOrEnd r₁.token.text) nofun h₂ hoption
    refine (hvalue.map (g := Token.text)
      (R := fun _ r₃ => r₂.token.kind = .word ∧ r₂.Passes false r₃) fun _ _ hQ => hQ.2).bind ?_
    rintro value r₃ ⟨hk₂, p₃⟩
    exact hend (h₂.append fun _ ht => ht.pass_word hk₂ p₃) (.value _ _)

/-- A call breaks off among its arguments. -/
theorem breaks_call (h : r.At s) (hk : r.token.kind = .word) (hf : r.token.text ∉ keywords) :
    Proceeds call r (fun _ _ => True) (Breaks s .one (depth + 1)) := by
  refine (proceeds_passes ⟨s, h⟩ (hk ▸ nofun) false).bind ?_
  rintro _ r₁ ⟨rfl, p₁⟩
  have h₁ : r₁.After s [word r.token.text] := h.pass_word hk p₁
  refine (proceeds_manyWhile_of (E := Breaks s .one (depth + 1))
    (I := fun r' => ∃ args : List String, r'.After s (word r.token.text :: args.map word))
    ?_ ⟨[], h₁⟩).bind ?_
  · rintro r₂ ⟨args, h₂⟩ -
    refine (breaks_expect .word _ nofun h₂ (.call args hf)).with_eq.map ?_
    rintro _ r₃ ⟨⟨rfl, hk₂, p₂⟩, -⟩
    have h₃ := h₂.append fun _ ht => ht.pass_word hk₂ p₂
    refine ⟨⟨args ++ [r₂.token.text], by simpa using h₃⟩, ?_⟩
    obtain ⟨t, -, ht⟩ := h₂
    exact ht.passes_lt (hk₂ ▸ nofun) p₂
  · rintro args r₂ ⟨⟨_, h₂⟩, hstop⟩
    have hend : r₂.token.kind = .semicolon := by simpa using hstop
    exact (proceeds_passes h₂.live (hend ▸ nofun) false).bind fun _ _ _ => proceeds_pure trivial

/-- A command breaks off nowhere but at a fault of the scanner. -/
theorem breaks_exec (h : r.At s) (hk : r.token.kind = .sigil) :
    Proceeds exec r (fun _ _ => True) (Breaks s .one depth) :=
  (proceeds_exec h hk).mono (fun _ _ _ => trivial) fun _ _ => Halts.breaks

section
variable {item : Owner → Parse Stmt}
  (hi : ∀ owner {r s}, r.At s → Proceeds (item owner) r
    (fun stmt r' => r'.Past s (.nested stmt) ∧ stmt.height ≤ depth) (Breaks s .one depth))
include hi

/-- A binding or a definition breaks off at its head, or in its body. -/
theorem breaks_headed (h : r.At s) (hk : r.token.kind = .word)
    (known : r.token.text = "map" ∨ r.token.text = "cmd") (hd : depth ≠ 0) {what : Expectation}
    {owner : String → Owner} {build : String → Stmt → Stmt} :
    Proceeds (headed what owner build item) r (fun _ _ => True) (Breaks s .one (depth + 1)) := by
  refine (proceeds_passes ⟨s, h⟩ (hk ▸ nofun) false).bind ?_
  rintro _ r₁ ⟨rfl, p₁⟩
  have h₁ : r₁.After s [word r.token.text] := h.pass_word hk p₁
  obtain ⟨d, rfl⟩ := Nat.exists_eq_succ_of_ne_zero hd
  refine Proceeds.token_bind ?_
  split
  · exact (breaks_refuse (Q := fun _ _ => False) h₁ (.keyword known)).bind fun _ _ => False.elim
  · next hword =>
    have hword : r₁.token.kind = .word := by simpa using hword
    refine (proceeds_passes h₁.live (hword ▸ nofun) true).bind ?_
    rintro _ r₂ ⟨-, p₂⟩
    have h₂ := h₁.append fun _ ht => ht.pass_head hword p₂
    obtain ⟨t, hr, ht⟩ := h₂
    have hbody : Proceeds (item (owner r₁.token.text)) r₂ (fun _ _ => True)
        (Breaks s .one (d + 1 + 1)) :=
      (hi _ ht).mono (fun _ _ _ => trivial) fun _ _ hb => hb.after hr fun ys => .body known _
    exact hbody.bind fun _ _ _ => proceeds_pure trivial

/-- Items are read after what opens a list, up to where the look-ahead ends them. -/
theorem breaks_items {goes : Token → Bool} {owner : Owner} {next : Stmt → List Stmt → Parse Stmt}
    (h : r.After s xs)
    (hbegun : ∀ ys, Begun IsEnd .several depth ys → Begun IsEnd .one (depth + 1) (xs ++ ys))
    (hnext : ∀ first others r' ys, Whole IsEnd .several depth ys → r'.After s (xs ++ ys) →
      goes r'.token = false → Proceeds (next first others) r' (fun _ _ => True)
        (Breaks s .one (depth + 1))) :
    Proceeds (itemsThen goes (item owner) next) r (fun _ _ => True)
      (Breaks s .one (depth + 1)) := by
  obtain ⟨t, hr, ht⟩ := h
  have hitem : ∀ {r₁ t₁ zs}, r₁.At t₁ → Reads s (xs ++ zs) t₁ →
      (∀ ys, Begun IsEnd .several depth ys → Begun IsEnd .several depth (zs ++ ys)) →
      Proceeds (item owner) r₁ (fun _ r₂ => ∃ ys, Whole IsEnd .one depth ys ∧
          r₂.After s (xs ++ (zs ++ ys)) ∧ r₂.scansLeft < r₁.scansLeft)
        (Breaks s .one (depth + 1)) := by
    intro r₁ t₁ zs h₁ hr₁ hzs
    refine (hi owner h₁).mono ?_ fun _ _ hb => hb.after hr₁ fun ys hys => ?_
    · rintro stmt r₂ ⟨⟨ys, u, hd, hr₂, hu⟩, hle⟩
      obtain ⟨y, ys, rfl, -⟩ := hd.nested_starts
      refine ⟨_, ⟨stmt, hle, hd⟩, ⟨u, ?_, hu⟩, ?_⟩
      · rw [← List.append_assoc]
        exact reads_append.2 ⟨t₁, hr₁, hr₂⟩
      · exact h₁.scansLeft_lt hu (hd.kind_ne fun _ hx => hx.kind_eq) hr₂
    · rw [List.append_assoc]
      exact hbegun _ (hzs _ (.first hys))
  have hread : Reads s (xs ++ []) t := by simpa using hr
  refine (hitem ht hread fun _ => id).bind ?_
  rintro first r₁ ⟨ys, hwhole, h₁, -⟩
  refine (proceeds_manyWhile_of (E := Breaks s .one (depth + 1))
    (I := fun r' => ∃ ys, Whole IsEnd .several depth ys ∧ r'.After s (xs ++ ys))
    ?_ ⟨ys, hwhole.first, by simpa using h₁⟩).bind ?_
  · rintro r₂ ⟨zs, hzs, t₂, hr₂, h₂⟩ -
    refine (hitem h₂ hr₂ fun ys => hzs.append .next).mono ?_ fun _ _ => id
    rintro stmt r₃ ⟨ys, hys, h₃, hlt⟩
    exact ⟨⟨_, hzs.append .next hys.first, h₃⟩, hlt⟩
  · rintro others r₂ ⟨⟨zs, hzs, h₂⟩, hstop⟩
    exact hnext first others r₂ zs hzs h₂ hstop

/-- A list breaks off at its braces or in its items. -/
theorem breaks_list (h : r.At s) (hk : r.token.kind = .colon) :
    Proceeds (list item) r (fun _ _ => True) (Breaks s .one (depth + 1)) := by
  refine (proceeds_passes ⟨s, h⟩ (hk ▸ nofun) false).bind ?_
  rintro _ r₁ ⟨rfl, p₁⟩
  have h₁ : r₁.After s [.colon] := h.pass_colon hk p₁
  refine Proceeds.token_bind ?_
  split
  · next hbraces =>
    refine (proceeds_passes h₁.live (hbraces ▸ nofun) false).bind ?_
    rintro _ r₂ ⟨-, p₂⟩
    have h₂ := h₁.append fun _ ht => ht.pass_openBraces hbraces p₂
    refine breaks_items hi h₂ (fun ys => .bracedList) fun first others r₃ ys hys h₃ hstop => ?_
    have hclose : r₃.token.kind = .closeBraces := by simpa using hstop
    refine (proceeds_passes h₃.live (hclose ▸ nofun) false).bind ?_
    rintro _ r₄ ⟨-, p₄⟩
    have h₄ := h₃.append fun _ ht => ht.pass_closeBraces hclose p₄
    refine (breaks_expect .semicolon _ nofun h₄ ?_).bind fun _ _ _ => proceeds_pure trivial
    simpa using Begun.closed hys
  · refine breaks_items hi h₁ (fun ys hys => hys.colon_cons) fun first others r₂ ys hys h₂ _ => ?_
    refine (breaks_expect .semicolon _ nofun h₂ ?_).bind fun _ _ _ => proceeds_pure trivial
    exact hys.begun.colon_cons

/-- A statement breaks off as its kind does. -/
theorem breaks_statementAt (h : r.At s) (hd : depth ≠ 0) :
    Proceeds (statementAt item) r (fun _ _ => True) (Breaks s .one (depth + 1)) := by
  refine Proceeds.token_bind ?_
  cases hk : r.token.kind with
  | word =>
    dsimp only
    split
    · next ht => exact breaks_setting h hk ht
    · next hset =>
      split
      · next ht => exact breaks_headed hi h hk (.inl ht) hd
      · next hmap =>
        split
        · next ht => exact breaks_headed hi h hk (.inr ht) hd
        · next hcmd => exact breaks_call h hk (by simp [keywords, hset, hmap, hcmd])
  | colon => exact breaks_list hi h hk
  | sigil => exact breaks_exec h hk
  | _ => exact breaks_refuse h.after .nothing

end

/-- A statement that must be there breaks off as it does elsewhere, or nothing of it is
there. -/
theorem breaks_nested {owner : Owner} (h : r.At s)
    (hs : Proceeds (statement depth) r (fun _ _ => True) (Breaks s .one (depth + 1))) :
    Proceeds (nested (statement depth) owner) r
      (fun stmt r' => r'.Past s (.nested stmt) ∧ stmt.height ≤ depth + 1)
      (Breaks s .one (depth + 1)) := by
  refine hs.with_eq.bind ?_
  rintro (_ | stmt) r₁ ⟨-, ha⟩
  · obtain ⟨⟨seps, t, hd, hr, ht⟩, -⟩ := past_of_statement h ha
    cases hd with
    | finish separate =>
      exact breaks_refuse ⟨t, hr, ht⟩ (List.append_nil seps ▸ .separators separate .nothing)
  · obtain ⟨past, hle⟩ := past_of_statement h ha
    exact proceeds_pure ⟨past, Nat.le_succ_of_le hle⟩

/-- **Where a statement breaks off, the terminals passed begin one.** -/
theorem breaks_statement (depth : Nat) {r : Reader} {s : Scanner} (h : r.At s) :
    Proceeds (statement depth) r (fun _ _ => True) (Breaks s .one (depth + 1)) := by
  induction depth generalizing r s with
  | zero =>
    refine .error (.refl r) ?_
    rintro _ ⟨⟩ hc
    cases hc
  | succ depth ih =>
    have hi : ∀ owner {r s}, r.At s → Proceeds (nested (statement depth) owner) r
        (fun stmt r' => r'.Past s (.nested stmt) ∧ stmt.height ≤ depth + 1)
        (Breaks s .one (depth + 1)) := fun owner _ _ h => breaks_nested h (ih h)
    refine (proceeds_manyWhile_of (E := Breaks s .one (depth + 2))
      (I := fun r' => ∃ seps, (∀ x ∈ seps, x.IsEnd) ∧ r'.After s seps)
      ?_ ⟨[], nofun, h.after⟩).bind ?_
    · rintro r₁ ⟨seps, hseps, h₁⟩ hm
      have hk : r₁.token.kind = .semicolon := by simpa using hm
      refine (proceeds_passes h₁.live (hk ▸ nofun) true).mono ?_ fun _ _ => id
      rintro _ r₂ ⟨-, p₁⟩
      obtain ⟨t, hr, ht⟩ := h₁
      obtain ⟨x, u, hx, hr', hu⟩ := ht.pass_end hk p₁
      refine ⟨⟨seps ++ [x], ?_, u, reads_append.2 ⟨t, hr, hr'⟩, hu⟩,
        ht.passes_lt (hk ▸ nofun) p₁⟩
      exact List.forall_mem_append.2 ⟨hseps, List.forall_mem_singleton.2 hx⟩
    · rintro _ r₁ ⟨⟨seps, hseps, t, hr, ht⟩, -⟩
      refine Proceeds.token_bind ?_
      split
      · exact proceeds_pure trivial
      · refine Proceeds.completed ((breaks_statementAt hi ht (Nat.succ_ne_zero depth)).mono
          (fun _ _ _ => trivial) fun _ _ hb => ?_)
        exact hb.after hr fun ys => .separators hseps

end Parse
end RcScript
