/-
# Incomplete scripts are completed

A script that fails as incomplete ends inside a statement, and the terminals before its end
open a script (`exists_opens_of_incomplete`).  Some text that follows completes it if they
open one of the strict grammar (`exists_parse_append_of_opens`), and only then: what is
accepted with more text after it is read terminal by terminal as it was without, but for a
word or a command text that the text goes on with (`ReadsBefore.prefix_or`), and the strict
grammar derives it.  Both together are `parse_append_of_incomplete`.  The loose grammar alone
is not enough, for where the line break of a line list is taken for the semicolon of a call
the list is still open and no text closes it (`parse_append_lineBreak`).

The first direction gives a text to add.  It is put together from what the open phrases
still need: a semicolon for a call, braces for a list that braces have opened, a line
break for one that a line closes, an ordinary statement for a body.  That the longer script
is scanned as the shorter one up to there holds because scanning looks no further than it
reads (`RcScript.Proofs.Scanner.Extended`).  For the other direction the terminals of the
shorter script are a prefix of those of the longer one, and a prefix of what the strict
grammar derives opens a script of it.
-/

import RcScript.Proofs.Grammar.Completed
import RcScript.Proofs.Grammar.Places
import RcScript.Proofs.Reader.Broken
import RcScript.Proofs.Session.Final

namespace RcScript

open Terminal Scanner Reader

variable {s t : Scanner} {a : Session} {xs : List Terminal} {source filename : String}
  {fault : Fault}

/-- **A run that fails for want of more text has begun statements** when it comes to the end of
the script. -/
theorem Session.At.begun_of_run (h : a.At s) (hf : a.run.failure = some (.fault fault))
    (hc : fault.category = .incomplete) :
    ∃ xs t, Begun IsEnd .several (Parse.nestingLimit + 1) xs ∧ Reads s xs t ∧ t.look.Ended ∧
      t.look.fault = none := by
  induction hn : a.reader.scansLeft using Nat.strong_induction_on generalizing a s with
  | _ n ih =>
    have h₀ := h.forgetCompleted
    rcases failure_run ⟨s, h.reader⟩ h.sticky with ⟨failure, r, hr, hf'⟩ | ⟨r, -, hf'⟩ |
      ⟨stmt, r, hr, hlt, hf'⟩
    · obtain rfl := Option.some.inj (hf'.symm.trans hf)
      have hbreaks := (Parse.breaks_statement Parse.nestingLimit h₀.reader).of_error hr
      obtain ⟨hk, xs, hxs, t, hread, ht⟩ := hbreaks.2 fault rfl hc
      exact ⟨xs, t, .first hxs, hread, ht.ended hk, ht.sound⟩
    · cases hf'.symm.trans hf
    · obtain ⟨⟨xs, u, hxs, hread, hu⟩, hle⟩ := Parse.past_of_statement h₀.reader hr
      obtain ⟨ys, t, hys, hread', ht⟩ := ih _ (hn ▸ hlt)
        (a := { a.forgetCompleted with reader := r }) ⟨hu, h.sticky⟩ (hf'.symm.trans hf) rfl
      exact ⟨xs ++ ys, t, .next ⟨stmt, Nat.le_succ_of_le hle, hxs⟩ hys,
        reads_append.2 ⟨u, hread, hread'⟩, ht⟩

/-- The terminals of a script that come before its end. -/
def BeforeEnd (source filename : String) (xs : List Terminal) : Prop :=
  ∃ t, ReadsBefore (ofText source filename) xs t ∧ t.look.Ended ∧ t.look.fault = none

/-- What is incomplete opens a script, in the loose grammar. -/
theorem exists_opens_of_incomplete (h : parse source filename = .error (.fault fault))
    (hc : fault.category = .incomplete) :
    ∃ xs, BeforeEnd source filename xs ∧ Opens IsEnd (Parse.nestingLimit + 1) xs := by
  obtain ⟨xs, t, hxs, hr, he, hf⟩ :=
    (Session.at_start source filename).begun_of_run (parse_eq_error_iff.1 h) hc
  obtain ⟨ys, u, hp, hu⟩ := hr.exists_readsBefore hf he
  exact ⟨ys, ⟨u, hu⟩, (hxs.opens (.inl rfl)).front hp⟩

/-- Before the end of an incomplete script a marker is owed only for a command text. -/
theorem Opens.atEnd {u : Scanner} {depth : Nat} (h : Opens IsSeparator depth xs)
    (hr : ReadsBefore (ofText source filename) xs u) (he : u.look.Ended)
    (hf : u.look.fault = none) : u.AtEnd := by
  obtain ⟨ys, stmts, -, hd⟩ := h
  have hbegins : ∀ x ∈ xs, x.begins = true → x.kind = .word := fun x hx =>
    hd.kind_of_begins (fun _ => .inl) x (List.mem_append_left ys hx)
  obtain ⟨hmarked, hlive⟩ := hr.marked hbegins rfl fun h => absurd rfl h
  refine ⟨he, hf, fun ho => ?_⟩
  obtain ⟨hrest, -, hflag⟩ := hmarked.of_ended hlive he ho
  exact ⟨hrest, hflag⟩

/-- **What was read before the end of a script is read from a longer one**, and the text that
was put after it is resumed; it begins with a line break where a command text reaches the end. -/
theorem Scanner.ReadsBefore.exists_resumes {u : Scanner} {text : List Char}
    (hr : ReadsBefore (ofText source filename) xs u) (hx : ∀ x ∈ xs, x.kind ≠ .endOfInput)
    (htext : u.owed ≠ 0 → ∃ tail, text = '\n' :: tail) :
    ∃ (more : String) (u' : Scanner), Reads (ofText (source ++ more) filename) xs u' ∧
      Resumes text u u' := by
  have hofList : ∀ more : List Char, (ofText source filename).extend more =
      ofText (source ++ String.ofList more) filename := fun more => by
    rw [← extend_ofText, String.toList_ofList]
  by_cases ho : u.owed = 0
  · have hbreaks : Lexeme.Breaks (' ' :: text) := by
      rintro _ ⟨⟩
      exact .inl (by decide)
    exact ⟨_, _, hofList _ ▸ hr.extend rfl hbreaks ho, .inl ⟨ho, rfl⟩⟩
  · obtain ⟨tail, rfl⟩ := htext ho
    obtain ⟨u', hread, hcont⟩ := hr.reads.continues (valid_ofText source filename) rfl hx
      (longer_extend tail _).continues
    exact ⟨_, u', hofList _ ▸ hread, .inr ⟨ho, tail, rfl, hcont⟩⟩

/-- **What opens a script of the strict grammar can be completed.** -/
theorem exists_parse_append_of_opens (h : BeforeEnd source filename xs)
    (ho : Opens IsSeparator Parse.nestingLimit xs) :
    ∃ more stmts, parse (source ++ more) filename = .ok stmts := by
  obtain ⟨u, hr, he, hf⟩ := h
  obtain ⟨text, hhead, hcompletes⟩ := (ho.begun (by decide)).completed
    (ready_ofText source filename) hr.reads (ho.atEnd hr he hf)
  have hkinds : ∀ x ∈ xs, x.kind ≠ .endOfInput := by
    obtain ⟨ys, stmts, -, hd⟩ := ho
    exact fun x hx => hd.kind_ne (fun _ => IsSeparator.kind_eq) x (List.mem_append_left ys hx)
  have htext : u.owed ≠ 0 → ∃ tail, text ++ ['\n'] = '\n' :: tail := by
    intro howed
    cases text with
    | nil => exact ⟨[], rfl⟩
    | cons c cs => exact ⟨cs ++ ['\n'], by rw [hhead howed c rfl]; rfl⟩
  obtain ⟨more, u', hr', hresumes⟩ := hr.exists_resumes hkinds htext
  obtain ⟨zs, t, hwhole, hread, hclosing⟩ := hcompletes [] u' hresumes
  obtain ⟨stmts, hle, hd⟩ := hwhole.script
  obtain ⟨hk, hft⟩ := hclosing.look_end
  exact ⟨more, stmts, parse_of_derives hd (reads_append.2 ⟨u', hr', hread⟩) hk hft hle⟩

/-- **A longer script is read like the script itself up to its end**, terminal by terminal, but
for a word or a command text that reaches the end. -/
theorem Scanner.ReadsBefore.prefix_or {u : Scanner} {place : Place} {zs : List Terminal}
    {more : List Char} (h : ReadsBefore s xs u) (hd : s.done = false)
    (hx : Place.AllowsAll IsEnd place xs) (hr : Reads (s.extend more) zs t)
    (hz : Place.AllowsAll IsSeparator place zs) (hk : t.look.token.kind = .endOfInput) :
    xs <+: zs ∨ ∃ ys x, xs = ys ++ [x] ∧ ys <+: zs ∧ (x.kind = .word ∨ x.kind = .command) := by
  induction xs generalizing s zs place with
  | nil => exact .inl List.nil_prefix
  | cons x xs ih =>
    obtain ⟨he, ⟨hxk, hxt⟩, hf, h⟩ := h
    have hne := kind_of_not_ended hd hf he
    have hlive := live_of_not_ended hd hf he
    -- a token that reaches the end is the last one
    have hlast : s.look.Spent → x.kind = .word ∨ x.kind = .command →
        ∃ ys y, x :: xs = ys ++ [y] ∧ ys <+: zs ∧ (y.kind = .word ∨ y.kind = .command) := by
      intro spent hkind
      obtain rfl := h.eq_nil_of_spent hlive spent
      exact ⟨[], x, rfl, List.nil_prefix, hkind⟩
    rcases extends_look hd hf more with ⟨step, -⟩ | ended | ⟨spent, hw, -⟩ | ⟨spent, hc, -⟩
    · have hlook := Extends.look_eq hd step
      cases zs with
      | nil =>
        obtain rfl : t = s.extend more := hr
        rw [hlook] at hk
        exact absurd hk hne
      | cons z zs =>
        obtain ⟨⟨hzk, hzt⟩, -, hr⟩ := hr
        rw [hlook] at hzk hzt hr
        have hkinds : x.kind = z.kind := hxk.symm.trans hzk
        have hbegins := hx.1.begins_eq hz.1 hkinds
        obtain rfl : x = z := by
          cases x
          cases z
          obtain rfl := hkinds
          obtain rfl : _ = _ := hxt.symm.trans hzt
          obtain rfl := hbegins
          rfl
        rcases ih h hlive hx.2 hr hz.2 with hp | ⟨ys, y, rfl, hp, hy⟩
        · exact .inl ((List.prefix_cons_inj x).2 hp)
        · exact .inr ⟨x :: ys, y, rfl, (List.prefix_cons_inj x).2 hp, hy⟩
    · exact absurd ended he
    · exact .inr (hlast spent (.inl (hxk.symm.trans hw)))
    · exact .inr (hlast spent (.inr (hxk.symm.trans hc)))

/-- **What can be completed opens a script of the strict grammar.** -/
theorem opens_of_parse_append {more : String} {stmts : List Stmt} {depth : Nat}
    (h : BeforeEnd source filename xs) (ho : Opens IsEnd depth xs)
    (ha : parse (source ++ more) filename = .ok stmts) :
    Opens IsSeparator (Parse.nestingLimit + 1) xs := by
  obtain ⟨u, hr, -⟩ := h
  obtain ⟨rest, _, -, hloose⟩ := ho
  obtain ⟨zs, t, hd, hread, hk, -, -, -, hle⟩ := derives_of_parse ha
  rw [← extend_ofText] at hread
  have hx := (Place.allowsAll_append.1 (hloose.leads fun _ => id).1).1
  have hz := (hd.leads fun _ => .inl).1
  rcases hr.prefix_or rfl hx hread hz hk with ⟨ys, rfl⟩ | ⟨ys, x, rfl, hp, hxk⟩
  · exact ⟨ys, stmts, fun stmt hs => Nat.le_succ_of_le (hle stmt hs), hd⟩
  · have hbegun : Begun IsSeparator .several Parse.nestingLimit ys := hd.begun hp (by decide) hle
    obtain ⟨hys, hx, -⟩ := Place.allowsAll_append.1 hx
    exact (hbegun.concat (fun _ => .inl) ⟨hys, rfl⟩ hx hxk).opens isSeparator_separator

/-- **A script that is incomplete can be completed just when its terminals open a script of the
strict grammar.**  If a script fails as incomplete, the terminals before its end open a script of
the loose grammar, in which a newline marker may stand for any semicolon.  If they open one of the
strict grammar too, within the depth that statements may have, some text makes a script that is
accepted of it; if they do not, not even with one level more, no text does. -/
theorem parse_append_of_incomplete (h : parse source filename = .error (.fault fault))
    (hc : fault.category = .incomplete) :
    (∃ xs, BeforeEnd source filename xs ∧ Opens IsEnd (Parse.nestingLimit + 1) xs) ∧
      ∀ xs, BeforeEnd source filename xs → Opens IsEnd (Parse.nestingLimit + 1) xs →
        (Opens IsSeparator Parse.nestingLimit xs →
            ∃ more stmts, parse (source ++ more) filename = .ok stmts) ∧
          ((∃ more stmts, parse (source ++ more) filename = .ok stmts) →
            Opens IsSeparator (Parse.nestingLimit + 1) xs) :=
  ⟨exists_opens_of_incomplete h hc, fun _ hb ho =>
    ⟨exists_parse_append_of_opens hb, fun ⟨_, _, ha⟩ => opens_of_parse_append hb ho ha⟩⟩

/-- The keys of a binding, and no statement for them yet. -/
theorem parse_append_of_incomplete_binding :
    parse "map a" unnamed = .error (.fault
        ⟨.incomplete, .endInside (.keyBinding "a"), unnamed, ⟨1, 6⟩⟩) ∧
      BeforeEnd "map a" unnamed [word "map", head "a"] ∧
      Opens IsSeparator Parse.nestingLimit [word "map", head "a"] ∧
      ∃ more stmts, parse ("map a" ++ more) unnamed = .ok stmts := by
  have h : parse "map a" unnamed = .error (.fault
      ⟨.incomplete, .endInside (.keyBinding "a"), unnamed, ⟨1, 6⟩⟩) := by cbv
  have hb : BeforeEnd "map a" unnamed [word "map", head "a"] :=
    ⟨_, ⟨by decide, ⟨rfl, rfl⟩, rfl, by decide, ⟨rfl, rfl⟩, rfl, rfl⟩, by decide, rfl⟩
  have hbegun : ∀ {Sep : Terminal → Prop} {d : Nat},
      Begun Sep .several (d + 2) [word "map", head "a"] :=
    .first (.body (.inl rfl) "a" .nothing)
  have hs : Opens IsSeparator Parse.nestingLimit [word "map", head "a"] :=
    hbegun.opens isSeparator_separator
  have hl : Opens IsEnd (Parse.nestingLimit + 1) [word "map", head "a"] := hbegun.opens (.inl rfl)
  exact ⟨h, hb, hs, ((parse_append_of_incomplete h rfl).2 _ hb hl).1 hs⟩

/-- The line break that would end a line list is taken for the semicolon of a call in it: the
script is called incomplete, and no text completes it. -/
theorem parse_append_lineBreak :
    parse ": cd\n" unnamed = .error (.fault
        ⟨.incomplete, .endInside .lineList, unnamed, ⟨2, 1⟩⟩) ∧
      ∀ more stmts, parse (": cd\n" ++ more) unnamed ≠ .ok stmts := by
  refine ⟨by cbv, fun more stmts ha => ?_⟩
  have hb : BeforeEnd ": cd\n" unnamed [colon, word "cd", newline] :=
    ⟨_, ⟨by decide, ⟨rfl, rfl⟩, rfl, by decide, ⟨rfl, rfl⟩, rfl, by decide, ⟨rfl, rfl⟩, rfl, rfl⟩,
      by decide, rfl⟩
  have hl : Opens IsEnd 2 [colon, word "cd", newline] :=
    Begun.opens (.inl rfl) (.first (.lineList (Whole.call [] (by decide) (.inr rfl)).first.begun))
  obtain ⟨ys, stmts, -, hd⟩ := opens_of_parse_append hb hl ha
  -- the strict grammar has no newline marker after the name of a call
  obtain ⟨-, -, hnewline, -⟩ := (hd.leads fun _ => .inl).1
  rcases hnewline.ends rfl with hs | hp
  · exact absurd hs (by decide : newline ≠ separator)
  · exact absurd hp (by decide)

end RcScript
