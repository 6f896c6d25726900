/-
# Nothing is lost and nothing is invented

The tokens of a script that are written in it, all but the newline markers and the
end of input, stand in the script where their positions say, one after the other,
and there are only spaces between them (`Tiles`).  A marker stands where a line
ends, and no token stands before an earlier one.  So the tokens of every run are
`Laid` out in the script (`Scanner.Lists.laid`), whatever it is asked
(`tokens_laid`).

That texts stand where their positions say excludes invented tokens, that gaps are spaces
excludes lost ones, and that the tiling is ordered excludes a text that is read twice.
Newline markers and the end of input have no text in the script, so nothing of this kind
can be said of them; for them it is said that a line ends where they stand, or that a
fault is met there.
-/

import RcScript.Proofs.Scanner.Located
import Mathlib

namespace RcScript

/-- From an offset on, the texts of tokens stand in a text, each where its position
says, in order and with only spaces before it, and the last of them ends at `stop`. -/
def Tiles (text : List Char) : Nat → List Token → Nat → Prop
  | k, [], stop => stop = k
  | k, token :: tokens, stop => ∃ start, token.position.offset? text = some start ∧
      Gap text k start ∧ token.text.toList <+: text.drop start ∧
      Tiles text (start + token.text.toList.length) tokens stop

/-- How tokens lie in a text, where the texts before them reach up to `stop` and the
last token before them stands at `last`. -/
structure Laid (text : List Char) (stop last : Nat) (tokens : List Token) (whole : Prop) :
    Prop where
  tiles : ∃ reach, Tiles text stop (tokens.filter Token.isWritten) reach ∧
    (whole → Gap text reach text.length)
  lines : ∀ token ∈ tokens, token.isNewline = true →
    ∃ k, token.position.offset? text = some k ∧ EndsLine text k
  placed : ∀ token ∈ tokens, ∃ k, token.position.offset? text = some k ∧ last ≤ k
  ordered : (tokens.map Token.position).Pairwise (· ≤ ·)

section
variable {text : List Char} {stop last start : Nat} {token : Token} {tokens : List Token}
  {whole : Prop}

/-- A marker is not written. -/
theorem Token.isWritten_of_isNewline (h : token.isNewline = true) : token.isWritten = false := by
  rw [isWritten, h, Bool.not_true, Bool.and_false]

/-- A token comes before those that lie after it. -/
theorem Laid.ordered_cons (h : Laid text stop start tokens whole)
    (hp : token.position.offset? text = some start) :
    ((token :: tokens).map Token.position).Pairwise (· ≤ ·) := by
  rw [List.map_cons, List.pairwise_cons]
  refine ⟨fun p hm => ?_, h.ordered⟩
  obtain ⟨other, hother, rfl⟩ := List.mem_map.1 hm
  obtain ⟨k, hk, hle⟩ := h.placed other hother
  exact Position.le_of_offset? hp hk hle

/-- What lies from a later place on lies from an earlier one on. -/
theorem Laid.placed_cons (h : Laid text stop start tokens whole)
    (hp : token.position.offset? text = some start) (hlast : last ≤ start) :
    ∀ other ∈ token :: tokens, ∃ k, other.position.offset? text = some k ∧ last ≤ k := by
  refine List.forall_mem_cons.2 ⟨⟨start, hp, hlast⟩, fun other hother => ?_⟩
  obtain ⟨k, hk, hle⟩ := h.placed other hother
  exact ⟨k, hk, Nat.le_trans hlast hle⟩

end

namespace Scanner

variable {text : List Char} {s u : Scanner} {tokens : List Token} {stop last : Nat}

/-- **The tokens of a run lie in the script.** -/
theorem Lists.laid (h : Lists s tokens u) (hs : Tracks text stop last s) :
    Laid text stop last tokens (u.fault = none) := by
  induction h generalizing stop last with
  | @finish s t step hk =>
    cases step.puts hs with
    | written kind => simp [Token.isWritten, hk] at kind
    | newline kind => simp [Token.isNewline, hk] at kind
    | @finish start kind place later whole =>
      refine ⟨⟨stop, ?_, whole⟩, ?_, ?_, List.pairwise_singleton _ _⟩
      · rw [List.filter_cons_of_neg (by simp [Token.isWritten, hk])]
        exact rfl
      · refine List.forall_mem_singleton.2 fun hn => ?_
        simp [Token.isNewline, hk] at hn
      · exact List.forall_mem_singleton.2 ⟨start, place, later⟩
  | @next s t u tokens begins step more rest ih =>
    cases step.puts hs with
    | @written start kind place gap slice later tracks =>
      have hl := ih (tracks.ask begins)
      obtain ⟨reach, htiles, hwhole⟩ := hl.tiles
      refine ⟨⟨reach, ?_, hwhole⟩, ?_, hl.placed_cons place later, hl.ordered_cons place⟩
      · rw [List.filter_cons_of_pos kind]
        exact ⟨start, place, gap, slice, htiles⟩
      · refine List.forall_mem_cons.2 ⟨fun hn => ?_, hl.lines⟩
        rw [Token.isWritten_of_isNewline hn] at kind
        cases kind
    | @newline start kind place later line tracks =>
      have hl := ih (tracks.ask begins)
      refine ⟨?_, ?_, hl.placed_cons place later, hl.ordered_cons place⟩
      · rw [List.filter_cons_of_neg (by simp [Token.isWritten_of_isNewline kind])]
        exact hl.tiles
      · exact List.forall_mem_cons.2 ⟨fun _ => ⟨start, place, line⟩, hl.lines⟩
    | finish kind => exact absurd kind more

end Scanner

/-- Texts that tile a text are disjoint, and in its order. -/
theorem Tiles.pairwise {text : List Char} {k stop : Nat} {tokens : List Token}
    (h : Tiles text k tokens stop) :
    tokens.Pairwise (fun a b => ∃ i j, a.position.offset? text = some i ∧
      b.position.offset? text = some j ∧ i + a.text.toList.length ≤ j) ∧
    ∀ token ∈ tokens, ∃ i, token.position.offset? text = some i ∧ k ≤ i := by
  induction tokens generalizing k with
  | nil => exact ⟨.nil, nofun⟩
  | cons token tokens ih =>
    obtain ⟨start, place, gap, -, htiles⟩ := h
    obtain ⟨hpairs, hlater⟩ := ih htiles
    refine ⟨List.pairwise_cons.2 ⟨fun other hother => ?_, hpairs⟩, ?_⟩
    · obtain ⟨j, hj, hle⟩ := hlater other hother
      exact ⟨start, j, place, hj, hle⟩
    · refine List.forall_mem_cons.2 ⟨⟨start, place, gap.1⟩, fun other hother => ?_⟩
      obtain ⟨j, hj, hle⟩ := hlater other hother
      exact ⟨j, hj, Nat.le_trans gap.1 (Nat.le_trans (Nat.le_add_right ..) hle)⟩

open Scanner

/-- **The scanner loses and invents nothing.**  Take all tokens of a script, asked for
with any flags, down to the end of input.  Those that are written stand in the script
where their positions say, disjoint and in order, with only spaces before the first
and between them, and after the last one too unless a fault ended the run; each newline
marker stands at a line break or at the end of the script; and no token has a position
before that of an earlier one. -/
theorem tokens_laid (source filename : String) (flags : List Bool) :
    let tokens := ((start source filename).tokens flags).1
    let final := ((start source filename).tokens flags).2
    tokens.getLast?.map Token.kind = some .endOfInput ∧
      (∃ stop, Tiles source.toList 0 (tokens.filter Token.isWritten) stop ∧
        (final.fault = none → ∀ c ∈ source.toList.drop stop, Text.isSpace c = true)) ∧
      (tokens.filter Token.isWritten).Pairwise (fun a b => ∃ i j,
        a.position.offset? source.toList = some i ∧ b.position.offset? source.toList = some j ∧
          i + a.text.toList.length ≤ j) ∧
      (∀ token ∈ tokens, token.isNewline = true → ∃ k,
        token.position.offset? source.toList = some k ∧ EndsLine source.toList k) ∧
      (∀ token ∈ tokens, ∃ k, token.position.offset? source.toList = some k) ∧
      (tokens.map Token.position).Pairwise (· ≤ ·) := by
  intro tokens final
  have hlists : Lists (ofText source filename) tokens final := lists_start source filename flags
  have hlaid := hlists.laid (tracks_ofText source filename)
  obtain ⟨hlast, hkind⟩ := hlists.getLast?_eq
  obtain ⟨stop, htiles, hwhole⟩ := hlaid.tiles
  refine ⟨?_, ⟨stop, htiles, fun hf c hc => ?_⟩, htiles.pairwise.1, hlaid.lines, ?_, hlaid.ordered⟩
  · rw [hlast, Option.map_some, hkind]
  · obtain ⟨-, hspaces⟩ := hwhole hf
    rw [← List.length_drop, List.take_length] at hspaces
    exact hspaces c hc
  · exact fun token ht => (hlaid.placed token ht).imp fun k hk => hk.1

/-- A carriage return after a command, and closing braces that nothing has opened:
the marker of the first line stands behind the carriage return. -/
theorem tokens_laid_stray :
    let run := (start "$a\r\n\x7d\x7d " unnamed).tokens []
    run.2.fault = none ∧ Token.newlineAt ⟨1, 4⟩ ∈ run.1 ∧
      (∃ stop, Tiles "$a\r\n\x7d\x7d ".toList 0 (run.1.filter Token.isWritten) stop ∧
        ∀ c ∈ "$a\r\n\x7d\x7d ".toList.drop stop, Text.isSpace c = true) ∧
      ∃ k, (⟨1, 4⟩ : Position).offset? "$a\r\n\x7d\x7d ".toList = some k ∧
        EndsLine "$a\r\n\x7d\x7d ".toList k := by
  intro run
  have hf : ((start "$a\r\n\x7d\x7d " unnamed).tokens []).2.fault = none := by cbv
  have hm : Token.newlineAt ⟨1, 4⟩ ∈ run.1 := by
    have hrun : ((start "$a\r\n\x7d\x7d " unnamed).tokens []).1 =
        [⟨.sigil, "$", ⟨1, 1⟩⟩, ⟨.command, "a", ⟨1, 2⟩⟩, Token.newlineAt ⟨1, 4⟩,
          ⟨.closeBraces, "\x7d\x7d", ⟨2, 1⟩⟩, Token.newlineAt ⟨2, 4⟩, Token.endAt ⟨2, 4⟩] := by
      cbv
    exact hrun ▸ .tail _ (.tail _ (.head _))
  obtain ⟨-, ⟨stop, htiles, hspaces⟩, -, hlines, -⟩ := tokens_laid "$a\r\n\x7d\x7d " unnamed []
  exact ⟨hf, hm, ⟨stop, htiles, hspaces hf⟩, hlines _ hm rfl⟩

end RcScript
