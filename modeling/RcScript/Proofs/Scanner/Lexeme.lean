/-
# What the lexemes are

A word holds no space, no semicolon and no closing braces, and it reaches to the
first of these; a block text fits a block, and reaches to the first closing
braces; a command text holds no line break that is not escaped, and its last
backslash escapes a character.  Each lexeme is stated both ways: what is read has
the property, and a text that has it is read back when the right thing follows.

The first way is what soundness needs, since nothing is known there but that a text was
read; the second one is what a round trip needs, since there the text is known and stands
in front of the scanner.  A lexeme depends on what follows it only through the place where
it ends.  So the same lemmas say that a longer script changes no lexeme whose end it does
not touch.

A text on a line is the hardest of the three, because its end depends on how many
backslashes stand before a line break.  It is taken two characters at a time where there is
a backslash and one at a time elsewhere, and so are the two conditions on it:
`holdsBareBreak` says that a line break is left that no backslash takes along, `dangles`
that the last backslash has nothing to take.
-/

import RcScript.Scanner.Lexeme
import RcScript.Stmt.Canonical
import Mathlib.Data.List.DropRight

namespace RcScript
namespace Lexeme

/-- Whether a line break occurs that no backslash takes along. -/
def holdsBareBreak : List Char → Bool
  | [] => false
  | '\n' :: _ => true
  | ['\\'] => false
  | '\\' :: _ :: rest => holdsBareBreak rest
  | _ :: rest => holdsBareBreak rest

/-- Whether a text ends in a backslash that takes nothing along. -/
def dangles : List Char → Bool
  | [] => false
  | ['\\'] => true
  | '\\' :: _ :: rest => dangles rest
  | _ :: rest => dangles rest

/-- Closing braces are the first two characters, or come later. -/
theorem holdsClosingBraces_cons {c : Char} {cs : List Char} :
    holdsClosingBraces (c :: cs) = false ↔
      (∀ tail, c = '}' → cs ≠ '}' :: tail) ∧ holdsClosingBraces cs = false := by
  rw [holdsClosingBraces.eq_def]
  split
  · next h => cases h
  · next tail h =>
    cases h
    simp
  · next hb h =>
    cases h
    exact ⟨fun h => ⟨fun tail hc ht => hb tail hc ht, h⟩, fun h => h.2⟩

/-! ### Words -/

/-- A word has no space in it and no semicolon. -/
theorem not_stop_of_mem_word {cs : List Char} {c : Char} (h : c ∈ word cs) :
    Text.isSpace c = false ∧ c ≠ ';' := by
  fun_induction word cs with
  | case1 => cases h
  | case2 => cases h
  | case3 => cases h
  | case4 d rest _ hd ih =>
    rcases List.mem_cons.1 h with rfl | h
    · simpa using hd
    · exact ih h

/-- A word has no closing braces in it. -/
theorem holdsClosingBraces_word (cs : List Char) : holdsClosingBraces (word cs) = false := by
  fun_induction word cs with
  | case1 => rfl
  | case2 => rfl
  | case3 => rfl
  | case4 c rest hb _ ih =>
    refine holdsClosingBraces_cons.2 ⟨fun tail hc ht => ?_, ih⟩
    have hw := word_append_drop rest
    rw [ht] at hw
    exact hb _ hc hw.symm

/-- A word is read up to what ends it. -/
theorem word_append {w rest : List Char} (hw : ∀ c ∈ w, Text.isSpace c = false ∧ c ≠ ';')
    (hb : holdsClosingBraces w = false)
    (hr : ∀ c ∈ rest.head?, Text.isSpace c = true ∨ c = ';') : word (w ++ rest) = w := by
  induction w with
  | nil =>
    cases rest with
    | nil => rfl
    | cons c rest =>
      have hc : Text.isSpace c = true ∨ c = ';' := hr c rfl
      rw [List.nil_append, word]
      · rcases hc with hc | hc <;> simp [hc]
      · rintro tail rfl rfl
        exact absurd hc (by decide)
  | cons c w ih =>
    obtain ⟨hc, hb⟩ := holdsClosingBraces_cons.1 hb
    obtain ⟨hs, hw⟩ := List.forall_mem_cons.1 hw
    rw [List.cons_append, word, ih hw hb]
    · simp [hs]
    · rintro tail rfl ht
      cases w with
      | nil =>
        rw [List.nil_append] at ht
        exact absurd (hr '}' (by simp [ht])) (by decide)
      | cons d w =>
        obtain ⟨rfl, -⟩ := List.cons_eq_cons.1 ht
        exact hc w rfl rfl

/-- A line break ends a word as the end of the script does. -/
theorem word_append_lineBreak (cs tail : List Char) : word (cs ++ '\n' :: tail) = word cs := by
  fun_induction word cs with
  | case1 => rfl
  | case2 rest => rfl
  | case3 c rest hb hc =>
    rw [List.cons_append, word, if_pos hc]
    rintro tail rfl -
    exact absurd hc (by decide)
  | case4 c rest hb hc ih =>
    rw [List.cons_append, word, if_neg hc, ih]
    rintro tail hc ht
    cases rest with
    | nil => cases ht
    | cons d rest =>
      obtain ⟨rfl, -⟩ := List.cons_eq_cons.1 ht
      exact hb rest hc rfl

/-! ### Blocks -/

/-- A block text fits a block, and the closing braces come right after it. -/
theorem of_blockText {cs text : List Char} (h : blockText cs = some text) :
    holdsClosingBraces text = false ∧ text.getLast? ≠ some '}' ∧
      ∃ rest, cs = text ++ '}' :: '}' :: rest := by
  fun_induction blockText cs generalizing text with
  | case1 => cases h
  | case2 rest =>
    cases h
    exact ⟨rfl, by simp, rest, rfl⟩
  | case3 c rest hb ih =>
    obtain ⟨t, ht, rfl⟩ := Option.map_eq_some_iff.1 h
    obtain ⟨hh, hl, after, rfl⟩ := ih ht
    refine ⟨holdsClosingBraces_cons.2 ⟨fun tail hc ht => ?_, hh⟩, ?_, after, rfl⟩
    · exact hb _ hc (by rw [ht]; rfl)
    · cases t with
      | nil =>
        rw [List.getLast?_singleton, ne_eq, Option.some.injEq]
        rintro rfl
        exact hb _ rfl rfl
      | cons d t => rwa [List.getLast?_cons_cons]

/-- A text that fits a block is read back from it. -/
theorem blockText_append {text : List Char} (hh : holdsClosingBraces text = false)
    (hl : text.getLast? ≠ some '}') (rest : List Char) :
    blockText (text ++ '}' :: '}' :: rest) = some text := by
  induction text with
  | nil => rfl
  | cons c text ih =>
    obtain ⟨hc, hh⟩ := holdsClosingBraces_cons.1 hh
    rw [List.cons_append, blockText]
    · rw [ih hh, Option.map_some]
      cases text with
      | nil => simp
      | cons d text => rwa [List.getLast?_cons_cons] at hl
    · rintro tail rfl ht
      cases text with
      | nil => simp at hl
      | cons d text =>
        obtain ⟨rfl, -⟩ := List.cons_eq_cons.1 ht
        exact hc text rfl rfl

/-- What comes after the braces of a block does not matter. -/
theorem blockText_append_right {cs text : List Char} (h : blockText cs = some text)
    (tail : List Char) : blockText (cs ++ tail) = some text := by
  obtain ⟨hh, hl, rest, rfl⟩ := of_blockText h
  rw [List.append_assoc]
  exact blockText_append hh hl (rest ++ tail)

/-! ### Command texts -/

section
variable {c : Char} {cs : List Char}

/-- A character that is neither a line break nor a backslash can be left out of account. -/
theorem holdsBareBreak_cons (hn : c ≠ '\n') (hb : c ≠ '\\') :
    holdsBareBreak (c :: cs) = holdsBareBreak cs := by
  rw [holdsBareBreak]
  · exact hn
  · exact fun h _ => hb h
  · exact fun _ _ h _ => hb h

/-- What a text ends in does not depend on a first character that is no backslash. -/
theorem dangles_cons (hb : c ≠ '\\') : dangles (c :: cs) = dangles cs := by
  rw [dangles]
  · exact fun h _ => hb h
  · exact fun _ _ h _ => hb h

/-- A character that is neither a line break nor a backslash belongs to the command. -/
theorem commandText_cons (hn : c ≠ '\n') (hb : c ≠ '\\') :
    commandText (c :: cs) = (commandText cs).map (c :: ·) := by
  rw [commandText]
  · exact hn
  · exact fun h _ => hb h
  · exact fun _ _ h _ => hb h

end

/-- A command text is closed, and its line ends after it. -/
theorem of_commandText {cs text : List Char} (h : commandText cs = some text) :
    holdsBareBreak text = false ∧ dangles text = false ∧
      ∃ rest, cs = text ++ rest ∧ ∀ c ∈ rest.head?, c = '\n' := by
  fun_induction commandText cs generalizing text with
  | case1 => cases h; exact ⟨rfl, rfl, [], rfl, by simp⟩
  | case2 rest => cases h; exact ⟨rfl, rfl, '\n' :: rest, rfl, by simp⟩
  | case3 => cases h
  | case4 c rest ih =>
    obtain ⟨t, ht, rfl⟩ := Option.map_eq_some_iff.1 h
    obtain ⟨hb, hd, after, rfl, ha⟩ := ih ht
    exact ⟨hb, hd, after, rfl, ha⟩
  | case5 c rest hn h₁ h₂ ih =>
    obtain ⟨t, ht, rfl⟩ := Option.map_eq_some_iff.1 h
    obtain ⟨hb, hd, after, rfl, ha⟩ := ih ht
    have hc : c ≠ '\\' := by
      intro hc
      cases hr : t ++ after with
      | nil => exact h₁ hc hr
      | cons d u => exact h₂ d u hc hr
    exact ⟨by rwa [holdsBareBreak_cons hn hc], by rwa [dangles_cons hc], after, rfl, ha⟩

/-- A text that is closed goes in front of what is read after it. -/
theorem commandText_append {text : List Char} (hb : holdsBareBreak text = false)
    (hd : dangles text = false) (rest : List Char) :
    commandText (text ++ rest) = (commandText rest).map (text ++ ·) := by
  fun_induction holdsBareBreak text with
  | case1 => simp
  | case2 => cases hb
  | case3 => cases hd
  | case4 c text ih =>
    simp only [List.cons_append, commandText]
    rw [ih hb hd, Option.map_map]
    rfl
  | case5 c text hn h₁ h₂ ih =>
    have hc : c ≠ '\\' := by
      intro hc
      cases text with
      | nil => exact h₁ hc rfl
      | cons d u => exact h₂ d u hc rfl
    rw [dangles_cons hc] at hd
    rw [List.cons_append, commandText_cons hn hc, ih hb hd, Option.map_map]
    rfl

/-- A line break ends a command text as the end of the script does. -/
theorem commandText_append_lineBreak {cs text : List Char} (h : commandText cs = some text)
    (tail : List Char) : commandText (cs ++ '\n' :: tail) = some text := by
  obtain ⟨hb, hd, rest, rfl, hr⟩ := of_commandText h
  rw [List.append_assoc, commandText_append hb hd]
  cases rest with
  | nil => simp [commandText]
  | cons c rest =>
    obtain rfl : c = '\n' := hr c rfl
    simp [commandText]

/-- A command text is not empty where a command is there. -/
theorem commandText_ne_nil {cs text : List Char} (h : commandText cs = some text) (hn : cs ≠ [])
    (hl : ∀ tail, cs ≠ '\n' :: tail) : text ≠ [] := by
  rintro rfl
  obtain ⟨-, -, rest, rfl, hr⟩ := of_commandText h
  obtain ⟨c, rest, rfl⟩ := List.exists_cons_of_ne_nil hn
  exact hl rest (by rw [hr c rfl])

/-! ### Carriage returns -/

/-- Trimming a text drops the carriage returns at its end, by the library's function. -/
theorem trimReturns_eq (text : List Char) : trimReturns text = text.rdropWhile (· = '\r') := rfl

/-- What is left of a trimmed text is a front part of it. -/
theorem isPrefix_trimReturns (text : List Char) : trimReturns text <+: text :=
  List.rdropWhile_prefix _ text

/-- Trimming a text drops carriage returns only. -/
theorem exists_append_trimReturns (text : List Char) :
    ∃ n, text = trimReturns text ++ List.replicate n '\r' := by
  refine ⟨(text.rtakeWhile (· = '\r')).length, ?_⟩
  have hall : ∀ c ∈ text.rtakeWhile (· = '\r'), c = '\r' := fun c hc => by
    simpa using List.mem_rtakeWhile_imp hc
  rw [trimReturns_eq, ← List.eq_replicate_of_mem hall, List.rdropWhile_append_rtakeWhile]

/-- A trimmed text does not end with a carriage return. -/
theorem getLast?_trimReturns (text : List Char) : (trimReturns text).getLast? ≠ some '\r' := by
  intro h
  have hne : trimReturns text ≠ [] := fun he => by simp [he] at h
  have hlast := (List.getLast_eq_iff_getLast?_eq_some hne).2 h
  exact List.rdropWhile_last_not _ text hne (decide_eq_true hlast)

/-- A text without a carriage return at its end is left as it is. -/
theorem trimReturns_eq_self {text : List Char} (h : text.getLast? ≠ some '\r') :
    trimReturns text = text := by
  refine List.rdropWhile_eq_self_iff.2 fun hne hlast => h ?_
  rw [List.getLast?_eq_some_getLast hne, of_decide_eq_true hlast]

/-- A front part of a text without bare line breaks has none. -/
theorem holdsBareBreak_of_append {text rest : List Char}
    (h : holdsBareBreak (text ++ rest) = false) : holdsBareBreak text = false := by
  fun_induction holdsBareBreak text with
  | case1 => rfl
  | case2 => cases h
  | case3 => rfl
  | case4 c text ih => exact ih h
  | case5 c text hn h₁ h₂ ih =>
    have hc : c ≠ '\\' := by
      intro hc
      cases text with
      | nil => exact h₁ hc rfl
      | cons d u => exact h₂ d u hc rfl
    rw [List.cons_append, holdsBareBreak_cons hn hc] at h
    exact ih h

end Lexeme
end RcScript
