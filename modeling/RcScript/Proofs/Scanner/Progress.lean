/-
# Scanning ends

`Scanner.scansLeft` falls with every look of a scanner that is not done
(`Step.scansLeft_lt`).  A character that is passed pays for the list that it
opens and for all that its braces save (`weight_lt_of_shorter`); where nothing is
passed, a marker is paid or a mode is left (`weight_lt_of_le`).

A single bound on what is left to read would not do, because a marker is read without
passing a character.  The measure therefore weighs the characters that are left by more
than any of them can cause: the line lists that are open or saved at that moment, and one
more for each character that could open another one.  `peakLists` is the largest number of
line lists at any depth of braces, and it grows by one only where a character has been
passed.

Each case of `Step` comes under one of these lemmas.  Where a character is passed, what is
left is shorter, the peak has grown by one at most, and the load may have grown by what was
open.  Where none is, the load itself falls: a marker that is owed is paid, line lists are
closed by the end of the script, or the mode of a block or of a terminator is left.
-/

import RcScript.Proofs.Scanner.Step
import RcScript.Proofs.Scanner.Lexeme

namespace RcScript
namespace Scanner

variable {s t : Scanner}

/-- What further scans are due for without passing a character. -/
def load (s : Scanner) : Nat :=
  s.owed.toNat + s.openLists + s.saved.foldr (· + ·) 0
    + (if s.mode = .block ∨ s.mode = .terminator then 1 else 0)

/-- What the scans left are counted by, whether or not the scanner is done. -/
def weight (s : Scanner) : Nat :=
  s.load + s.rest.length * (s.peakLists + s.rest.length + 3) + 1

/-- What is left after a token is held is the weight of the scanner, or nothing at the end. -/
theorem scansLeft_hold (token : Token) (s : Scanner) :
    (s.hold token).scansLeft = if token.kind = .endOfInput then 0 else s.weight := by
  simp only [scansLeft, hold, weight, load, decide_eq_true_eq]
  split
  · rfl
  · exact congrArg (· + 1) (Nat.add_right_comm ..)

/-- A scanner that is not done has its weight left. -/
theorem scansLeft_of_not_done (h : s.done = false) : s.scansLeft = s.weight := by
  rw [scansLeft, if_neg (by simp [h]), weight, load]
  exact congrArg (· + 1) (Nat.add_right_comm ..)

/-- A running maximum is bounded where all of its numbers are. -/
theorem foldl_max_le_iff {a m : Nat} {l : List Nat} :
    l.foldl max a ≤ m ↔ a ≤ m ∧ ∀ x ∈ l, x ≤ m := by
  induction l generalizing a with
  | nil => simp
  | cons x l ih =>
    rw [List.foldl_cons, ih, List.forall_mem_cons, Nat.max_le]
    exact and_assoc

/-- The peak is bounded where what is open and all that is saved is. -/
theorem peakLists_le_iff {m : Nat} :
    s.peakLists ≤ m ↔ s.openLists ≤ m ∧ ∀ x ∈ s.saved, x ≤ m := foldl_max_le_iff

/-- What is open is below the peak. -/
theorem openLists_le_peakLists (s : Scanner) : s.openLists ≤ s.peakLists :=
  (peakLists_le_iff.1 (Nat.le_refl _)).1

/-- What is saved is below the peak. -/
theorem saved_le_peakLists {x : Nat} (h : x ∈ s.saved) : x ≤ s.peakLists :=
  (peakLists_le_iff.1 (Nat.le_refl _)).2 x h

/-- A character that is passed pays for a line list and for all that it may owe. -/
theorem weight_lt_of_shorter (hr : t.rest.length < s.rest.length)
    (hp : t.peakLists ≤ s.peakLists + 1)
    (hl : t.load ≤ s.load + s.peakLists + s.rest.length + 2) : t.weight < s.weight := by
  have h₁ : t.rest.length * (t.peakLists + t.rest.length + 3) ≤
      (s.rest.length - 1) * (s.peakLists + s.rest.length + 3) :=
    Nat.mul_le_mul (by omega) (by omega)
  have h₂ : s.rest.length * (s.peakLists + s.rest.length + 3) =
      (s.rest.length - 1) * (s.peakLists + s.rest.length + 3) +
        (s.peakLists + s.rest.length + 3) := by
    rw [← Nat.succ_mul, Nat.succ_eq_add_one, Nat.sub_add_cancel (by omega)]
  unfold weight
  omega

/-- Where no character is passed a smaller load makes a scanner lighter. -/
theorem weight_lt_of_le (hr : t.rest.length ≤ s.rest.length) (hp : t.peakLists ≤ s.peakLists)
    (hl : t.load < s.load) : t.weight < s.weight := by
  have h : t.rest.length * (t.peakLists + t.rest.length + 3) ≤
      s.rest.length * (s.peakLists + s.rest.length + 3) :=
    Nat.mul_le_mul hr (by omega)
  unfold weight
  omega

/-- Where nothing grows a scanner gets no heavier. -/
theorem weight_le_of_le (hr : t.rest.length ≤ s.rest.length) (hp : t.peakLists ≤ s.peakLists)
    (hl : t.load ≤ s.load) : t.weight ≤ s.weight := by
  have h : t.rest.length * (t.peakLists + t.rest.length + 3) ≤
      s.rest.length * (s.peakLists + s.rest.length + 3) :=
    Nat.mul_le_mul hr (by omega)
  unfold weight
  omega

/-- Passing characters drops them. -/
theorem rest_forward (n : Nat) (s : Scanner) : (s.forward n).rest = s.rest.drop n :=
  Cursor.rest_forward n s.cursor

/-- Passing characters leaves no more. -/
theorem length_forward_le (n : Nat) (s : Scanner) : (s.forward n).rest.length ≤ s.rest.length := by
  rw [rest_forward, List.length_drop]
  exact Nat.sub_le ..

/-- Passing a character that is there leaves less. -/
theorem length_forward_lt {n : Nat} (hn : n ≠ 0) (h : s.rest ≠ []) :
    (s.forward n).rest.length < s.rest.length := by
  have := List.length_pos_iff.2 h
  rw [rest_forward, List.length_drop]
  omega

/-- Skipping leaves no more. -/
theorem length_skipWhile_le (p : Char → Bool) (s : Scanner) :
    (s.skipWhile p).rest.length ≤ s.rest.length := by
  rw [rest_skipWhile]
  exact (List.dropWhile_sublist p).length_le

/-- Closing braces takes back the line lists saved last, if any are saved. -/
theorem closeBraces_eq (s : Scanner) :
    s.closeBraces = { s with saved := s.saved.tail, lineLists := s.saved.headD s.lineLists } := by
  cases hs : s.saved with
  | nil => simp only [closeBraces, hs, List.tail_nil, List.headD_nil]; rw [← hs]
  | cons outside saved => simp only [closeBraces, hs, List.tail_cons, List.headD_cons]

/-- The end of a line turns open lists into owed markers, and pays one. -/
theorem weight_takeLineEnd_lt {extra : Nat} (ho : s.owed = 0) (hm : s.mode = .normal)
    (ht : t.load = s.lineLists + extra + s.saved.foldr (· + ·) 0)
    (hr : s.rest.length ≤ t.rest.length) (hp : s.saved = t.saved) (hl : s.lineLists + extra ≠ 0) :
    (s.takeLineEnd extra).2.weight < t.weight := by
  refine weight_lt_of_le ?_ (peakLists_le_iff.2 ⟨?_, fun x hx => ?_⟩) ?_
  · refine Nat.le_trans ?_ hr
    simp only [takeLineEnd, newlineMarker, endLine, Scanner.rest, Cursor.rest_forward,
      List.length_drop]
    omega
  · simp [openLists, takeLineEnd, newlineMarker, endLine, hm]
  · exact saved_le_peakLists (hp ▸ hx)
  · rw [ht]
    simp [load, openLists, takeLineEnd, newlineMarker, endLine, hm, ho]
    omega

/-- **Reading a token makes the scanner lighter**, unless it finds the end. -/
theorem TokenRead.weight_lt {begins : Bool} {token : Token} {after : Scanner}
    (h : TokenRead begins s token after) (hm : s.mode = .normal) (ho : s.owed = 0)
    (hk : token.kind ≠ .endOfInput) : after.weight < s.weight := by
  have hs : s.skip.rest.length ≤ s.rest.length := length_skipWhile_le _ s
  have hp : s.lineLists ≤ s.peakLists := by
    simpa [openLists, hm] using openLists_le_peakLists s
  have hpeak : ∀ x ∈ s.saved, x ≤ s.peakLists + 1 := fun x hx =>
    Nat.le_succ_of_le (saved_le_peakLists hx)
  have hshort : ∀ {c cs}, s.skip.rest = c :: cs → ∀ n, n ≠ 0 →
      (s.skip.forward n).rest.length < s.rest.length := fun hc n hn =>
    Nat.lt_of_lt_of_le (length_forward_lt hn (by simp [hc])) hs
  cases h with
  | finish => exact absurd rfl hk
  | lineEnd rest lists =>
    have hload : s.load = s.skip.lineLists + 0 + s.skip.saved.foldr (· + ·) 0 := by
      simp [load, openLists, hm, ho, skip, skipWhile]
    exact weight_takeLineEnd_lt ho hm hload hs rfl lists
  | separator rest =>
    refine weight_lt_of_shorter (hshort rest 1 (by decide)) (peakLists_le_iff.2 ⟨?_, hpeak⟩) ?_
    · simp [openLists, forward, skip, skipWhile, hm]; omega
    · simp [load, openLists, forward, skip, skipWhile, hm, ho]; omega
  | openBraces rest =>
    refine weight_lt_of_shorter (hshort rest 2 (by decide)) (peakLists_le_iff.2 ⟨?_, ?_⟩) ?_
    · simp [openLists, forward, skip, skipWhile, Scanner.openBraces, hm]; omega
    · rintro x (_ | ⟨_, hx⟩)
      · exact Nat.le_succ_of_le hp
      · exact hpeak x hx
    · simp [load, openLists, forward, skip, skipWhile, Scanner.openBraces, hm, ho]; omega
  | closeBraces rest =>
    rw [closeBraces_eq]
    refine weight_lt_of_shorter (hshort rest 2 (by decide)) (peakLists_le_iff.2 ⟨?_, ?_⟩) ?_
    · cases hv : s.saved with
      | nil => simp [openLists, forward, skip, skipWhile, hv]; omega
      | cons k saved =>
        have := hpeak k (by simp [hv])
        simpa [openLists, forward, skip, skipWhile, hv] using this
    · exact fun x hx => hpeak x (List.mem_of_mem_tail hx)
    · cases hv : s.saved with
      | nil => simp [load, openLists, forward, skip, skipWhile, hm, ho, hv]; omega
      | cons k saved => simp [load, openLists, forward, skip, skipWhile, hm, ho, hv]; omega
  | colon rest head =>
    refine weight_lt_of_shorter (hshort rest 1 (by decide)) (peakLists_le_iff.2 ⟨?_, hpeak⟩) ?_
    · simp [openLists, forward, skip, skipWhile, hm]; omega
    · simp [load, openLists, forward, skip, skipWhile, hm, ho]; omega
  | sigil rest head =>
    refine weight_lt_of_shorter (hshort rest 1 (by decide)) (peakLists_le_iff.2 ⟨?_, hpeak⟩) ?_
    · simp [openLists, forward, skip, skipWhile, hm]; omega
    · simp [load, openLists, forward, skip, skipWhile, hm, ho]; omega
  | word rest opens closes space separator head =>
    refine weight_lt_of_shorter (hshort rest _ ?_) (peakLists_le_iff.2 ⟨?_, hpeak⟩) ?_
    · simp [word_cons rest closes space separator]
    · simp [openLists, forward, skip, skipWhile, hm]; omega
    · simp [load, openLists, forward, skip, skipWhile, hm, ho]; omega

/-- Every scanner has some weight. -/
theorem weight_pos (s : Scanner) : 0 < s.weight := Nat.succ_pos _

/-- Skipping blanks leaves no more. -/
theorem length_skipBlanks_le (s : Scanner) : s.skipBlanks.rest.length ≤ s.rest.length :=
  length_skipWhile_le _ s

/-- Reading a token leaves fewer scans than the weight before it. -/
theorem TokenRead.scansLeft_lt {begins : Bool} {token : Token} {after u : Scanner}
    (h : TokenRead begins u token after) (hm : u.mode = .normal) (ho : u.owed = 0)
    (hw : u.weight ≤ s.weight) : (after.hold token).scansLeft < s.weight := by
  rw [scansLeft_hold]
  split
  · exact weight_pos s
  · next hk => exact Nat.lt_of_lt_of_le (h.weight_lt hm ho hk) hw

/-- **A step of a scanner leaves fewer scans.** -/
theorem Step.scansLeft_lt (h : Step s t) (hd : s.done = false) (ho : 0 ≤ s.owed) :
    t.scansLeft < s.scansLeft := by
  rw [scansLeft_of_not_done hd]
  have hp := openLists_le_peakLists s
  have hpeak : ∀ x ∈ s.saved, x ≤ s.peakLists := fun x hx => saved_le_peakLists hx
  have hb : s.resume.skipBlanks.rest.length ≤ s.rest.length := length_skipBlanks_le s.resume
  cases h with
  | owed owed =>
    rw [scansLeft_hold, if_neg (by simp [Token.newlineAt])]
    refine weight_lt_of_le (Nat.le_refl _) (Nat.le_refl _) ?_
    simp [load, openLists]
    omega
  | token owed mode read =>
    refine read.scansLeft_lt rfl owed (weight_le_of_le (Nat.le_refl _) ?_ ?_)
    · refine peakLists_le_iff.2 ⟨?_, hpeak⟩
      simpa [openLists, resume, mode] using hp
    · simp [load, openLists, resume, mode]
  | bracedList owed mode rest =>
    -- two characters are passed, and they pay for the line lists that the braces save
    rw [scansLeft_hold, if_neg (by simp)]
    simp only [openLists, mode] at hp
    refine weight_lt_of_shorter ?_ (peakLists_le_iff.2 ⟨Nat.zero_le _, ?_⟩) ?_
    · refine Nat.lt_of_lt_of_le (length_forward_lt (by decide) ?_) hb
      exact List.ne_nil_of_mem (rest ▸ List.mem_cons_self)
    · rintro x (_ | ⟨_, hx⟩)
      · exact Nat.le_trans (Nat.le_add_right ..) (Nat.le_succ_of_le hp)
      · exact Nat.le_succ_of_le (hpeak x hx)
    · simp [load, openLists, openBraces, forward, skipBlanks, skipWhile, resume, mode, owed]
      omega
  | lineList owed mode rest read =>
    refine read.scansLeft_lt rfl owed (weight_le_of_le hb ?_ ?_)
    · refine peakLists_le_iff.2 ⟨?_, hpeak⟩
      simpa [openLists, resume, mode, skipBlanks, skipWhile] using hp
    · simp [load, openLists, skipBlanks, skipWhile, resume, mode]
  | block owed mode rest =>
    rw [scansLeft_hold, if_neg (by simp)]
    simp only [openLists, mode] at hp
    refine weight_lt_of_shorter ?_ (peakLists_le_iff.2 ⟨?_, ?_⟩) ?_
    · exact Nat.lt_of_lt_of_le (length_forward_lt (by decide) (by simp [rest])) hb
    · exact Nat.le_succ_of_le hp
    · rintro x (_ | ⟨_, hx⟩)
      · exact Nat.le_succ_of_le hp
      · exact Nat.le_succ_of_le (hpeak x hx)
    · simp [load, openLists, openBraces, forward, skipBlanks, skipWhile, resume, mode, owed]
      simp at hp
      omega
  | noCommand => exact weight_pos s
  | openCommand => exact weight_pos s
  | @command text owed mode rest opens space found =>
    rw [scansLeft_hold, if_neg (by simp)]
    have htext : text.length ≠ 0 := fun h =>
      Lexeme.commandText_ne_nil found rest space (List.length_eq_zero_iff.1 h)
    have hlen : (s.resume.skipBlanks.forward text.length).rest.length < s.rest.length :=
      Nat.lt_of_lt_of_le (length_forward_lt htext rest) hb
    refine weight_lt_of_shorter ?_ (peakLists_le_iff.2 ⟨Nat.zero_le _, ?_⟩) ?_
    · exact Nat.lt_of_le_of_lt (length_forward_le _ _) hlen
    · exact fun x hx => Nat.le_succ_of_le (hpeak x hx)
    · simp [load, openLists, endLine, forward, skipBlanks, skipWhile, resume, mode, owed]
      omega
  | openBlock => exact weight_pos s
  | blockText owed mode found =>
    rw [scansLeft_hold, if_neg (by simp)]
    refine weight_lt_of_le (length_forward_le _ _) (peakLists_le_iff.2 ⟨?_, hpeak⟩) ?_
    · simpa [openLists, forward, resume, mode] using hp
    · simp [load, openLists, forward, resume, mode]
  | terminator owed mode rest read =>
    refine read.scansLeft_lt rfl owed (weight_le_of_le hb ?_ ?_)
    · refine peakLists_le_iff.2 ⟨?_, hpeak⟩
      simpa [openLists, resume, mode, skipBlanks, skipWhile] using hp
    · simp [load, openLists, skipBlanks, skipWhile, resume, mode]
  | lineEnd owed mode rest =>
    rw [scansLeft_hold, if_neg (by simp [Token.newlineAt])]
    refine weight_takeLineEnd_lt owed rfl ?_ hb rfl (Nat.succ_ne_zero _)
    simp [load, openLists, skipBlanks, skipWhile, resume, mode, owed]
    omega
  | stray => exact weight_pos s

end Scanner
end RcScript
