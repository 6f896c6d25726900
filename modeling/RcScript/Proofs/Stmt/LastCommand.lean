/-
# The command that a statement ends with

The canonical text of a statement may end with a command on a line
(`Stmt.lastCommand?`).  Then it is the text up to this command, the command, and a
line break.  In front of the text up to the command, whatever comes after it on the
line, a scanner reads the statement with just that as its command
(`Stmt.reads_withCommand`); so the statement comes back if and only if the line that
is read is its command's.

There is at most one such command, and it is found by going down the bodies of bindings
and definitions; a list, whose braces come last, has none.  Putting another command in its
place changes the statement (`eq_of_withCommand_eq`) and leaves its height as it is.  The
two ways in which a statement can be written and come back different, gluing it to the
statement below and losing its line break, are both of this form, which is why the reading
is stated for any command and any rest of the line.

The reading itself is the induction of `RcScript.Proofs.Stmt.Written` broken off before
the last command: keywords, heads and colons are read as they are written, and then the
scanner waits for a command (`reads_beforeCommand`).
-/

import RcScript.Proofs.Stmt.Written

namespace RcScript

open Scanner Terminal

namespace Lexeme

/-- A line break at the end of a text that has no bare ones is escaped. -/
theorem getLast?_of_holdsBareBreak {cs : List Char} (h : holdsBareBreak (cs ++ ['\n']) = false) :
    cs.getLast? = some '\\' := by
  fun_induction dangles cs with
  | case1 => cases h
  | case2 => rfl
  | case3 c rest ih =>
    simp [List.getLast?_cons, ih h]
  | case4 c rest h₁ h₂ ih =>
    have hb : c ≠ '\\' := by
      intro hc
      cases rest with
      | nil => exact h₁ hc rfl
      | cons d l => exact h₂ d l hc rfl
    have hn : c ≠ '\n' := by
      rintro rfl
      cases h
    rw [List.cons_append, holdsBareBreak_cons hn hb] at h
    simp [List.getLast?_cons, ih h]

/-- A command is only left open by a backslash at the end of the script. -/
theorem getLast?_of_commandText_eq_none {cs : List Char} (h : commandText cs = none) :
    cs.getLast? = some '\\' := by
  fun_induction commandText cs with
  | case1 => cases h
  | case2 => cases h
  | case3 => rfl
  | case4 c rest ih =>
    simp [List.getLast?_cons, ih (Option.map_eq_none_iff.1 h)]
  | case5 c rest _ _ _ ih =>
    simp [List.getLast?_cons, ih (Option.map_eq_none_iff.1 h)]

/-- More of a line makes another command of it. -/
theorem trimReturns_append_ne {text more : List Char} {c : Char} (hc : more.head? = some c)
    (hr : c ≠ '\r') : trimReturns (text ++ more) ≠ text := by
  intro h
  obtain ⟨n, hn⟩ := exists_append_trimReturns (text ++ more)
  rw [h, List.append_cancel_left_eq] at hn
  cases n with
  | zero =>
    rw [hn] at hc
    cases hc
  | succ n =>
    rw [hn] at hc
    exact hr (Option.some.inj hc).symm

end Lexeme

namespace Stmt

variable {stmt : Stmt} {command : String} {s : Scanner} {lists : Nat} {saved : List Nat}

/-- The command that a statement ends with, if it ends with one on a line. -/
def lastCommand? : Stmt → Option String
  | .map _ body => lastCommand? body
  | .cmd _ body => lastCommand? body
  | .exec _ text => if fitsBlock text then none else some text
  | _ => none

/-- The canonical text of a statement up to the command that it ends with. -/
def beforeCommand : Stmt → List Char
  | .map keys body => "map".toList ++ ' ' :: (keys.toList ++ ' ' :: beforeCommand body)
  | .cmd name body => "cmd".toList ++ ' ' :: (name.toList ++ ' ' :: beforeCommand body)
  | .exec g _ => [g.char]
  | _ => []

/-- A statement with another command in the place of the one that it ends with. -/
def withCommand (command : String) : Stmt → Stmt
  | .map keys body => .map keys (withCommand command body)
  | .cmd name body => .cmd name (withCommand command body)
  | .exec g _ => .exec g command
  | stmt => stmt

/-- A statement ends its line just when it ends with a command on one. -/
theorem endsLine_eq (stmt : Stmt) : stmt.endsLine = stmt.lastCommand?.isSome := by
  fun_induction lastCommand? stmt with
  | case1 keys body ih => exact ih
  | case2 name body ih => exact ih
  | case3 g text hf => simp [endsLine, hf]
  | case4 g text hf => simp [endsLine, hf]
  | case5 stmt h₁ h₂ h₃ =>
    cases stmt with
    | map keys body => exact absurd rfl (h₁ keys body)
    | cmd name body => exact absurd rfl (h₂ name body)
    | exec g text => exact absurd rfl (h₃ g text)
    | _ => rfl

/-- **The text of a statement is its text up to its last command, the command and a line
break.** -/
theorem toList_text_of_lastCommand? (h : stmt.lastCommand? = some command) :
    (text stmt).toList = beforeCommand stmt ++ (command.toList ++ ['\n']) := by
  fun_induction lastCommand? stmt with
  | case1 keys body ih => rw [toList_text_map, ih h, beforeCommand]; simp
  | case2 name body ih => rw [toList_text_cmd, ih h, beforeCommand]; simp
  | case3 g text hf => cases h
  | case4 g text hf =>
    obtain rfl := Option.some.inj h
    exact toList_text_line (by simpa using hf)
  | case5 stmt => cases h

/-- A statement that ends with no command on a line ends with a semicolon. -/
theorem getLast?_text : ∀ {stmt : Stmt}, stmt.lastCommand? = none →
    (text stmt).toList.getLast? = some ';'
  | .set option value, _ => by
    by_cases hv : value = ""
    · rw [hv, toList_text_switch]
      simp [List.getLast?_cons]
    · rw [toList_text_set hv]
      simp [List.getLast?_cons]
  | .map keys body, h => by
    rw [toList_text_map]
    simp [List.getLast?_cons, getLast?_text (show lastCommand? body = none from h)]
  | .cmd name body, h => by
    rw [toList_text_cmd]
    simp [List.getLast?_cons, getLast?_text (show lastCommand? body = none from h)]
  | .call name args, _ => by
    rw [toList_text_call]
    simp
  | .exec g text, h => by
    have hf : fitsBlock text = true := by simpa [lastCommand?] using h
    rw [toList_text_block hf]
    simp [List.getLast?_cons]
  | .list first others, _ => by
    rw [toList_text_list]
    simp [List.getLast?_cons]
  | .hole value, _ => value.elim

/-- The command that a statement ends with makes no difference to it. -/
theorem withCommand_of_lastCommand? (h : stmt.lastCommand? = some command) :
    stmt.withCommand command = stmt := by
  fun_induction lastCommand? stmt with
  | case1 keys body ih => exact congrArg (Tree.map keys) (ih h)
  | case2 name body ih => exact congrArg (Tree.cmd name) (ih h)
  | case3 g text hf => cases h
  | case4 g text hf =>
    obtain rfl := Option.some.inj h
    rfl
  | case5 stmt => cases h

/-- Another command makes another statement. -/
theorem eq_of_withCommand_eq {other : String} (h : stmt.lastCommand? = some command)
    (heq : stmt.withCommand other = stmt) : other = command := by
  fun_induction lastCommand? stmt with
  | case1 keys body ih =>
    rw [withCommand, Tree.map.injEq] at heq
    exact ih h heq.2
  | case2 name body ih =>
    rw [withCommand, Tree.cmd.injEq] at heq
    exact ih h heq.2
  | case3 g text hf => cases h
  | case4 g text hf =>
    rw [withCommand, Tree.exec.injEq] at heq
    exact heq.2.trans (Option.some.inj h)
  | case5 stmt => cases h

/-- Another command leaves the height as it is. -/
theorem height_withCommand (command : String) (stmt : Stmt) :
    (stmt.withCommand command).height = stmt.height := by
  fun_induction withCommand command stmt with
  | case1 keys body ih => exact congrArg (· + 1) ih
  | case2 name body ih => exact congrArg (· + 1) ih
  | case3 g text => rfl
  | case4 stmt => rfl

/-- The command that a well-formed statement ends with fits its line and leaves the line
break alone. -/
theorem WellFormed.fitsLine (hw : stmt.WellFormed) (h : stmt.lastCommand? = some command) :
    FitsLine command ∧ Lexeme.dangles command.toList = false := by
  fun_induction lastCommand? stmt with
  | case1 keys body ih => exact ih (Tree.forall_walk_map.1 hw).2 h
  | case2 name body ih => exact ih (Tree.forall_walk_cmd.1 hw).2 h
  | case3 g text hf => cases h
  | case4 g text hf =>
    obtain rfl := Option.some.inj h
    exact (forall_walk_exec.1 hw).resolve_left hf
  | case5 stmt => cases h

/-- The text up to the command begins with something to read. -/
theorem exists_beforeCommand_eq_cons (h : stmt.lastCommand? = some command) :
    ∃ c cs, beforeCommand stmt = c :: cs ∧ Text.isSpace c = false := by
  cases stmt with
  | map keys body => exact ⟨'m', _, rfl, by decide⟩
  | cmd name body => exact ⟨'c', _, rfl, by decide⟩
  | exec g text => exact ⟨g.char, [], rfl, by cases g <;> decide⟩
  | _ => cases h

/-- Before a statement that is written behind a space nothing is left but the statement. -/
theorem rest_skip_beforeCommand {tail : List Char} (hl : stmt.lastCommand? = some command)
    (h : Stands .normal 0 lists saved true (' ' :: (beforeCommand stmt ++ tail)) s) :
    s.skip.rest = beforeCommand stmt ++ tail := by
  obtain ⟨c, cs, hc, hs⟩ := exists_beforeCommand_eq_cons hl
  have hrest := h.rest
  rw [hc] at hrest ⊢
  exact rest_skip_space hrest hs (.inl rfl)

/-- **The text up to the command is read as it is written**: behind it the scanner waits
for a command, and with any command the statement is derived. -/
theorem reads_beforeCommand {tail : List Char} (hw : stmt.WellFormed)
    (hl : stmt.lastCommand? = some command) (h : Poised .normal 0 lists saved s)
    (hb : s.beginsStatement = true) (hr : s.skip.rest = beforeCommand stmt ++ tail) :
    ∃ xs t, Reads s xs t ∧ Stands .sigil 0 lists saved false tail t ∧
      ∀ other, Derives IsSeparator (.statement (stmt.withCommand other))
        (xs ++ [.command other, .newline]) := by
  fun_induction lastCommand? stmt generalizing s with
  | case1 keys body ih =>
    obtain ⟨hk, hbody⟩ := Tree.forall_walk_map.1 hw
    rw [beforeCommand, List.append_assoc, List.cons_append, List.append_assoc,
      List.cons_append] at hr
    obtain ⟨u, e₁, h₁⟩ := h.reads_heading (by decide) hk hr
    obtain ⟨xs, t, e₂, h₂, hd⟩ := ih hbody hl h₁.poised h₁.begins (rest_skip_beforeCommand hl h₁)
    exact ⟨_, t, reads_append.2 ⟨u, e₁, e₂⟩, h₂, fun other => .binding (hd other).nest⟩
  | case2 name body ih =>
    obtain ⟨hn, hbody⟩ := Tree.forall_walk_cmd.1 hw
    rw [beforeCommand, List.append_assoc, List.cons_append, List.append_assoc,
      List.cons_append] at hr
    obtain ⟨u, e₁, h₁⟩ := h.reads_heading (by decide) hn hr
    obtain ⟨xs, t, e₂, h₂, hd⟩ := ih hbody hl h₁.poised h₁.begins (rest_skip_beforeCommand hl h₁)
    exact ⟨_, t, reads_append.2 ⟨u, e₁, e₂⟩, h₂, fun other => .definition (hd other).nest⟩
  | case3 g text hf => cases hl
  | case4 g text hf =>
    obtain ⟨t, e, ht⟩ := h.reads_sigil hb hr
    exact ⟨_, t, e, ht, fun other => .line g other⟩
  | case5 stmt => cases hl

/-- **In front of its command and more of a line a statement is read with the whole
line.** -/
theorem reads_withCommand (line after : List Char) (hw : stmt.WellFormed)
    (hl : stmt.lastCommand? = some command) (h : Poised .normal 0 lists saved s)
    (hb : s.beginsStatement = true)
    (hr : s.skip.rest = beforeCommand stmt ++ (command.toList ++ (line ++ after)))
    (hlast : command.toList.getLast? = some '\n')
    (hline : Lexeme.commandText (line ++ after) = some line) :
    ∃ xs t, Derives IsSeparator (.statement (stmt.withCommand
        (String.ofList (Lexeme.trimReturns (command.toList ++ line))))) xs ∧ Reads s xs t ∧
      Stands .normal lists 0 saved true after.tail t := by
  obtain ⟨hfits, hd⟩ := hw.fitsLine hl
  obtain ⟨xs, u, e₁, h₁, hderives⟩ := reads_beforeCommand hw hl h hb hr
  have hfound : Lexeme.commandText (command.toList ++ (line ++ after)) =
      some (command.toList ++ line) := by
    rw [Lexeme.commandText_append hfits.breaks hd, hline, Option.map_some]
  have hsplit := (List.append_assoc command.toList line after).symm
  have hfirst := hfits.first
  have hopens := hfits.opens
  -- an escaped line break is not the first character, so there are two at least
  obtain ⟨c, d, l, hcommand⟩ : ∃ c d l, command.toList = c :: d :: l := by
    rcases hcs : command.toList with _ | ⟨c, _ | ⟨d, l⟩⟩
    · rw [hcs] at hlast
      cases hlast
    · rw [hcs] at hlast hfirst
      obtain rfl : c = '\n' := Option.some.inj hlast
      exact absurd (hfirst '\n' rfl) (by decide)
    · exact ⟨c, d, l, rfl⟩
  rw [hcommand] at hfirst hopens hfound hsplit h₁ ⊢
  have hbraces : ∀ tail, c :: d :: (l ++ (line ++ after)) ≠ '{' :: '{' :: tail := by
    intro tail htail
    cases htail
    exact hopens ⟨l, rfl⟩
  obtain ⟨t, e₂, h₂⟩ := h₁.reads_command (hfirst c rfl) hbraces hfound hsplit
  exact ⟨_, t, hderives _, reads_append.2 ⟨u, e₁, e₂⟩, h₂⟩

end Stmt
end RcScript
