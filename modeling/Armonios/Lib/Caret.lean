import Armonios.Lib.Lines

/-!
# A caret in a text

Lines with a separator between them, and a caret in one of them: `CaretAt` says what is before the line and after it, and
the column of the caret.

* `caretAt_exists`: every caret is in a line;
* `CaretAt.previous`, `CaretAt.next`: the adjacent lines;
* `CaretAt.line_get`, `CaretAt.start_get`, `CaretAt.stop_get`: where the separators are.
-/

namespace Armonios

variable {α : Type} {sep : α} {text p q before line after : List α} {caret col i : Nat}

/-- Here a line ends. -/
def LineStop (sep : α) (q : List α) : Prop := q = [] ∨ q.head? = some sep

structure CaretAt (sep : α) (text : List α) (caret : Nat) (before line after : List α) (col : Nat) : Prop where
  text_eq : text = before ++ (line ++ after)
  start : LineStart sep before
  stop : LineStop sep after
  whole : sep ∉ line
  col_le : col ≤ line.length
  caret_eq : caret = before.length + col

theorem LineStart.append_sep (p : List α) : LineStart sep (p ++ [sep]) := .inr (by simp)

theorem last_line [DecidableEq α] (sep : α) (p : List α) : ∃ before line, p = before ++ line ∧ LineStart sep before ∧
    sep ∉ line := by
  induction p using List.reverseRecOn with
  | nil => exact ⟨[], [], rfl, .inl rfl, by simp⟩
  | append_singleton p a ih =>
    by_cases ha : a = sep
    · subst ha
      exact ⟨p ++ [a], [], by simp, .append_sep p, by simp⟩
    · obtain ⟨before, line, rfl, hstart, hline⟩ := ih
      refine ⟨before, line ++ [a], by simp, hstart, ?_⟩
      rw [List.mem_append, List.mem_singleton]
      exact fun h => h.elim hline fun h => ha h.symm

theorem line_rest [DecidableEq α] (sep : α) (q : List α) : ∃ line after, q = line ++ after ∧ LineStop sep after ∧
    sep ∉ line := by
  induction q with
  | nil => exact ⟨[], [], rfl, .inl rfl, by simp⟩
  | cons a q ih =>
    by_cases ha : a = sep
    · exact ⟨[], a :: q, rfl, .inr (congrArg some ha), by simp⟩
    · obtain ⟨line, after, rfl, hstop, hline⟩ := ih
      refine ⟨a :: line, after, rfl, hstop, ?_⟩
      rw [List.mem_cons]
      exact fun h => h.elim (fun h => ha h.symm) hline

theorem caretAt_exists [DecidableEq α] (sep : α) (h : caret ≤ text.length) :
    ∃ before line after col, CaretAt sep text caret before line after col := by
  obtain ⟨before, left, hleft, hstart, hl⟩ := last_line sep (text.take caret)
  obtain ⟨right, after, hright, hstop, hr⟩ := line_rest sep (text.drop caret)
  refine ⟨before, left ++ right, after, left.length, ?_, hstart, hstop, ?_, by simp, ?_⟩
  · rw [List.append_assoc, ← hright, ← List.append_assoc, ← hleft, List.take_append_drop]
  · rw [List.mem_append]
    exact fun h => h.elim hl hr
  · have hlen := congrArg List.length hleft
    rw [List.length_take_of_le h, List.length_append] at hlen
    exact hlen

namespace CaretAt

theorem caret_le (h : CaretAt sep text caret before line after col) : caret ≤ text.length := by
  have hcol := h.col_le
  rw [h.text_eq, h.caret_eq, List.length_append, List.length_append]
  omega

/-- The line before this one, if there is one. -/
theorem previous [DecidableEq α] (h : CaretAt sep text caret before line after col) (hne : before ≠ []) :
    ∃ before' prev, before = before' ++ (prev ++ [sep]) ∧
      ∀ col ≤ prev.length, CaretAt sep text (before'.length + col) before' prev (sep :: (line ++ after)) col := by
  have hlast := h.start.resolve_left hne
  obtain ⟨p, rfl⟩ := List.getLast?_eq_some_iff.mp hlast
  obtain ⟨before', prev, rfl, hstart, hprev⟩ := last_line sep p
  refine ⟨before', prev, List.append_assoc .., fun col hcol => ⟨?_, hstart, .inr rfl, hprev, hcol, rfl⟩⟩
  rw [h.text_eq]
  simp

/-- The line after this one, if there is one. -/
theorem next [DecidableEq α] (h : CaretAt sep text caret before line after col) (hne : after ≠ []) :
    ∃ line' after', after = sep :: (line' ++ after') ∧
      ∀ col ≤ line'.length, CaretAt sep text (before.length + line.length + 1 + col)
        (before ++ (line ++ [sep])) line' after'
        col := by
  obtain ⟨q, rfl⟩ := List.head?_eq_some_iff.mp (h.stop.resolve_left hne)
  obtain ⟨line', after', rfl, hstop, hline'⟩ := line_rest sep q
  refine ⟨line', after', rfl, fun col hcol => ⟨?_, ?_, hstop, hline', hcol, ?_⟩⟩
  · rw [h.text_eq]
    simp
  · rw [← List.append_assoc]
    exact .append_sep _
  · simp only [List.length_append, List.length_singleton]
    omega

/-- Another column of the line. -/
theorem in_line (h : CaretAt sep text caret before line after col) (hi : i ≤ line.length) :
    CaretAt sep text (before.length + i) before line after i :=
  ⟨h.text_eq, h.start, h.stop, h.whole, hi, rfl⟩

theorem line_get (h : CaretAt sep text caret before line after col) (hi : before.length ≤ i)
    (hi' : i < before.length + line.length) : text[i]? ≠ some sep := by
  rw [h.text_eq, List.getElem?_append_right hi, List.getElem?_append_left (by omega)]
  exact fun hget => h.whole (List.mem_of_getElem? hget)

theorem start_get (h : CaretAt sep text caret before line after col) (hne : before ≠ []) :
    text[before.length - 1]? = some sep := by
  have hpos := List.length_pos_of_ne_nil hne
  rw [h.text_eq, List.getElem?_append_left (by omega), ← List.getLast?_eq_getElem?]
  exact h.start.resolve_left hne

theorem stop_get (h : CaretAt sep text caret before line after col) (hne : after ≠ []) :
    text[before.length + line.length]? = some sep := by
  rw [h.text_eq, List.getElem?_append_right (Nat.le_add_right ..), List.getElem?_append_right (by omega),
    Nat.add_sub_cancel_left, Nat.sub_self, ← List.head?_eq_getElem?]
  exact h.stop.resolve_left hne

end CaretAt

end Armonios
