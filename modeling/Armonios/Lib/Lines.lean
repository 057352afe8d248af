import Mathlib.Data.List.Basic
import Mathlib.Data.List.Induction

/-!
# Lines

A text is lines one after the other, each with a separator at its end (`unlines`). A line of a text starts at its
beginning or behind a separator (`IsLine`).
-/

namespace Armonios

variable {α : Type} {sep : α} {p q text text' line : List α} {lines : List (List α)}

def unlines (sep : α) (lines : List (List α)) : List α := lines.flatMap (· ++ [sep])

/-- Here a line begins. -/
def LineStart (sep : α) (p : List α) : Prop := p = [] ∨ p.getLast? = some sep

/-- The text has the line. -/
def IsLine (sep : α) (text line : List α) : Prop := ∃ p q, text = p ++ (line ++ [sep]) ++ q ∧ LineStart sep p

/-- The line is put between two lines of the first text, and this is the second one. -/
def InsertsLine (sep : α) (line text text' : List α) : Prop :=
  ∃ p q, text = p ++ q ∧ text' = p ++ (line ++ [sep]) ++ q ∧ LineStart sep p

@[simp] theorem unlines_cons (line : List α) (lines : List (List α)) :
    unlines sep (line :: lines) = line ++ sep :: unlines sep lines := by
  simp [unlines]

theorem unlines_append (lines lines' : List (List α)) :
    unlines sep (lines ++ lines') = unlines sep lines ++ unlines sep lines' := List.flatMap_append

theorem lineStart_unlines (lines : List (List α)) : LineStart sep (unlines sep lines) := by
  induction lines using List.reverseRecOn with
  | nil => exact .inl rfl
  | append_singleton lines line _ =>
    refine .inr ?_
    rw [unlines_append]
    simp [unlines]

/-- The first separator ends the first line. -/
theorem first_line (hp : sep ∉ p) (hline : sep ∉ line) (h : p ++ sep :: q = line ++ sep :: text) :
    p = line ∧ q = text := by
  induction p generalizing line with
  | nil =>
    cases line with
    | nil => exact ⟨rfl, (List.cons.inj h).2⟩
    | cons a line => exact absurd (List.mem_cons.mpr (.inl (List.cons.inj h).1)) hline
  | cons a p ih =>
    cases line with
    | nil => exact absurd (List.mem_cons.mpr (.inl (List.cons.inj h).1.symm)) hp
    | cons b line =>
      obtain rfl := (List.cons.inj h).1
      obtain ⟨rfl, hq⟩ := ih (fun hmem => hp (List.mem_cons_of_mem a hmem))
        (fun hmem => hline (List.mem_cons_of_mem a hmem)) (List.cons.inj h).2
      exact ⟨rfl, hq⟩

/-- A nonempty text in front of a line has a first line itself. -/
theorem LineStart.split (h : LineStart sep p) (hne : p ≠ []) :
    ∃ line p', p = line ++ sep :: p' ∧ sep ∉ line ∧ LineStart sep p' := by
  have hlast := h.resolve_left hne
  have hmem : sep ∈ p := List.mem_of_getLast? hlast
  obtain ⟨line, p', rfl, hline⟩ := List.eq_append_cons_of_mem hmem
  refine ⟨line, p', rfl, hline, ?_⟩
  cases p' with
  | nil => exact .inl rfl
  | cons a p' =>
    refine .inr ?_
    rwa [List.getLast?_append_of_ne_nil _ (List.cons_ne_nil _ _), List.getLast?_cons_cons] at hlast

theorem isLine_iff (hlines : ∀ l ∈ lines, sep ∉ l) (hline : sep ∉ line) :
    IsLine sep (unlines sep lines) line ↔ line ∈ lines := by
  constructor
  · rintro ⟨p, q, heq, hp⟩
    induction lines generalizing p with
    | nil =>
      have hlen := congrArg List.length heq
      simp [unlines] at hlen
    | cons l lines ih =>
      obtain ⟨hl, hlines⟩ := List.forall_mem_cons.mp hlines
      rw [unlines_cons] at heq
      by_cases hne : p = []
      · subst hne
        rw [List.nil_append, List.append_assoc, List.singleton_append] at heq
        exact List.mem_cons.mpr (.inl (first_line hl hline heq).1.symm)
      · obtain ⟨first, p', rfl, hfirst, hp'⟩ := hp.split hne
        rw [List.append_assoc, List.append_assoc, List.cons_append] at heq
        obtain ⟨-, hrest⟩ := first_line hl hfirst heq
        exact List.mem_cons_of_mem l (ih hlines p' (hrest.trans (List.append_assoc _ _ _).symm) hp')
  · intro hmem
    obtain ⟨before, after, rfl⟩ := List.append_of_mem hmem
    refine ⟨unlines sep before, unlines sep after, ?_, lineStart_unlines before⟩
    rw [unlines_append, unlines_cons]
    simp

theorem insertsLine_unlines (before after : List (List α)) (line : List α) :
    InsertsLine sep line (unlines sep (before ++ after)) (unlines sep (before ++ line :: after)) := by
  refine ⟨unlines sep before, unlines sep after, unlines_append _ _, ?_, lineStart_unlines before⟩
  rw [unlines_append, unlines_cons]
  simp

theorem InsertsLine.length (h : InsertsLine sep line text text') :
    text'.length = text.length + line.length + 1 := by
  obtain ⟨p, q, rfl, rfl, -⟩ := h
  simp only [List.length_append, List.length_singleton]
  omega

end Armonios
