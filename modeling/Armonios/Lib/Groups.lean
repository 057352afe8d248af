import Mathlib.Data.List.Basic

/-!
# Groups under headers

A list whose elements belong to the header before them. `groups head l` has each header with the elements up to the
next one; those before the first header are in no group.
-/

namespace Armonios

variable {α : Type} (head : α → Prop) [DecidablePred head] {l : List α} {a : α}

/-- The elements before the first header, and the groups. -/
def splitHeads : List α → List α × List (α × List α)
  | [] => ([], [])
  | a :: l =>
    if head a then ([], (a, (splitHeads l).1) :: (splitHeads l).2) else (a :: (splitHeads l).1, (splitHeads l).2)

def groups (l : List α) : List (α × List α) := (splitHeads head l).2

@[simp] theorem groups_nil : groups head [] = [] := rfl

/-- A header at the end starts a group. -/
theorem splitHeads_head (ha : head a) (l : List α) :
    splitHeads head (l ++ [a]) = ((splitHeads head l).1, (splitHeads head l).2 ++ [(a, [])]) := by
  induction l with
  | nil => simp [splitHeads, ha]
  | cons b l ih =>
    rw [List.cons_append, splitHeads, ih, splitHeads]
    split <;> rfl

/-- Another element at the end, where there is no group. -/
theorem splitHeads_lead (ha : ¬ head a) (hl : (splitHeads head l).2 = []) :
    splitHeads head (l ++ [a]) = ((splitHeads head l).1 ++ [a], []) := by
  induction l with
  | nil => simp [splitHeads, ha]
  | cons b l ih =>
    rw [splitHeads] at hl
    split at hl
    · cases hl
    · rename_i hb
      rw [List.cons_append, splitHeads, if_neg hb, ih hl, splitHeads, if_neg hb]
      rfl

/-- Another element at the end belongs to the last group. -/
theorem splitHeads_last (ha : ¬ head a) {gs : List (α × List α)} {g : α × List α}
    (hl : (splitHeads head l).2 = gs ++ [g]) :
    splitHeads head (l ++ [a]) = ((splitHeads head l).1, gs ++ [(g.1, g.2 ++ [a])]) := by
  induction l generalizing gs with
  | nil =>
    have hlength := congrArg List.length hl
    simp [splitHeads] at hlength
  | cons b l ih =>
    rw [splitHeads] at hl
    rw [List.cons_append, splitHeads, splitHeads]
    split at hl
    · rename_i hb
      simp only [if_pos hb]
      cases gs with
      | nil =>
        -- the group of `b` is the only one
        simp only [List.nil_append, List.cons.injEq] at hl
        rw [splitHeads_lead head ha hl.2, ← hl.1]
        rfl
      | cons g' gs =>
        simp only [List.cons_append, List.cons.injEq] at hl
        rw [ih hl.2, ← hl.1]
        rfl
    · rename_i hb
      simp only [if_neg hb]
      rw [ih hl]

theorem groups_head (ha : head a) (l : List α) : groups head (l ++ [a]) = groups head l ++ [(a, [])] := by
  rw [groups, splitHeads_head head ha]
  rfl

theorem groups_lead (ha : ¬ head a) (hl : groups head l = []) : groups head (l ++ [a]) = [] := by
  rw [groups, splitHeads_lead head ha hl]

theorem groups_last (ha : ¬ head a) {gs : List (α × List α)} {g : α × List α} (hl : groups head l = gs ++ [g]) :
    groups head (l ++ [a]) = gs ++ [(g.1, g.2 ++ [a])] := by
  rw [groups, splitHeads_last head ha hl]

end Armonios
