import Mathlib.Data.List.Basic
import Mathlib.Tactic.Common

/-!
# Tilings

Things with a start and a stop that follow one another without gaps: `Tiles start stop lo l hi` says that those of `l`
fill the range from `lo` to `hi`.

* `tiles_append`: a tiling in two parts;
* `Tiles.within`, `Tiles.pairwise`: where the things are;
* `Tiles.replace`: other things for a part of a tiling.
-/

namespace Armonios

variable {α : Type} {start stop : α → Nat} {lo hi : Nat} {a : α} {l m m' r : List α}

def Tiles (start stop : α → Nat) : (lo : Nat) → List α → (hi : Nat) → Prop
  | lo, [], hi => lo = hi
  | lo, a :: l, hi => start a = lo ∧ start a ≤ stop a ∧ Tiles start stop (stop a) l hi

theorem tiles_append : Tiles start stop lo (l ++ r) hi ↔ ∃ mid, Tiles start stop lo l mid ∧
    Tiles start stop mid r hi := by
  induction l generalizing lo with
  | nil => simp [Tiles]
  | cons a l ih =>
    simp only [List.cons_append, Tiles, ih]
    constructor
    · rintro ⟨hstart, hle, mid, hl, hr⟩
      exact ⟨mid, ⟨hstart, hle, hl⟩, hr⟩
    · rintro ⟨mid, ⟨hstart, hle, hl⟩, hr⟩
      exact ⟨hstart, hle, mid, hl, hr⟩

theorem Tiles.le (h : Tiles start stop lo l hi) : lo ≤ hi := by
  induction l generalizing lo with
  | nil => exact Nat.le_of_eq h
  | cons a l ih =>
    obtain ⟨rfl, hle, hl⟩ := h
    exact Nat.le_trans hle (ih hl)

theorem Tiles.within (h : Tiles start stop lo l hi) (ha : a ∈ l) : lo ≤ start a ∧ start a ≤ stop a ∧ stop a ≤ hi := by
  obtain ⟨front, rest, rfl⟩ := List.append_of_mem ha
  obtain ⟨mid, hfront, rfl, hle, hrest⟩ := tiles_append.mp h
  exact ⟨hfront.le, hle, hrest.le⟩

theorem Tiles.pairwise (h : Tiles start stop lo l hi) : l.Pairwise fun a b => stop a ≤ start b := by
  induction l generalizing lo with
  | nil => exact .nil
  | cons a l ih =>
    obtain ⟨-, -, hl⟩ := h
    exact .cons (fun b hb => (hl.within hb).1) (ih hl)

theorem Tiles.replace (h : Tiles start stop lo (l ++ m ++ r) hi)
    (hm : ∀ a b, Tiles start stop a m b → Tiles start stop a m' b) : Tiles start stop lo (l ++ m' ++ r) hi := by
  obtain ⟨b, hlm, hr⟩ := tiles_append.mp h
  obtain ⟨a, hl, hmid⟩ := tiles_append.mp hlm
  exact tiles_append.mpr ⟨b, tiles_append.mpr ⟨a, hl, hm a b hmid⟩, hr⟩

/-- Neighbours stop and start at one place. -/
theorem Tiles.next {b : α} (h : Tiles start stop lo (l ++ a :: b :: r) hi) : start b = stop a := by
  obtain ⟨-, -, -, -, hb, -, -⟩ := tiles_append.mp h
  exact hb

end Armonios
