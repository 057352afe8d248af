import Mathlib.Data.Set.Insert
import Mathlib.Order.BooleanAlgebra.Set
import Mathlib.Data.List.Nodup

/-!
# Exclusive ownership

The things of a pool are free or held: `own x` is what the owner `x` holds, if anything. Ownership is
exclusive if no two owners hold the same thing, nobody holds a free one, and the pool has no others
(`Exclusive`).

* `Exclusive.take`: free things get owners. It goes in two steps: `reserve` sets things aside, which are
  then out of the pool, `gain` brings them back. What owners give up goes by `lose` and `restore`;
* `Exclusive.regroup`: owners come in groups, and one group changes what it holds.
-/

namespace Armonios

variable {α ω : Type} {pool free free' S : Set α} {own own' : ω → Option α}

/-- What is in the pool is free or has one owner. -/
structure Exclusive (pool free : Set α) (own : ω → Option α) : Prop where
  inj : ∀ x y a, own x = some a → own y = some a → x = y
  apart : ∀ x a, own x = some a → a ∉ free
  cover : ∀ a, a ∈ pool ↔ a ∈ free ∨ ∃ x, own x = some a

theorem Exclusive.one_owner {a : α} (h : Exclusive pool free own) (ha : a ∈ pool) :
    (a ∈ free ∧ ∀ x, own x ≠ some a) ∨ (a ∉ free ∧ ∃! x, own x = some a) := by
  rcases (h.cover a).mp ha with hf | ⟨x, hx⟩
  · exact .inl ⟨hf, fun x hx => h.apart x a hx hf⟩
  · exact .inr ⟨h.apart x a hx, x, hx, fun y hy => h.inj y x a hy hx⟩

/-- The things in `S`, which were free, are set aside. -/
theorem Exclusive.reserve (h : Exclusive pool free own) (hS : S ⊆ free) : Exclusive (pool \ S) (free \ S) own := by
  refine ⟨h.inj, fun x a hx hf => h.apart x a hx hf.1, fun a => ?_⟩
  constructor
  · rintro ⟨hp, ha⟩
    rcases (h.cover a).mp hp with hf | hx
    · exact .inl ⟨hf, ha⟩
    · exact .inr hx
  · rintro (⟨hf, ha⟩ | ⟨x, hx⟩)
    · exact ⟨(h.cover a).mpr (.inl hf), ha⟩
    · exact ⟨(h.cover a).mpr (.inr ⟨x, hx⟩), fun ha => h.apart x a hx (hS ha)⟩

/-- What was set aside is free again. -/
theorem Exclusive.restore (h : Exclusive pool free own) (hS : ∀ a ∈ S, a ∉ pool) :
    Exclusive (pool ∪ S) (free ∪ S) own := by
  have hheld : ∀ x a, own x = some a → a ∉ S := fun x a hx ha => hS a ha ((h.cover a).mpr (.inr ⟨x, hx⟩))
  refine ⟨h.inj, fun x a hx hf => hf.elim (h.apart x a hx) (hheld x a hx), fun a => ?_⟩
  constructor
  · rintro (hp | ha)
    · exact ((h.cover a).mp hp).imp .inl id
    · exact .inl (.inr ha)
  · rintro ((hf | ha) | hx)
    · exact .inl ((h.cover a).mpr (.inl hf))
    · exact .inr ha
    · exact .inl ((h.cover a).mpr (.inr hx))

/-- What was set aside gets owners, one each; the other owners are the same. -/
theorem Exclusive.gain (h : Exclusive pool free own) (hS : ∀ a ∈ S, a ∉ pool)
    (hkeep : ∀ x a, own x = some a → own' x = some a)
    (hnew : ∀ x a, own' x = some a → own x = some a ∨ a ∈ S)
    (hinj : ∀ x y, ∀ a ∈ S, own' x = some a → own' y = some a → x = y)
    (hall : ∀ a ∈ S, ∃ x, own' x = some a) : Exclusive (pool ∪ S) free own' := by
  have hpool : ∀ a ∈ free, a ∈ pool := fun a hf => (h.cover a).mpr (.inl hf)
  refine ⟨fun x y a hx hy => ?_, fun x a hx hf => ?_, fun a => ?_⟩
  · by_cases ha : a ∈ S
    · exact hinj x y a ha hx hy
    · exact h.inj x y a ((hnew x a hx).resolve_right ha) ((hnew y a hy).resolve_right ha)
  · exact h.apart x a ((hnew x a hx).resolve_right fun ha => hS a ha (hpool a hf)) hf
  · constructor
    · rintro (hp | ha)
      · exact ((h.cover a).mp hp).imp id fun ⟨x, hx⟩ => ⟨x, hkeep x a hx⟩
      · exact .inr (hall a ha)
    · rintro (hf | ⟨x, hx⟩)
      · exact .inl (hpool a hf)
      · exact (hnew x a hx).imp (fun hx => (h.cover a).mpr (.inr ⟨x, hx⟩)) id

/-- The things in `S` lose their owners and are set aside. -/
theorem Exclusive.lose (h : Exclusive pool free own) (hkeep : ∀ x a, own' x = some a → own x = some a)
    (hS : ∀ a, a ∈ S ↔ ∃ x, own x = some a ∧ own' x ≠ some a) : Exclusive (pool \ S) free own' := by
  have hheld : ∀ x a, own' x = some a → a ∉ S := by
    intro x a hx ha
    obtain ⟨y, hy, hno⟩ := (hS a).mp ha
    rw [h.inj y x a hy (hkeep x a hx)] at hno
    exact hno hx
  refine ⟨fun x y a hx hy => h.inj x y a (hkeep x a hx) (hkeep y a hy),
    fun x a hx => h.apart x a (hkeep x a hx), fun a => ?_⟩
  constructor
  · rintro ⟨hp, ha⟩
    rcases (h.cover a).mp hp with hf | ⟨x, hx⟩
    · exact .inl hf
    · by_cases hx' : own' x = some a
      · exact .inr ⟨x, hx'⟩
      · exact absurd ((hS a).mpr ⟨x, hx, hx'⟩) ha
  · rintro (hf | ⟨x, hx⟩)
    · refine ⟨(h.cover a).mpr (.inl hf), fun ha => ?_⟩
      obtain ⟨y, hy, -⟩ := (hS a).mp ha
      exact h.apart y a hy hf
    · exact ⟨(h.cover a).mpr (.inr ⟨x, hkeep x a hx⟩), hheld x a hx⟩

/-- The things in `S` were free; each has one owner now, and no other owner is new. -/
theorem Exclusive.take (h : Exclusive pool free own) (hS : S ⊆ free)
    (hkeep : ∀ x a, own x = some a → own' x = some a)
    (hnew : ∀ x a, own' x = some a → own x = some a ∨ a ∈ S)
    (hinj : ∀ x y, ∀ a ∈ S, own' x = some a → own' y = some a → x = y)
    (hall : ∀ a ∈ S, ∃ x, own' x = some a) : Exclusive pool (free \ S) own' := by
  have hpool : pool \ S ∪ S = pool :=
    Set.sdiff_union_of_subset fun a ha => (h.cover a).mpr (.inl (hS ha))
  rw [← hpool]
  exact (h.reserve hS).gain (fun a ha hp => hp.2 ha) hkeep hnew hinj hall

/-- What is free is what nobody holds. -/
theorem Exclusive.free_eq (h : Exclusive pool free own) : free = {a | a ∈ pool ∧ ∀ x, own x ≠ some a} := by
  ext a
  constructor
  · exact fun hf => ⟨(h.cover a).mpr (.inl hf), fun x hx => h.apart x a hx hf⟩
  · rintro ⟨hp, hno⟩
    exact ((h.cover a).mp hp).resolve_right fun ⟨x, hx⟩ => hno x hx

/-! ## Groups of owners -/

section Groups

variable {ι : Type} {own own' : ι × ω → Option α} {i : ι}

/-- What is free or in the hands of the group `i`. -/
def Reach (free : Set α) (own : ι × ω → Option α) (i : ι) : Set α := {a | a ∈ free ∨ ∃ x, own (i, x) = some a}

/-- The group `i` alone. -/
theorem Exclusive.group (h : Exclusive pool free own) (i : ι) :
    Exclusive (Reach free own i) free fun x => own (i, x) :=
  ⟨fun x y a hx hy => (Prod.mk.inj (h.inj (i, x) (i, y) a hx hy)).2, fun x => h.apart (i, x), fun _ => Iff.rfl⟩

theorem Exclusive.reach_subset (h : Exclusive pool free own) (i : ι) : Reach free own i ⊆ pool := by
  rintro a (hf | ⟨x, hx⟩)
  · exact (h.cover a).mpr (.inl hf)
  · exact (h.cover a).mpr (.inr ⟨(i, x), hx⟩)

theorem Exclusive.not_reach (h : Exclusive pool free own) {j : ι} {x : ω} {a : α} (hj : j ≠ i)
    (hx : own (j, x) = some a) : a ∉ Reach free own i := by
  rintro (hf | ⟨y, hy⟩)
  · exact h.apart (j, x) a hx hf
  · exact hj (Prod.mk.inj (h.inj (j, x) (i, y) a hx hy)).1

/-- The group `i` and the free things change among themselves. -/
theorem Exclusive.regroup (h : Exclusive pool free own)
    (hi : Exclusive (Reach free own i) free' fun x => own' (i, x))
    (hj : ∀ j, j ≠ i → ∀ x, own' (j, x) = own (j, x)) : Exclusive pool free' own' := by
  -- what the others hold is out of reach
  have hout : ∀ j x a, j ≠ i → own' (j, x) = some a → a ∉ Reach free own i := by
    intro j x a hji hx
    rw [hj j hji] at hx
    exact h.not_reach hji hx
  have hin : ∀ x a, own' (i, x) = some a → a ∈ Reach free own i := fun x a hx => (hi.cover a).mpr (.inr ⟨x, hx⟩)
  refine ⟨?_, ?_, fun a => ?_⟩
  · rintro ⟨j, x⟩ ⟨l, y⟩ a hx hy
    by_cases hji : j = i <;> by_cases hli : l = i
    · subst hji hli
      rw [hi.inj x y a hx hy]
    · subst hji
      exact absurd (hin x a hx) (hout l y a hli hy)
    · subst hli
      exact absurd (hin y a hy) (hout j x a hji hx)
    · rw [hj j hji] at hx
      rw [hj l hli] at hy
      exact h.inj (j, x) (l, y) a hx hy
  · rintro ⟨j, x⟩ a hx hf
    by_cases hji : j = i
    · subst hji
      exact hi.apart x a hx hf
    · exact hout j x a hji hx ((hi.cover a).mpr (.inl hf))
  · rw [h.cover a]
    constructor
    · rintro (hf | ⟨⟨j, x⟩, hx⟩)
      · exact ((hi.cover a).mp (.inl hf)).imp id fun ⟨y, hy⟩ => ⟨(i, y), hy⟩
      · by_cases hji : j = i
        · subst hji
          exact ((hi.cover a).mp (.inr ⟨x, hx⟩)).imp id fun ⟨y, hy⟩ => ⟨(j, y), hy⟩
        · exact .inr ⟨(j, x), by rw [hj j hji]; exact hx⟩
    · rintro (hf | ⟨⟨j, x⟩, hx⟩)
      · exact ((hi.cover a).mpr (.inl hf)).imp id fun ⟨y, hy⟩ => ⟨(i, y), hy⟩
      · by_cases hji : j = i
        · subst hji
          exact (hin x a hx).imp id fun ⟨y, hy⟩ => ⟨(j, y), hy⟩
        · exact .inr ⟨(j, x), by rw [← hj j hji]; exact hx⟩

end Groups

end Armonios
