import Mathlib.Dynamics.PeriodicPts.Defs
import Mathlib.Order.Preorder.Finite
import Mathlib.Data.Set.Finite.Lattice

/-!
# Orbits

The points that a function visits from one start. If there are finitely many of them, what holds again and again holds at
a point on a cycle (`recurs_iff`).
-/

namespace Armonios

variable {α : Type} {f : α → α} {a : α} {P : α → Prop}

/-- What holds of a point on a cycle comes back. -/
theorem recurs_of_periodic {k : Nat} (hp : P (f^[k] a)) (hcycle : f^[k] a ∈ Function.periodicPts f) (m : Nat) :
    ∃ j, m ≤ j ∧ P (f^[j] a) := by
  obtain ⟨n, hn, hper⟩ := hcycle
  refine ⟨n * m + k, ?_, ?_⟩
  · have := Nat.le_mul_of_pos_left m hn
    omega
  · rw [Function.iterate_add_apply, (hper.mul_const m).eq]
    exact hp

theorem recurs_iff (hfin : (Set.range fun k => f^[k] a).Finite) :
    (∀ m, ∃ k, m ≤ k ∧ P (f^[k] a)) ↔ ∃ k, P (f^[k] a) ∧ f^[k] a ∈ Function.periodicPts f := by
  constructor
  · intro h
    -- two of the many visits are at one point
    have hinf : {k | P (f^[k] a)}.Infinite := by
      refine Set.infinite_of_not_bddAbove ?_
      rintro ⟨m, hm⟩
      obtain ⟨k, hle, hk⟩ := h (m + 1)
      have := hm hk
      omega
    have hmaps : Set.MapsTo (fun k => f^[k] a) {k | P (f^[k] a)} (Set.range fun k => f^[k] a) :=
      fun k _ => Set.mem_range_self k
    obtain ⟨i, hi, j, -, hij, heq⟩ := hinf.exists_lt_map_eq_of_mapsTo hmaps hfin
    refine ⟨i, hi, j - i, Nat.sub_pos_of_lt hij, ?_⟩
    show f^[j - i] (f^[i] a) = f^[i] a
    rw [← Function.iterate_add_apply, Nat.sub_add_cancel (Nat.le_of_lt hij)]
    exact heq.symm
  · rintro ⟨k, hp, hcycle⟩ m
    exact recurs_of_periodic hp hcycle m

end Armonios
