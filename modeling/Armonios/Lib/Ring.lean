import Mathlib

/-!
# Rings

A queue in `n` places of an array with a head, a tail and a count. The array is a function of the place, and
`contents` is the list of the elements that wait, the oldest first.

* `push_some`, `push_none`: a push puts the element at the end, if there is a place left;
* `pop_some`, `pop_none`: a pop takes the first element, if there is one.
-/

namespace Armonios

structure Ring (α : Type) where
  slots : Nat → α
  head : Nat
  tail : Nat
  count : Nat

namespace Ring

variable {α : Type} {n : Nat} {ring ring' : Ring α} {a : α}

/-- `none` for a full ring. -/
def push (n : Nat) (a : α) (ring : Ring α) : Option (Ring α) :=
  if n ≤ ring.count then none
  else some {
    ring with
    slots := Function.update ring.slots ring.tail a
    tail := (ring.tail + 1) % n
    count := ring.count + 1 }

/-- `none` for an empty ring. -/
def pop (n : Nat) (ring : Ring α) : Option (α × Ring α) :=
  if ring.count = 0 then none
  else some (ring.slots ring.head, { ring with head := (ring.head + 1) % n, count := ring.count - 1 })

def contents (n : Nat) (ring : Ring α) : List α := (List.range ring.count).map fun k => ring.slots ((ring.head + k) % n)

/-- The counters fit each other. -/
structure Ok (n : Nat) (ring : Ring α) : Prop where
  head : ring.head < n
  count : ring.count ≤ n
  tail : ring.tail = (ring.head + ring.count) % n

@[simp] theorem length_contents (n : Nat) (ring : Ring α) : (ring.contents n).length = ring.count := by
  simp [contents]

theorem push_none : ring.push n a = none ↔ n ≤ (ring.contents n).length := by
  simp [push]

theorem push_some (hok : ring.Ok n) (h : ring.push n a = some ring') :
    ring'.Ok n ∧ ring'.contents n = ring.contents n ++ [a] := by
  obtain ⟨hhead, hcount, htail⟩ := hok
  unfold push at h
  split at h
  · cases h
  · rename_i hroom
    cases h
    refine ⟨⟨hhead, by simp only; omega, ?_⟩, ?_⟩
    · simp only
      rw [htail, Nat.mod_add_mod, Nat.add_assoc]
    · -- the places of the others are not the tail
      have hothers : ∀ k < ring.count, (ring.head + k) % n ≠ ring.tail := by
        intro k hk heq
        have hmod : (ring.head + k) % n = (ring.head + ring.count) % n := heq.trans htail
        have hk' : k % n = ring.count % n := Nat.ModEq.add_left_cancel' ring.head hmod
        rw [Nat.mod_eq_of_lt (by omega), Nat.mod_eq_of_lt (by omega)] at hk'
        omega
      simp only [contents, List.range_succ, List.map_append, List.map_singleton, ← htail, Function.update_self]
      congr 1
      refine List.map_congr_left fun k hk => ?_
      exact Function.update_of_ne (hothers k (List.mem_range.mp hk)) ..

theorem pop_none : ring.pop n = none ↔ ring.contents n = [] := by
  rw [← List.length_eq_zero_iff, length_contents]
  simp [pop]

theorem pop_some (hok : ring.Ok n) (h : ring.pop n = some (a, ring')) :
    ring'.Ok n ∧ ring.contents n = a :: ring'.contents n := by
  obtain ⟨hhead, hcount, htail⟩ := hok
  unfold pop at h
  split at h
  · cases h
  · rename_i hne
    cases h
    obtain ⟨m, hm⟩ : ∃ m, ring.count = m + 1 := ⟨ring.count - 1, by omega⟩
    refine ⟨⟨Nat.mod_lt _ (by omega), by simp only; omega, ?_⟩, ?_⟩
    · simp only [hm, Nat.add_sub_cancel, Nat.mod_add_mod]
      rw [htail, hm]
      congr 1
      omega
    · simp only [contents, hm, List.range_succ_eq_map, List.map_cons, List.map_map, Nat.add_sub_cancel,
        Nat.add_zero, Nat.mod_eq_of_lt hhead]
      congr 1
      refine List.map_congr_left fun k _ => ?_
      simp only [Function.comp_apply, Nat.mod_add_mod]
      congr 2
      omega

end Ring

end Armonios
