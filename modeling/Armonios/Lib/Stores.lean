import Mathlib.Data.List.Induction
import Mathlib.Logic.Function.Basic

/-!
# Stores to a memory

A program that only writes is the list of its stores, an address with a value each. If the values of the stores are a
function of the address, the memory afterwards has that value where there is a store (`store_apply`).
-/

namespace Armonios

variable {ι κ : Type} [DecidableEq ι] {l : List (ι × κ)} {m : ι → κ} {f : ι → κ} {i : ι}

def store (l : List (ι × κ)) (m : ι → κ) : ι → κ := l.foldl (fun m a => Function.update m a.1 a.2) m

theorem store_apply (hvalue : ∀ a ∈ l, a.2 = f a.1) (m : ι → κ) (i : ι) :
    store l m i = if i ∈ l.map Prod.fst then f i else m i := by
  induction l using List.reverseRecOn with
  | nil => simp [store]
  | append_singleton l a ih =>
    obtain ⟨hl, ha⟩ := List.forall_mem_append.mp hvalue
    have hlast : store (l ++ [a]) m = Function.update (store l m) a.1 a.2 := by simp [store]
    rw [hlast]
    by_cases hi : i = a.1
    · rw [hi, Function.update_self, if_pos (by simp), ha a (by simp)]
    · rw [Function.update_of_ne hi, ih hl]
      congr 1
      rw [List.map_append, List.mem_append, List.map_singleton, List.mem_singleton, eq_false hi, or_false]

theorem store_mem {P : Prop} [Decidable P] (f : ι → κ) (hmem : (∃ v, (i, v) ∈ l) ↔ P) (hvalue : ∀ a ∈ l, a.2 = f a.1)
    (m : ι → κ) : store l m i = if P then f i else m i := by
  rw [store_apply hvalue]
  congr 1
  rw [List.mem_map, eq_iff_iff, ← hmem]
  constructor
  · rintro ⟨⟨j, v⟩, ha, rfl⟩
    exact ⟨v, ha⟩
  · rintro ⟨v, ha⟩
    exact ⟨(i, v), ha, rfl⟩

end Armonios
