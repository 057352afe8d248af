import Armonios.Lib.RingLog

/-!
# Rings with a lap bit

A ring whose reader has no counter of the writer: each slot has a bit, which is the parity of the lap in which it was
written (`lapBit`). A slot whose bit is that of the reader's lap has been written since the reader was there.

* `LapRing.ready_iff`: the bit tells if there is an entry to read;
* `LapRing.write`, `LapRing.push`: stores to the slot of the next entry, before and after its bit flips.

At most one lap of entries may wait.
-/

namespace Armonios

/-- The bit of a lap. The first lap has the bit that an empty ring does not have. -/
def lapParity (lap : Nat) : Bool := lap % 2 = 0

/-- The bit of the lap of an entry. -/
def lapBit (cap k : Nat) : Bool := lapParity (k / cap)

theorem lapParity_succ (lap : Nat) : lapParity (lap + 1) = !lapParity lap := by
  unfold lapParity
  by_cases h : lap % 2 = 0
  · have hodd : ¬ (lap + 1) % 2 = 0 := by omega
    simp [h, hodd]
  · have heven : (lap + 1) % 2 = 0 := by omega
    simp [h, heven]

section Lap

variable {α : Type} {bit : α → Bool} {cap first k : Nat} {slots : Nat → α} {log : List α} {a : α}

theorem lapBit_lap (hcap : 0 < cap) (k : Nat) : lapBit cap (k + cap) = !lapBit cap k := by
  unfold lapBit
  rw [Nat.add_div_right k hcap, lapParity_succ]

/-- The next entry is in the first slot of the next lap. -/
theorem succ_wraps (h : k % cap + 1 = cap) : (k + 1) % cap = 0 ∧ (k + 1) / cap = k / cap + 1 := by
  have hcap : 0 < cap := by omega
  have hk : k + 1 = cap * (k / cap + 1) := by
    rw [Nat.mul_add, Nat.mul_one]
    have := Nat.div_add_mod k cap
    omega
  rw [hk]
  exact ⟨Nat.mul_mod_right .., Nat.mul_div_cancel_left _ hcap⟩

/-- The next entry is in the next slot. -/
theorem succ_stays (hcap : 0 < cap) (h : k % cap + 1 ≠ cap) :
    (k + 1) % cap = k % cap + 1 ∧ (k + 1) / cap = k / cap := by
  have hlt : k % cap + 1 < cap := by
    have := Nat.mod_lt k hcap
    omega
  have hk : k + 1 = k % cap + 1 + cap * (k / cap) := by
    have := Nat.div_add_mod k cap
    omega
  rw [hk]
  constructor
  · rw [Nat.add_mul_mod_self_left, Nat.mod_eq_of_lt hlt]
  · rw [Nat.add_mul_div_left _ _ hcap, Nat.div_eq_of_lt hlt, Nat.zero_add]

/-- The last entry of a lap. -/
theorem lap_end {n : Nat} (hcap : 0 < cap) (hpos : 0 < n) (hmod : n % cap = 0) :
    n / cap = (n - 1) / cap + 1 ∧ lapBit cap n = !lapBit cap (n - 1) := by
  obtain ⟨k, rfl⟩ : ∃ k, n = k + 1 := ⟨n - 1, by omega⟩
  have hlast : k % cap + 1 = cap := by
    by_contra hne
    have hstay := (succ_stays hcap hne).1
    omega
  have hdiv := (succ_wraps hlast).2
  rw [Nat.add_sub_cancel]
  exact ⟨hdiv, by rw [lapBit, lapBit, hdiv, lapParity_succ]⟩

/-- The slots have the entries from `first` on, each with the bit of its lap, and the slots of the entries to come do
not have theirs. -/
structure LapRing (bit : α → Bool) (cap : Nat) (slots : Nat → α) (log : List α) (first : Nat) : Prop where
  held : HoldsLog cap slots log first
  bits : ∀ k a, log[k]? = some a → bit a = lapBit cap k
  fresh : ∀ k, log.length ≤ k → k < log.length + cap → bit (slots (k % cap)) = !lapBit cap k

theorem LapRing.empty (h : ∀ i, bit (slots i) = false) : LapRing bit cap slots [] 0 := by
  refine ⟨fun k a _ ha => by simp at ha, fun k a ha => by simp at ha, fun k _ hk => ?_⟩
  rw [List.length_nil, Nat.zero_add] at hk
  rw [h, lapBit, Nat.div_eq_of_lt hk]
  rfl

theorem LapRing.mono (h : LapRing bit cap slots log first) {later : Nat} (hle : first ≤ later) :
    LapRing bit cap slots log later :=
  ⟨h.held.mono hle, h.bits, h.fresh⟩

/-- Only the slots of the ring count. -/
theorem LapRing.congr (h : LapRing bit cap slots log first) (hcap : 0 < cap) {slots' : Nat → α}
    (hslots : ∀ i < cap, slots' i = slots i) : LapRing bit cap slots' log first := by
  have hmod : ∀ k, slots' (k % cap) = slots (k % cap) := fun k => hslots _ (Nat.mod_lt k hcap)
  exact ⟨fun k a hk ha => (hmod k).trans (h.held k a hk ha), h.bits, fun k hle hlt => by rw [hmod, h.fresh k hle hlt]⟩

/-- The reader sees its own lap exactly if an entry waits. -/
theorem LapRing.ready_iff (h : LapRing bit cap slots log first) (hcap : 0 < cap) (hle : first ≤ log.length) :
    bit (slots (first % cap)) = lapBit cap first ↔ first < log.length := by
  constructor
  · intro hbit
    by_contra hno
    have heq : first = log.length := by omega
    have hfresh := h.fresh first (by omega) (by omega)
    rw [hbit] at hfresh
    cases hb : lapBit cap first <;> rw [hb] at hfresh <;> cases hfresh
  · intro hlt
    have hget := List.getElem?_eq_getElem hlt
    rw [h.held first _ (Nat.le_refl _) hget]
    exact h.bits first _ hget

/-- What the reader reads. -/
theorem LapRing.read (h : LapRing bit cap slots log first) (hlt : first < log.length) :
    log[first]? = some (slots (first % cap)) := by
  have hget := List.getElem?_eq_getElem hlt
  rw [h.held first _ (Nat.le_refl _) hget]
  exact hget

/-- A store to the slot of the next entry that leaves its bit. -/
theorem LapRing.write (h : LapRing bit cap slots log first) (hroom : log.length < first + cap)
    (hbit : bit a = bit (slots (log.length % cap))) :
    LapRing bit cap (Function.update slots (log.length % cap) a) log first := by
  refine ⟨h.held.write hroom a, h.bits, fun k hle hlt => ?_⟩
  by_cases hk : k % cap = log.length % cap
  · rw [hk, Function.update_self, hbit, ← hk]
    exact h.fresh k hle hlt
  · rw [Function.update_of_ne hk]
    exact h.fresh k hle hlt

/-- The bit of the next entry flips. -/
theorem LapRing.push (h : LapRing bit cap slots log first) (hcap : 0 < cap) (hroom : log.length < first + cap)
    (hbit : bit a = lapBit cap log.length) :
    LapRing bit cap (Function.update slots (log.length % cap) a) (log ++ [a]) first := by
  refine ⟨h.held.push hroom a, fun k b hb => ?_, fun k hle hlt => ?_⟩
  · by_cases hlast : k < log.length
    · rw [List.getElem?_append_left hlast] at hb
      exact h.bits k b hb
    · have hk := (List.getElem?_eq_some_iff.mp hb).1
      rw [List.length_append, List.length_singleton] at hk
      obtain rfl : k = log.length := by omega
      rw [List.getElem?_concat_length] at hb
      cases hb
      exact hbit
  · rw [List.length_append, List.length_singleton] at hle hlt
    by_cases hk : k = log.length + cap
    · subst hk
      rw [Nat.add_mod_right, Function.update_self, hbit, lapBit_lap hcap, Bool.not_not]
    · rw [Function.update_of_ne (slot_ne (by omega) (by omega)).symm]
      exact h.fresh k (by omega) (by omega)

end Lap

end Armonios
