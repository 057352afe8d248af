import Mathlib

/-!
# Rings that keep the end of a log

Two parties share `n` slots and count the entries for ever: the entry `k` of the log is in the slot `k % n`, and is
overwritten by the entry `k + n`. `HoldsLog` says that the slots still have the log from an entry on.

* `HoldsLog.write`, `HoldsLog.append`, `HoldsLog.push`: one more entry keeps the others, if the first one of them is less
  than `n` entries old.

The parties see their counters as words, which wrap: `counter_eq_iff`, `counter_mod`.
-/

namespace Armonios

section Log

variable {α : Type} {n first : Nat} {slots : Nat → α} {log : List α} {a : α}

def HoldsLog (n : Nat) (slots : Nat → α) (log : List α) (first : Nat) : Prop :=
  ∀ k a, first ≤ k → log[k]? = some a → slots (k % n) = a

theorem HoldsLog.mono (h : HoldsLog n slots log first) {later : Nat} (hle : first ≤ later) :
    HoldsLog n slots log later :=
  fun k a hk => h k a (hle.trans hk)

/-- Two of `n` entries in a row are in different slots. -/
theorem slot_ne {k m : Nat} (hlt : k < m) (hnear : m < k + n) : k % n ≠ m % n := by
  intro heq
  have hdvd : n ∣ m - k := (Nat.modEq_iff_dvd' hlt.le).mp heq
  have hle := Nat.le_of_dvd (by omega) hdvd
  omega

/-- The slot of the next entry is written before the entry counts. -/
theorem HoldsLog.write (h : HoldsLog n slots log first) (hroom : log.length < first + n) (a : α) :
    HoldsLog n (Function.update slots (log.length % n) a) log first := by
  intro k b hk hb
  have hlt : k < log.length := (List.getElem?_eq_some_iff.mp hb).1
  rw [Function.update_of_ne (slot_ne hlt (by omega))]
  exact h k b hk hb

theorem HoldsLog.append (h : HoldsLog n slots log first) (hslot : slots (log.length % n) = a) :
    HoldsLog n slots (log ++ [a]) first := by
  intro k b hk hb
  rcases lt_or_ge k log.length with hlt | hge
  · rw [List.getElem?_append_left hlt] at hb
    exact h k b hk hb
  · have hlast : k = log.length := by
      have := (List.getElem?_eq_some_iff.mp hb).1
      rw [List.length_append, List.length_singleton] at this
      omega
    subst hlast
    rw [List.getElem?_concat_length] at hb
    rw [hslot]
    exact Option.some.inj hb

/-- One more entry. -/
theorem HoldsLog.push (h : HoldsLog n slots log first) (hroom : log.length < first + n) (a : α) :
    HoldsLog n (Function.update slots (log.length % n) a) (log ++ [a]) first :=
  (h.write hroom a).append (Function.update_self ..)

end Log

/-! ## Counters -/

section Counters

variable {w n k m : Nat}

theorem counter_succ (w k : Nat) : BitVec.ofNat w k + 1 = BitVec.ofNat w (k + 1) := by
  rw [BitVec.ofNat_add]
  rfl

/-- Counters that are near each other are equal if their words are. -/
theorem counter_eq_iff (hle : k ≤ m) (hnear : m < k + 2 ^ w) : BitVec.ofNat w k = BitVec.ofNat w m ↔ k = m := by
  constructor
  · intro h
    have hmod : k % 2 ^ w = m % 2 ^ w := by
      have := congrArg BitVec.toNat h
      rwa [BitVec.toNat_ofNat, BitVec.toNat_ofNat] at this
    by_contra hne
    exact slot_ne (by omega) hnear hmod
  · rintro rfl
    rfl

/-- The slot of a counter, where a lap of the word is a number of laps of the ring. -/
theorem counter_mod (h : n ∣ 2 ^ w) (k : Nat) : (BitVec.ofNat w k).toNat % n = k % n := by
  rw [BitVec.toNat_ofNat, Nat.mod_mod_of_dvd _ h]

end Counters

end Armonios
