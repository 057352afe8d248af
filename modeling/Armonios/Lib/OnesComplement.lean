import Mathlib.Algebra.Ring.Nat
import Mathlib.Algebra.BigOperators.Group.List.Basic
import Mathlib.Tactic.Common

/-!
# One's complement sums

The sum of numbers up to `m` with an end-around carry: what goes beyond `m` is added again. With `m = 2 ^ w - 1` these are
the words of `w` bits.

* `onesSum_eq`: the sum is the residue of the sum of the numbers, with `m` for the multiples other than zero;
* `onesSum_complement`: with its complement it is `m`;
* `residue_carry`: adding the carries of a longer word to it does not change its residue.
-/

namespace Armonios

variable {m a b n : Nat}

/-- The sum with the carry added again. -/
def onesAdd (m a b : Nat) : Nat := if a + b ≤ m then a + b else a + b - m

def onesSum (m : Nat) (words : List Nat) : Nat := words.foldl (onesAdd m) 0

/-- The residue modulo `m`, from 1 to `m` where the number is not zero. -/
def residue (m n : Nat) : Nat := if n = 0 then 0 else (n - 1) % m + 1

theorem residue_le (hm : 0 < m) (n : Nat) : residue m n ≤ m := by
  have := Nat.mod_lt (n - 1) hm
  unfold residue
  split <;> omega

/-- A number up to `m` is its own residue. -/
theorem residue_of_le (h : n ≤ m) : residue m n = n := by
  unfold residue
  split
  · omega
  · rw [Nat.mod_eq_of_lt (by omega)]
    omega

theorem residue_add_self (h : 0 < n) : residue m (n + m) = residue m n := by
  unfold residue
  rw [if_neg (by omega), if_neg (by omega), show n + m - 1 = n - 1 + m by omega, Nat.add_mod_right]

theorem residue_add_mul (h : 0 < n) (k : Nat) : residue m (n + k * m) = residue m n := by
  induction k with
  | zero => rw [Nat.zero_mul, Nat.add_zero]
  | succ k ih => rw [Nat.succ_mul, ← Nat.add_assoc, residue_add_self (by omega), ih]

/-- A number is its residue and a multiple of `m`. -/
theorem residue_spec (m n : Nat) : ∃ k, n = residue m n + k * m ∧ (residue m n = 0 ↔ n = 0) := by
  unfold residue
  split
  · exact ⟨0, by omega, by omega⟩
  · refine ⟨(n - 1) / m, ?_, by omega⟩
    have := Nat.mod_add_div (n - 1) m
    rw [Nat.mul_comm] at this
    omega

theorem onesAdd_residue (hm : 0 < m) (hb : b ≤ m) (n : Nat) : onesAdd m (residue m n) b = residue m (n + b) := by
  obtain ⟨k, hn, hzero⟩ := residue_spec m n
  by_cases h0 : n = 0
  · subst h0
    rw [Nat.zero_add, residue_of_le hb, residue, if_pos rfl, onesAdd, Nat.zero_add, if_pos hb]
  have hpos : 0 < residue m n := Nat.pos_of_ne_zero fun h => h0 (hzero.mp h)
  have hle := residue_le hm n
  generalize hr : residue m n = r at hn hpos hle
  have hsum : n + b = r + b + k * m := by omega
  rw [hsum, residue_add_mul (by omega)]
  unfold onesAdd
  split
  · rename_i hfits
    rw [residue_of_le hfits]
  · rename_i hcarry
    obtain ⟨rest, hrest⟩ := Nat.exists_eq_add_of_le (Nat.le_of_not_le hcarry)
    rw [hrest, Nat.add_sub_cancel_left, Nat.add_comm, residue_add_self (by omega), residue_of_le (by omega)]

theorem onesSum_eq (hm : 0 < m) {words : List Nat} (hwords : ∀ w ∈ words, w ≤ m) :
    onesSum m words = residue m words.sum := by
  have hfold : ∀ n, words.foldl (onesAdd m) (residue m n) = residue m (n + words.sum) := by
    induction words with
    | nil => exact fun n => rfl
    | cons w words ih =>
      intro n
      obtain ⟨hw, hrest⟩ := List.forall_mem_cons.mp hwords
      rw [List.foldl_cons, onesAdd_residue hm hw, ih hrest, List.sum_cons, Nat.add_assoc]
  have hstart := hfold 0
  rwa [Nat.zero_add, show residue m 0 = 0 from if_pos rfl] at hstart

/-- Where the complement of the sum of the others is one of the words, the sum is `m`. -/
theorem onesSum_complement (hm : 0 < m) {words words' : List Nat} (hwords : ∀ w ∈ words, w ≤ m)
    (hwords' : ∀ w ∈ words', w ≤ m) : onesSum m (words ++ (m - onesSum m (words ++ words')) :: words') = m := by
  have hall : ∀ w ∈ words ++ words', w ≤ m := List.forall_mem_append.mpr ⟨hwords, hwords'⟩
  have hmore : ∀ w ∈ words ++ (m - onesSum m (words ++ words')) :: words', w ≤ m :=
    List.forall_mem_append.mpr ⟨hwords, List.forall_mem_cons.mpr ⟨Nat.sub_le .., hwords'⟩⟩
  rw [onesSum_eq hm hmore, List.sum_append, List.sum_cons, onesSum_eq hm hall, List.sum_append]
  rw [Nat.add_comm _ words'.sum, ← Nat.add_assoc, ← onesAdd_residue hm (Nat.sub_le ..)]
  have hle := residue_le hm (words.sum + words'.sum)
  rw [onesAdd, Nat.add_sub_cancel' hle, if_pos (Nat.le_refl m)]

/-- A zero does not count. -/
theorem onesSum_zero (hm : 0 < m) {words words' : List Nat} (hwords : ∀ w ∈ words, w ≤ m)
    (hwords' : ∀ w ∈ words', w ≤ m) :
    onesSum m (words ++ 0 :: words') = onesSum m (words ++ words') := by
  rw [onesSum_eq hm (List.forall_mem_append.mpr ⟨hwords, List.forall_mem_cons.mpr ⟨Nat.zero_le m, hwords'⟩⟩),
    onesSum_eq hm (List.forall_mem_append.mpr ⟨hwords, hwords'⟩), List.sum_append, List.sum_cons, Nat.zero_add,
    List.sum_append]

theorem residue_carry (m n : Nat) : residue m (n % (m + 1) + n / (m + 1)) = residue m n := by
  have hsplit := Nat.mod_add_div n (m + 1)
  by_cases h0 : n % (m + 1) + n / (m + 1) = 0
  · have hn : n = 0 := by
      rw [Nat.add_eq_zero_iff] at h0
      rw [h0.1, h0.2] at hsplit
      simpa using hsplit.symm
    rw [h0, hn]
  · have hmore : n = n % (m + 1) + n / (m + 1) + n / (m + 1) * m := by
      rw [Nat.add_mul, Nat.one_mul, Nat.mul_comm] at hsplit
      omega
    conv_rhs => rw [hmore]
    exact (residue_add_mul (Nat.pos_of_ne_zero h0) _).symm

end Armonios
