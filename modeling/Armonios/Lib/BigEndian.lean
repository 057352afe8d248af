import Mathlib.Algebra.Ring.Nat
import Mathlib.Tactic.Common

/-!
# Big-endian numbers

* `beNumber`: the number of a list of bytes, the most significant first;
* `be32_toNat`, `shiftIn_toNat`: the shifts with which code puts it together.
-/

namespace Armonios

def beNumber (bytes : List UInt8) : Nat := bytes.foldl (fun number b => number * 256 + b.toNat) 0

theorem foldl_beNumber (bytes : List UInt8) (number : Nat) :
    bytes.foldl (fun number b => number * 256 + b.toNat) number = number * 256 ^ bytes.length + beNumber bytes := by
  induction bytes generalizing number with
  | nil => simp [beNumber]
  | cons b bytes ih =>
    have hrest : beNumber (b :: bytes) = b.toNat * 256 ^ bytes.length + beNumber bytes := by
      simp only [beNumber, List.foldl_cons, Nat.zero_mul, Nat.zero_add]
      exact ih b.toNat
    rw [List.foldl_cons, ih, hrest, List.length_cons, Nat.pow_succ, Nat.add_mul, Nat.add_assoc, Nat.mul_assoc,
      Nat.mul_comm 256]

theorem beNumber_append (front back : List UInt8) :
    beNumber (front ++ back) = beNumber front * 256 ^ back.length + beNumber back := by
  unfold beNumber
  rw [List.foldl_append]
  exact foldl_beNumber back _

/-- Bits shifted in from the right. -/
theorem mul_or {n k m : Nat} (h : m < 2 ^ k) : n * 2 ^ k ||| m = n * 2 ^ k + m := by
  rw [← Nat.shiftLeft_eq, ← Nat.shiftLeft_add_eq_or_of_lt h]

theorem byte_shiftLeft_toNat (b : UInt8) {k : UInt32} (hk : k.toNat ≤ 24) :
    (b.toUInt32 <<< k).toNat = b.toNat * 2 ^ k.toNat := by
  have hb := b.toNat_lt
  have hlt : b.toNat * 2 ^ k.toNat < 2 ^ 32 := by
    calc b.toNat * 2 ^ k.toNat ≤ 255 * 2 ^ 24 := Nat.mul_le_mul (by omega) (Nat.pow_le_pow_right (by omega) hk)
      _ < 2 ^ 32 := by decide
  rw [UInt32.toNat_shiftLeft, UInt8.toNat_toUInt32, Nat.mod_eq_of_lt (show k.toNat < 32 by omega), Nat.shiftLeft_eq,
    Nat.mod_eq_of_lt hlt]

theorem be32_toNat (b0 b1 b2 b3 : UInt8) :
    (b0.toUInt32 <<< 24 ||| b1.toUInt32 <<< 16 ||| b2.toUInt32 <<< 8 ||| b3.toUInt32).toNat =
      beNumber [b0, b1, b2, b3] := by
  have h0 := b0.toNat_lt
  have h1 := b1.toNat_lt
  have h2 := b2.toNat_lt
  have h3 := b3.toNat_lt
  have hs0 : (b0.toUInt32 <<< 24).toNat = b0.toNat * 2 ^ 24 := byte_shiftLeft_toNat b0 (by decide)
  have hs1 : (b1.toUInt32 <<< 16).toNat = b1.toNat * 2 ^ 16 := byte_shiftLeft_toNat b1 (by decide)
  have hs2 : (b2.toUInt32 <<< 8).toNat = b2.toNat * 2 ^ 8 := byte_shiftLeft_toNat b2 (by decide)
  have hor01 : b0.toNat * 2 ^ 24 ||| b1.toNat * 2 ^ 16 = (b0.toNat * 2 ^ 8 + b1.toNat) * 2 ^ 16 := by
    rw [mul_or (by omega)]
    omega
  have hor2 : (b0.toNat * 2 ^ 8 + b1.toNat) * 2 ^ 16 ||| b2.toNat * 2 ^ 8 =
      ((b0.toNat * 2 ^ 8 + b1.toNat) * 2 ^ 8 + b2.toNat) * 2 ^ 8 := by
    rw [mul_or (by omega)]
    omega
  rw [UInt32.toNat_or, UInt32.toNat_or, UInt32.toNat_or, hs0, hs1, hs2, UInt8.toNat_toUInt32, hor01, hor2, mul_or h3]
  simp only [beNumber, List.foldl_cons, List.foldl_nil]
  omega

/-- A word shifted into a number of 64 bits. -/
theorem shiftIn (value : UInt64) (word : UInt32) :
    value <<< 32 ||| word.toUInt64 = UInt64.ofNat (value.toNat * 2 ^ 32 + word.toNat) := by
  have hword := word.toNat_lt
  have hmod : value.toNat * 2 ^ 32 % 2 ^ 64 = value.toNat % 2 ^ 32 * 2 ^ 32 := by omega
  apply UInt64.toNat_inj.mp
  rw [UInt64.toNat_or, UInt64.toNat_shiftLeft, UInt32.toNat_toUInt64, UInt64.toNat_ofNat']
  have hshift : value.toNat <<< ((32 : UInt64).toNat % 64) % 2 ^ 64 = value.toNat % 2 ^ 32 * 2 ^ 32 := by
    rw [← hmod, ← Nat.shiftLeft_eq]
    rfl
  rw [hshift, mul_or hword]
  omega

end Armonios
