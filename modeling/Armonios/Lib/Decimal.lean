import Mathlib.Algebra.Ring.Nat
import Mathlib.Data.List.Induction
import Mathlib.Tactic.Common

/-!
# Decimal numbers

The decimal representation of a number in ASCII (`decimal`, `decimalInt`), and what a string of digits denotes
(`decimalValue`, `intValue`).

* `decimal_of_lt`, `decimal_of_le`: the representation from its last digit on;
* `decimalValue_decimal`, `intValue_decimalInt`: reading it gives the number back;
* `length_decimal_le`: its length.
-/

namespace Armonios

variable {n k : Nat} {c : UInt8} {s : List UInt8}

/-! ## Digits -/

def IsDigit (c : UInt8) : Prop := 48 ≤ c ∧ c ≤ 57

instance (c : UInt8) : Decidable (IsDigit c) := by unfold IsDigit; infer_instance

def digitValue (c : UInt8) : Nat := c.toNat - 48

def digitByte (d : Nat) : UInt8 := UInt8.ofNat (48 + d)

theorem IsDigit.toNat (h : IsDigit c) : 48 ≤ c.toNat ∧ c.toNat ≤ 57 :=
  ⟨UInt8.le_iff_toNat_le.mp h.1, UInt8.le_iff_toNat_le.mp h.2⟩

theorem digitByte_toNat (hn : n < 10) : (digitByte n).toNat = 48 + n := by
  rw [digitByte, UInt8.toNat_ofNat']
  omega

theorem isDigit_digitByte (hn : n < 10) : IsDigit (digitByte n) := by
  unfold IsDigit
  rw [UInt8.le_iff_toNat_le, UInt8.le_iff_toNat_le, digitByte_toNat hn]
  exact ⟨Nat.le_add_right 48 n, by simpa using Nat.add_le_add_left (Nat.le_of_lt_succ hn) 48⟩

theorem digitValue_digitByte (hn : n < 10) : digitValue (digitByte n) = n := by
  rw [digitValue, digitByte_toNat hn, Nat.add_sub_cancel_left]

/-! ## The value of a string -/

def decimalValue (s : List UInt8) : Nat := s.foldl (fun value c => value * 10 + digitValue c) 0

@[simp] theorem decimalValue_nil : decimalValue [] = 0 := rfl

@[simp] theorem decimalValue_append_singleton (s : List UInt8) (c : UInt8) :
    decimalValue (s ++ [c]) = decimalValue s * 10 + digitValue c := by
  simp [decimalValue]

/-- With a sign, if there is one. -/
def intValue (s : List UInt8) : Int := if s.head? = some 45 then -decimalValue s.tail else decimalValue s

/-! ## The representation of a number -/

def decimal (n : Nat) : List UInt8 := (Nat.toDigits 10 n).map Char.toUInt8

def decimalInt (n : Int) : List UInt8 := if n < 0 then 45 :: decimal n.natAbs else decimal n.natAbs

theorem digitChar_toUInt8 (hn : n < 10) : (Nat.digitChar n).toUInt8 = digitByte n := by
  revert n
  decide

theorem decimal_of_lt (hn : n < 10) : decimal n = [digitByte n] := by
  rw [decimal, Nat.toDigits_of_lt_base hn, List.map_singleton, digitChar_toUInt8 hn]

theorem decimal_of_le (hn : 10 ≤ n) : decimal n = decimal (n / 10) ++ [digitByte (n % 10)] := by
  rw [decimal, Nat.toDigits_of_base_le (by decide) hn, List.map_append, List.map_singleton,
    digitChar_toUInt8 (Nat.mod_lt n (by decide))]
  rfl

theorem decimal_digits (n : Nat) : ∀ c ∈ decimal n, IsDigit c := by
  induction n using Nat.strong_induction_on with
  | _ n ih =>
    by_cases hn : n < 10
    · rw [decimal_of_lt hn]
      simpa using isDigit_digitByte hn
    · rw [decimal_of_le (Nat.le_of_not_lt hn)]
      refine List.forall_mem_append.mpr ⟨ih (n / 10) (by omega), ?_⟩
      simpa using isDigit_digitByte (Nat.mod_lt n (by decide))

theorem decimalValue_decimal (n : Nat) : decimalValue (decimal n) = n := by
  induction n using Nat.strong_induction_on with
  | _ n ih =>
    by_cases hn : n < 10
    · rw [decimal_of_lt hn, ← List.nil_append [digitByte n], decimalValue_append_singleton, decimalValue_nil,
        digitValue_digitByte hn, Nat.zero_mul, Nat.zero_add]
    · rw [decimal_of_le (Nat.le_of_not_lt hn), decimalValue_append_singleton, ih (n / 10) (by omega),
        digitValue_digitByte (Nat.mod_lt n (by decide)), Nat.mul_comm, Nat.div_add_mod]

theorem decimal_ne_nil (n : Nat) : decimal n ≠ [] := by
  by_cases hn : n < 10
  · simp [decimal_of_lt hn]
  · simp [decimal_of_le (Nat.le_of_not_lt hn)]

/-- There is no leading zero. -/
theorem decimal_head (hn : n ≠ 0) : (decimal n).head? ≠ some 48 := by
  induction n using Nat.strong_induction_on with
  | _ n ih =>
    by_cases hlt : n < 10
    · rw [decimal_of_lt hlt]
      intro h
      have hbyte := congrArg UInt8.toNat (Option.some.inj h)
      rw [digitByte_toNat hlt] at hbyte
      exact hn (by simpa using hbyte)
    · have hhead := ih (n / 10) (by omega) (by omega)
      obtain ⟨c, s, hc⟩ := List.exists_cons_of_ne_nil (decimal_ne_nil (n / 10))
      rw [decimal_of_le (Nat.le_of_not_lt hlt), hc]
      rwa [hc] at hhead

theorem decimalInt_head {n : Int} (hn : n ≠ 0) : (decimalInt n).head? ≠ some 48 := by
  unfold decimalInt
  split
  · simp
  · exact decimal_head (Int.natAbs_ne_zero.mpr hn)

theorem length_decimal_le (hk : 0 < k) (hn : n < 10 ^ k) : (decimal n).length ≤ k := by
  induction k generalizing n with
  | zero => omega
  | succ k ih =>
    by_cases hlt : n < 10
    · rw [decimal_of_lt hlt]
      exact Nat.succ_le_succ (Nat.zero_le k)
    · rw [decimal_of_le (Nat.le_of_not_lt hlt), List.length_append, List.length_singleton]
      cases k with
      | zero => omega
      | succ k =>
        refine Nat.succ_le_succ (ih (Nat.succ_pos k) ?_)
        rw [Nat.pow_succ] at hn
        exact Nat.div_lt_of_lt_mul (by rwa [Nat.mul_comm])

theorem intValue_decimalInt (n : Int) : intValue (decimalInt n) = n := by
  unfold intValue decimalInt
  split
  · rw [List.head?_cons, if_pos rfl, List.tail_cons, decimalValue_decimal]
    omega
  · rw [if_neg, decimalValue_decimal]
    · omega
    · intro h
      have hdigit := decimal_digits n.natAbs 45 (List.mem_of_head? h)
      exact absurd hdigit (by decide)

end Armonios
