import Armonios.Lib.Decimal

/-!
# Numbers as text

`kli_utoa` and `kli_itoa` of `programs/libkarm/string.c`. A call returns a length, and writes its bytes from the start of
the buffer on, one after the other.

* `scratchDigits_reverse`: the digits in the scratch array;
* `kliUtoa_eq`, `kliItoa_eq`: what a call writes and returns.
-/

namespace Armonios

/-- `sizeof(tmp)`. -/
def scratchSize : Nat := 24

/-- The loop that fills the scratch array, with `room` places left. -/
def scratchDigits : (room : Nat) → (value : UInt64) → List UInt8
  | 0, _ => []
  | room + 1, value => if value = 0 then [] else (48 + (value % 10).toUInt8) :: scratchDigits room (value / 10)

def scratch (value : UInt64) : List UInt8 := if value = 0 then [48] else scratchDigits scratchSize value

/-- The loop that copies the last `i` digits of the scratch array behind the bytes in `buf`. -/
def copyDigits (tmp : List UInt8) (bufSize : Nat) : (i : Nat) → (buf : List UInt8) → List UInt8
  | 0, buf => buf
  | i + 1, buf => if buf.length + 1 < bufSize then copyDigits tmp bufSize i (buf ++ [tmp.getD i 0]) else buf

/-- The bytes that a call writes, and what it returns. -/
structure Formatted where
  bytes : List UInt8
  length : Nat

def kliUtoa (value : UInt64) (bufSize : Nat) : Formatted :=
  if bufSize = 0 then ⟨[], 0⟩
  else
    let tmp := scratch value
    let buf := copyDigits tmp bufSize tmp.length []
    ⟨buf ++ [0], buf.length⟩

def kliItoa (value : Int64) (bufSize : Nat) : Formatted :=
  if bufSize = 0 then ⟨[], 0⟩
  else
    let magnitude := if value < 0 then ~~~value.toUInt64 + 1 else value.toUInt64
    let sign := if value < 0 ∧ 0 + 1 < bufSize then [45] else []
    let digits := scratch magnitude
    let buf := copyDigits digits bufSize digits.length sign
    ⟨buf ++ [0], buf.length⟩

variable {value : UInt64} {bufSize : Nat} {tmp buf : List UInt8}

/-! ## The digits -/

theorem scratchDigit (value : UInt64) : 48 + (value % 10).toUInt8 = digitByte (value.toNat % 10) := by
  apply UInt8.toNat_inj.mp
  rw [digitByte_toNat (Nat.mod_lt _ (by decide)), UInt8.toNat_add, UInt64.toNat_toUInt8, UInt64.toNat_mod]
  show (48 + value.toNat % 10 % 256) % 256 = _
  omega

/-- The scratch array has the digits from the last one on. -/
theorem scratchDigits_reverse {room : Nat} (hne : value ≠ 0) (hroom : value.toNat < 10 ^ room) :
    (scratchDigits room value).reverse = decimal value.toNat := by
  induction room generalizing value with
  | zero =>
    have hzero : value.toNat = 0 := by simpa using hroom
    exact absurd (UInt64.toNat_inj.mp hzero) hne
  | succ room ih =>
    have hdiv : (value / 10).toNat = value.toNat / 10 := UInt64.toNat_div value 10
    rw [scratchDigits, if_neg hne, List.reverse_cons, scratchDigit]
    by_cases hlt : value.toNat < 10
    · have hlast : value / 10 = 0 := by
        apply UInt64.toNat_inj.mp
        rw [hdiv]
        exact Nat.div_eq_of_lt hlt
      have hnil : scratchDigits room (value / 10) = [] := by
        cases room with
        | zero => rfl
        | succ room => rw [scratchDigits, if_pos hlast]
      rw [hnil, decimal_of_lt hlt, Nat.mod_eq_of_lt hlt]
      rfl
    · have hne' : value / 10 ≠ 0 := by
        intro h
        have hzero := congrArg UInt64.toNat h
        rw [hdiv] at hzero
        have : value.toNat / 10 = 0 := hzero
        omega
      rw [Nat.pow_succ] at hroom
      rw [ih hne' (by rw [hdiv]; omega), hdiv, decimal_of_le (Nat.le_of_not_lt hlt)]

theorem scratch_reverse (value : UInt64) : (scratch value).reverse = decimal value.toNat := by
  unfold scratch
  split
  · rename_i hzero
    rw [hzero]
    rfl
  · rename_i hne
    exact scratchDigits_reverse hne (Nat.lt_trans value.toNat_lt (by decide))

/-- The copy goes on as long as there is room for the NUL behind it. -/
theorem copyDigits_eq {i : Nat} (hi : i ≤ tmp.length) :
    copyDigits tmp bufSize i buf = buf ++ (tmp.take i).reverse.take (bufSize - 1 - buf.length) := by
  induction i generalizing buf with
  | zero => simp [copyDigits]
  | succ i ih =>
    have hlast : (tmp.take (i + 1)).reverse = tmp.getD i 0 :: (tmp.take i).reverse := by
      rw [List.take_add_one, List.reverse_append, List.getD_eq_getElem?_getD, List.getElem?_eq_getElem hi]
      rfl
    rw [copyDigits, hlast]
    split
    · rename_i hroom
      obtain ⟨n, hn⟩ : ∃ n, bufSize - 1 - buf.length = n + 1 := ⟨bufSize - 1 - buf.length - 1, by omega⟩
      rw [ih (Nat.le_of_succ_le hi), hn, List.take_succ_cons, List.append_assoc, List.length_append,
        List.length_singleton,
        ← Nat.sub_sub, hn]
      rfl
    · rename_i hfull
      rw [show bufSize - 1 - buf.length = 0 by omega, List.take_zero, List.append_nil]

/-- Behind a sign or nothing. -/
theorem copyDigits_scratch (value : UInt64) (bufSize : Nat) (buf : List UInt8) :
    copyDigits (scratch value) bufSize (scratch value).length buf =
      buf ++ (decimal value.toNat).take (bufSize - 1 - buf.length) := by
  rw [copyDigits_eq (Nat.le_refl _), List.take_length, scratch_reverse]

/-! ## The calls -/

/-- The call writes as much of the text as fits, and a NUL. -/
structure Formats (text : List UInt8) (bufSize : Nat) (f : Formatted) : Prop where
  bytes : f.bytes = text.take (bufSize - 1) ++ [0]
  length : f.length = min (bufSize - 1) text.length
  fits : f.bytes.length ≤ bufSize

theorem formats_of {text : List UInt8} (hsize : 1 ≤ bufSize) (hbuf : buf = text.take (bufSize - 1)) :
    Formats text bufSize ⟨buf ++ [0], buf.length⟩ := by
  subst hbuf
  refine ⟨rfl, List.length_take .., ?_⟩
  rw [List.length_append, List.length_take, List.length_singleton]
  omega

theorem kliUtoa_formats (value : UInt64) (hsize : 1 ≤ bufSize) :
    Formats (decimal value.toNat) bufSize (kliUtoa value bufSize) := by
  unfold kliUtoa
  rw [if_neg (Nat.ne_of_gt hsize)]
  refine formats_of hsize ?_
  rw [copyDigits_scratch]
  rfl

/-- `~value + 1` is the magnitude of a negative number, the least one included. -/
theorem magnitude_toNat (value : Int64) :
    (if value < 0 then ~~~value.toUInt64 + 1 else value.toUInt64).toNat = value.toInt.natAbs := by
  have hlt := value.toUInt64.toNat_lt
  have hint : value.toInt = if 2 * value.toUInt64.toNat < 2 ^ 64 then (value.toUInt64.toNat : Int)
      else (value.toUInt64.toNat : Int) - (2 ^ 64 : Nat) := BitVec.toInt_eq_toNat_cond value.toBitVec
  have hnot : (~~~value.toUInt64 + 1).toNat = (2 ^ 64 - 1 - value.toUInt64.toNat + 1) % 2 ^ 64 := by
    rw [UInt64.toNat_add, UInt64.toNat_not]
    rfl
  have hneg : value < 0 ↔ value.toInt < 0 := Int64.lt_iff_toInt_lt
  rw [apply_ite UInt64.toNat, hnot]
  simp only [hneg]
  split at hint <;> split <;> omega

theorem kliItoa_formats (value : Int64) (hsize : 1 ≤ bufSize) :
    Formats (decimalInt value.toInt) bufSize (kliItoa value bufSize) := by
  unfold kliItoa
  rw [if_neg (Nat.ne_of_gt hsize)]
  refine formats_of hsize ?_
  rw [copyDigits_scratch, magnitude_toNat, decimalInt]
  by_cases hneg : value < 0
  · have hint : value.toInt < 0 := Int64.lt_iff_toInt_lt.mp hneg
    rw [if_pos hint]
    by_cases hroom : 0 + 1 < bufSize
    · obtain ⟨n, rfl⟩ : ∃ n, bufSize = n + 2 := ⟨bufSize - 2, by omega⟩
      rw [if_pos ⟨hneg, hroom⟩]
      rfl
    · obtain rfl : bufSize = 1 := by omega
      rw [if_neg fun h => hroom h.2]
      rfl
  · have hint : ¬ value.toInt < 0 := fun h => hneg (Int64.lt_iff_toInt_lt.mpr h)
    rw [if_neg fun h => hneg h.1, if_neg hint]
    rfl

/-- Both calls write a prefix of the decimal representation, and all of it into 21 bytes. -/
structure FormatsNumbers (unsigned : UInt64) (signed : Int64) (bufSize : Nat) : Prop where
  utoa : Formats (decimal unsigned.toNat) bufSize (kliUtoa unsigned bufSize)
  itoa : Formats (decimalInt signed.toInt) bufSize (kliItoa signed bufSize)
  /-- There is no leading zero. -/
  utoa_head : unsigned.toNat ≠ 0 → (decimal unsigned.toNat).head? ≠ some 48
  itoa_head : signed.toInt ≠ 0 → (decimalInt signed.toInt).head? ≠ some 48
  utoa_back : 21 ≤ bufSize → decimalValue (kliUtoa unsigned bufSize).bytes.dropLast = unsigned.toNat
  itoa_back : 21 ≤ bufSize → intValue (kliItoa signed bufSize).bytes.dropLast = signed.toInt

/-- A text that is not cut. -/
theorem Formats.whole {text : List UInt8} {f : Formatted} (h : Formats text bufSize f) (hfits : text.length < bufSize) :
    f.bytes.dropLast = text := by
  rw [h.bytes, List.dropLast_concat, List.take_of_length_le (by omega)]

theorem kli_formats (unsigned : UInt64) (signed : Int64) (hsize : 1 ≤ bufSize) :
    FormatsNumbers unsigned signed bufSize := by
  have hutoa := kliUtoa_formats unsigned hsize
  have hitoa := kliItoa_formats signed hsize
  refine ⟨hutoa, hitoa, decimal_head, decimalInt_head, fun hlarge => ?_, fun hlarge => ?_⟩
  · have hlen := length_decimal_le (by decide) (Nat.lt_trans unsigned.toNat_lt (by decide : 2 ^ 64 < 10 ^ 20))
    rw [hutoa.whole (by omega), decimalValue_decimal]
  · have hbounds : signed.toInt.natAbs < 10 ^ 19 := by
      have hle := signed.le_toInt
      have hlt := signed.toInt_lt
      omega
    have hlen := length_decimal_le (by decide) hbounds
    have hsigned : (decimalInt signed.toInt).length ≤ 20 := by
      unfold decimalInt
      split
      · rw [List.length_cons]
        omega
      · omega
    rw [hitoa.whole (by omega), intValue_decimalInt]

/-- The least number, with and without its last digit. -/
theorem kli_formats_least : FormatsNumbers 0xFFFFFFFFFFFFFFFF Int64.minValue 21 ∧
    FormatsNumbers 0xFFFFFFFFFFFFFFFF Int64.minValue 20 :=
  ⟨kli_formats _ _ (by decide), kli_formats _ _ (by decide)⟩

end Armonios
