import Armonios.Lib.OnesComplement
import Armonios.Net.Dhcp

/-!
# Checksums

* `checksum_eq`: `checksum` is the complement of the one's complement sum of the words of the data;
* `writeIpv4Header_checksum`: so the words of a header have the sum 0xFFFF.
-/

namespace Armonios

/-- The 16-bit words, the high byte first; the last byte of an odd number is a high byte. -/
def be16Words : List UInt8 → List Nat
  | [] => []
  | [p] => [256 * p.toNat]
  | p :: q :: rest => (256 * p.toNat + q.toNat) :: be16Words rest

/-- The end-around carry sum of the words. -/
def onesComplementSum (data : List UInt8) : Nat := onesSum 65535 (be16Words data)

variable {data : List UInt8}

theorem be16Words_le (data : List UInt8) : ∀ w ∈ be16Words data, w ≤ 65535 := by
  induction data using be16Words.induct with
  | case1 => simp [be16Words]
  | case2 p =>
    have := p.toNat_lt
    simp only [be16Words, List.mem_singleton, forall_eq]
    omega
  | case3 p q rest ih =>
    have := p.toNat_lt
    have := q.toNat_lt
    refine List.forall_mem_cons.mpr ⟨by omega, ih⟩

theorem be16Words_sum (data : List UInt8) : (be16Words data).sum ≤ 65535 * ((data.length + 1) / 2) := by
  induction data using be16Words.induct with
  | case1 => simp [be16Words]
  | case2 p =>
    have := p.toNat_lt
    simp only [be16Words, List.sum_cons, List.sum_nil, List.length_cons, List.length_nil]
    omega
  | case3 p q rest ih =>
    have := p.toNat_lt
    have := q.toNat_lt
    simp only [be16Words, List.sum_cons, List.length_cons]
    omega

theorem be16Words_append {front : List UInt8} (back : List UInt8) (heven : front.length % 2 = 0) :
    be16Words (front ++ back) = be16Words front ++ be16Words back := by
  induction front using be16Words.induct with
  | case1 => rfl
  | case2 p => simp at heven
  | case3 p q rest ih =>
    simp only [List.length_cons] at heven
    rw [List.cons_append, List.cons_append, be16Words, be16Words, ih (by omega), List.cons_append]

/-! ## The loops -/

theorem high_toNat (p : UInt8) : (p.toUInt32 <<< 8).toNat = 256 * p.toNat := by
  have hlt := p.toNat_lt
  rw [UInt32.toNat_shiftLeft, UInt8.toNat_toUInt32, show (8 : UInt32).toNat % 32 = 8 from rfl, Nat.shiftLeft_eq,
    Nat.mod_eq_of_lt (by omega), Nat.mul_comm]

theorem be16_toNat (p q : UInt8) : (p.toUInt32 <<< 8 ||| q.toUInt32).toNat = 256 * p.toNat + q.toNat := by
  have hlt := q.toNat_lt
  rw [UInt32.toNat_or, high_toNat, UInt8.toNat_toUInt32, show 256 * p.toNat = 2 ^ 8 * p.toNat from rfl,
    ← Nat.two_pow_add_eq_or_of_lt hlt]

theorem checksumFrom_toNat (data : List UInt8) (sum : UInt32) (h : sum.toNat + (be16Words data).sum < 2 ^ 32) :
    (checksumFrom sum data).toNat = sum.toNat + (be16Words data).sum := by
  induction data using be16Words.induct generalizing sum with
  | case1 => rfl
  | case2 p =>
    simp only [be16Words, List.sum_cons, List.sum_nil] at h ⊢
    rw [checksumFrom, UInt32.toNat_add, high_toNat, Nat.mod_eq_of_lt (by omega), Nat.add_zero]
  | case3 p q rest ih =>
    simp only [be16Words, List.sum_cons] at h ⊢
    have hsum : (sum + (p.toUInt32 <<< 8 ||| q.toUInt32)).toNat = sum.toNat + (256 * p.toNat + q.toNat) := by
      rw [UInt32.toNat_add, be16_toNat, Nat.mod_eq_of_lt (by omega)]
    rw [checksumFrom, ih _ (by omega), hsum, Nat.add_assoc]

/-- Folding ends with the residue. -/
theorem checksumFold_toNat (sum : UInt32) : (checksumFold sum).toNat = residue 65535 sum.toNat := by
  induction sum using checksumFold.induct with
  | case1 sum hzero =>
    have hshift : (sum >>> 16).toNat = sum.toNat / 2 ^ 16 := by
      rw [UInt32.toNat_shiftRight]
      exact Nat.shiftRight_eq_div_pow _ _
    rw [hzero, UInt32.toNat_zero] at hshift
    rw [checksumFold, if_pos hzero, residue_of_le (by omega)]
  | case2 sum hmore ih =>
    have hand : (sum &&& (0xFFFF : UInt32)).toNat = sum.toNat % 2 ^ 16 := by
      rw [UInt32.toNat_and]
      exact Nat.and_two_pow_sub_one_eq_mod sum.toNat 16
    have hshift : (sum >>> 16).toNat = sum.toNat / 2 ^ 16 := by
      rw [UInt32.toNat_shiftRight]
      exact Nat.shiftRight_eq_div_pow _ _
    have hlt := sum.toNat_lt
    have hcarry : ((sum &&& (0xFFFF : UInt32)) + (sum >>> 16)).toNat =
      sum.toNat % (65535 + 1) + sum.toNat / (65535 + 1) := by
      rw [UInt32.toNat_add, hand, hshift]
      exact Nat.mod_eq_of_lt (by omega)
    rw [checksumFold, if_neg hmore, ih, hcarry, residue_carry]

theorem checksum_toNat (h : data.length ≤ 65535) : (checksum data).toNat = 65535 - onesComplementSum data := by
  have hsum := be16Words_sum data
  have hfrom : (checksumFrom 0 data).toNat = (be16Words data).sum := by
    rw [checksumFrom_toNat data 0 (by rw [UInt32.toNat_zero]; omega), UInt32.toNat_zero, Nat.zero_add]
  have hfold : (checksumFold (checksumFrom 0 data)).toNat = onesComplementSum data := by
    rw [checksumFold_toNat, hfrom, onesComplementSum, onesSum_eq (by decide) (be16Words_le data)]
  have hle : onesComplementSum data ≤ 65535 := by
    rw [← hfold, checksumFold_toNat]
    exact residue_le (by decide) _
  rw [checksum, UInt16.toNat_not, UInt32.toNat_toUInt16, hfold, Nat.mod_eq_of_lt (by omega)]
  rfl

/-! ## Headers -/

theorem putBe16_word (value : UInt16) : be16Words (putBe16 value) = [value.toNat] := by
  have hlt := value.toNat_lt
  have hhigh : (value >>> 8).toUInt8.toNat = value.toNat / 256 := by
    rw [UInt16.toNat_toUInt8, UInt16.toNat_shiftRight, show (8 : UInt16).toNat % 16 = 8 from rfl,
      Nat.shiftRight_eq_div_pow,
      Nat.mod_eq_of_lt (by omega)]
  have hlow : value.toUInt8.toNat = value.toNat % 256 := UInt16.toNat_toUInt8 value
  rw [putBe16, be16Words, be16Words, hhigh, hlow, Nat.div_add_mod]

variable {net : Net} {payloadLen destIp totalLen : UInt32} {proto : UInt8}

/-- The words of a header, with that of the checksum in the middle. -/
theorem ipv4Header_words (net : Net) (totalLen destIp : UInt32) (proto : UInt8) :
    ∃ front back, (∀ w ∈ front, w ≤ 65535) ∧ (∀ w ∈ back, w ≤ 65535) ∧ ∀ sum : UInt16,
      be16Words (ipv4Header net totalLen (putBe16 sum) destIp proto) = front ++ sum.toNat :: back := by
  refine ⟨_, _, be16Words_le ([0x45, 0] ++ putBe16 totalLen.toUInt16 ++ [0, 0, 0, 0, 64, proto]),
    be16Words_le ((if net.info.ip = 0 then [0, 0, 0, 0] else setIpAddr net.info.ip) ++
      if destIp = 0 then [255, 255, 255, 255] else setIpAddr destIp), fun sum => ?_⟩
  have hsplit : ∀ front back : List UInt8, front.length % 2 = 0 →
      be16Words (front ++ (putBe16 sum ++ back)) = be16Words front ++ sum.toNat :: be16Words back := by
    intro front back heven
    rw [be16Words_append _ heven, be16Words_append _ (by simp [putBe16]), putBe16_word, List.singleton_append]
  unfold ipv4Header
  rw [List.append_assoc _ _ (if destIp = 0 then _ else _), List.append_assoc _ (putBe16 sum)]
  exact hsplit _ _ (by simp [putBe16])

theorem ipv4Header_length (net : Net) (totalLen : UInt32) (sum : UInt16) (destIp : UInt32) (proto : UInt8) :
    (ipv4Header net totalLen (putBe16 sum) destIp proto).length = 20 := by
  have haddr : ∀ (ip : UInt32) (bytes : List UInt8), bytes.length = 4 →
      (if ip = 0 then bytes else setIpAddr ip).length = 4 := by
    intro ip bytes hbytes
    split
    · exact hbytes
    · rfl
  unfold ipv4Header
  rw [List.length_append, List.length_append, haddr _ _ rfl, haddr _ _ rfl]
  rfl

/-- The header verifies, and a checksum is the complement of the reference sum. -/
theorem writeIpv4Header_checksum : (∀ (net : Net) (payloadLen destIp : UInt32) (proto : UInt8),
      (writeIpv4Header net payloadLen destIp proto).length = 20 ∧
        onesComplementSum (writeIpv4Header net payloadLen destIp proto) = 0xFFFF) ∧
    ∀ data : List UInt8, data.length ≤ 65535 → (checksum data).toNat = 0xFFFF - onesComplementSum data := by
  refine ⟨fun net payloadLen destIp proto => ⟨ipv4Header_length .., ?_⟩, fun data => checksum_toNat⟩
  obtain ⟨front, back, hfront, hback, hwords⟩ := ipv4Header_words net (20 + payloadLen) destIp proto
  have hzero : ipv4Header net (20 + payloadLen) [0, 0] destIp proto =
      ipv4Header net (20 + payloadLen) (putBe16 0) destIp proto := rfl
  have hsum : (checksum (ipv4Header net (20 + payloadLen) [0, 0] destIp proto)).toNat =
      65535 - onesSum 65535 (front ++ back) := by
    rw [hzero, checksum_toNat (by rw [ipv4Header_length]; decide), onesComplementSum, hwords]
    exact congrArg (65535 - ·) (onesSum_zero (by decide) hfront hback)
  rw [writeIpv4Header, onesComplementSum, hwords, hsum, onesSum_complement (by decide) hfront hback]

end Armonios
