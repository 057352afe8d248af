import Armonios.Process.Regions
import Armonios.Process.Trap
import Armonios.Lib.Reads

/-!
# Strings of programs

`sys_user_copy_cstr` with the bytes that it reads and the bytes that it writes. `sysUserCopyCstr` of the
trap code has the string only.

* `UserByte`: the byte is in a user region;
* `UserString`: there is a string of `n` bytes with its 0 behind them;
* `sysUserCopyCstrOut_spec`: what is copied, and what is read and written in every case.
-/

namespace Armonios

open Reads

variable {byte : Nat → UInt8} {p : Process} {ptr a i left k : Nat} {capacity : UInt64}

/-- The loop from the byte `i` on, with `left` bytes of room: the result, and the bytes with their places in
`out`, in the order in which they are written. -/
def sysUserCopyCstrFrom (p : Process) (ptr : Nat) : (left i : Nat) → Reads (Int × List (Nat × UInt8))
  | 0, _ => pure (errInval, [])
  | left + 1, i =>
    if ptr > uint64Max - i then pure (errInval, [])
    else if userBufRange p (ptr + i) 1 = false then pure (errInval, [])
    else do
      let b ← readByte (ptr + i)
      if b = 0 then return (0, [(i, b)])
      let r ← sysUserCopyCstrFrom p ptr left (i + 1)
      return (r.1, (i, b) :: r.2)

/-- `sys_user_copy_cstr` for a process and an `out` that are not 0. -/
def sysUserCopyCstrOut (p : Process) (ptr capacity : UInt64) : Reads (Int × List (Nat × UInt8)) :=
  if ptr = 0 ∨ capacity = 0 then pure (errInval, []) else sysUserCopyCstrFrom p ptr.toNat capacity.toNat 0

/-! ## Strings in the regions -/

/-- The byte is in a region, and the address behind it does not wrap. -/
def UserByte (p : Process) (a : Nat) : Prop := a < uint64Max ∧ ∃ r ∈ p.userRegions, r.start ≤ a ∧ a < r.stop

/-- `n` bytes that are not 0 and then a 0, all in user regions. -/
structure UserString (p : Process) (byte : Nat → UInt8) (a n : Nat) : Prop where
  user : ∀ i ≤ n, UserByte p (a + i)
  nonzero : ∀ i < n, byte (a + i) ≠ 0
  ends : byte (a + n) = 0

theorem userBufRange_iff (h0 : a ≠ 0) : userBufRange p a 1 = true ↔ UserByte p a := by
  have hcontains : userBufRange p a 1 = true ↔ processUserRangeContains a 1 p = true := by
    unfold userBufRange
    simp [h0]
  have hstop : userRegionEnd a 1 = if uint64Max - 1 < a then none else some (a + 1) := by
    simp [userRegionEnd]
  rw [hcontains]
  unfold processUserRangeContains UserByte
  rw [hstop]
  by_cases hwrap : uint64Max - 1 < a
  · have hlast : ¬ a < uint64Max := by omega
    simp [hwrap, hlast]
  · have hlast : a < uint64Max := by
      unfold uint64Max at *
      omega
    simp [hwrap, hlast]

/-- One turn of the loop gets at its byte exactly if it is in a region. -/
theorem turn_iff (h0 : ptr ≠ 0) (hi : i ≤ uint64Max) :
    (¬ ptr > uint64Max - i ∧ userBufRange p (ptr + i) 1 ≠ false) ↔ UserByte p (ptr + i) := by
  rw [ne_eq, Bool.not_eq_false, userBufRange_iff (by omega)]
  refine ⟨fun h => h.2, fun h => ⟨?_, h⟩⟩
  have hlast := h.1
  omega

theorem userString_zero : UserString p byte a 0 ↔ UserByte p a ∧ byte a = 0 := by
  constructor
  · intro h
    exact ⟨h.user 0 (Nat.le_refl 0), h.ends⟩
  · rintro ⟨huser, hends⟩
    refine ⟨fun i hi => ?_, fun i hi => absurd hi (Nat.not_lt_zero i), hends⟩
    obtain rfl := Nat.le_zero.mp hi
    exact huser

theorem userString_succ : UserString p byte a (k + 1) ↔ UserByte p a ∧ byte a ≠ 0 ∧ UserString p byte (a + 1) k := by
  have hnext : ∀ i, a + 1 + i = a + (i + 1) := fun i => by omega
  constructor
  · intro h
    refine ⟨h.user 0 (by omega), h.nonzero 0 (by omega), fun i hi => ?_, fun i hi => ?_, ?_⟩
    · rw [hnext]
      exact h.user (i + 1) (by omega)
    · rw [hnext]
      exact h.nonzero (i + 1) (by omega)
    · rw [hnext]
      exact h.ends
  · rintro ⟨huser, hnonzero, h⟩
    refine ⟨fun i hi => ?_, fun i hi => ?_, ?_⟩
    · cases i with
      | zero => exact huser
      | succ i =>
        rw [← hnext]
        exact h.user i (by omega)
    · cases i with
      | zero => exact hnonzero
      | succ i =>
        rw [← hnext]
        exact h.nonzero i (by omega)
    · rw [← hnext]
      exact h.ends

/-! ## The loop -/

/-- The first `n` bytes from `ptr + i` on, with their places in `out`. -/
def copied (byte : Nat → UInt8) (ptr i n : Nat) : List (Nat × UInt8) :=
  (List.range' i n).map fun j => (j, byte (ptr + j))

theorem copied_succ (byte : Nat → UInt8) (ptr i n : Nat) :
    copied byte ptr i (n + 1) = (i, byte (ptr + i)) :: copied byte ptr (i + 1) n := rfl

theorem copyCstrFrom_stop (h0 : ptr ≠ 0) (hi : i ≤ uint64Max) (h : ¬ UserByte p (ptr + i)) :
    sysUserCopyCstrFrom p ptr (left + 1) i = pure (errInval, []) := by
  unfold sysUserCopyCstrFrom
  rw [← turn_iff h0 hi, not_and_or, not_not, ne_eq, not_not] at h
  by_cases hwrap : ptr > uint64Max - i
  · rw [if_pos hwrap]
  · rw [if_neg hwrap, if_pos (h.resolve_left hwrap)]

theorem copyCstrFrom_byte (h0 : ptr ≠ 0) (hi : i ≤ uint64Max) (h : UserByte p (ptr + i)) :
    sysUserCopyCstrFrom p ptr (left + 1) i = do
      let b ← readByte (ptr + i)
      if b = 0 then return (0, [(i, b)])
      let r ← sysUserCopyCstrFrom p ptr left (i + 1)
      return (r.1, (i, b) :: r.2) := by
  conv_lhs => unfold sysUserCopyCstrFrom
  obtain ⟨hwrap, hrange⟩ := (turn_iff h0 hi).mpr h
  rw [if_neg hwrap, if_neg hrange]

/-- The value of a turn that gets at its byte. -/
theorem copyCstrFrom_turn (h0 : ptr ≠ 0) (hi : i ≤ uint64Max) (h : UserByte p (ptr + i)) :
    (sysUserCopyCstrFrom p ptr (left + 1) i).run byte = if byte (ptr + i) = 0 then (0, copied byte ptr i 1)
      else (((sysUserCopyCstrFrom p ptr left (i + 1)).run byte).1,
        (i, byte (ptr + i)) :: ((sysUserCopyCstrFrom p ptr left (i + 1)).run byte).2) := by
  rw [copyCstrFrom_byte h0 hi h, run_bind, run_readByte]
  split
  · rfl
  · rw [run_bind, run_pure]

/-- A string that ends in the room is copied with its 0. -/
theorem copyCstrFrom_ok (h0 : ptr ≠ 0) (hi : i + left ≤ uint64Max) (hk : k < left)
    (h : UserString p byte (ptr + i) k) :
    (sysUserCopyCstrFrom p ptr left i).run byte = (0, copied byte ptr i (k + 1)) := by
  induction left generalizing i k with
  | zero => cases hk
  | succ left ih =>
    rw [copyCstrFrom_turn h0 (by omega) (h.user 0 (Nat.zero_le k))]
    cases k with
    | zero =>
      obtain ⟨-, hend⟩ := userString_zero.mp h
      rw [if_pos hend]
    | succ k =>
      obtain ⟨-, hnonzero, hrest⟩ := userString_succ.mp h
      rw [if_neg hnonzero, ih (i := i + 1) (by omega) (by omega) hrest, copied_succ byte ptr i (k + 1)]

/-- Without one the call fails. -/
theorem copyCstrFrom_fails (byte : Nat → UInt8) (p : Process) (h0 : ptr ≠ 0) (hi : i + left ≤ uint64Max)
    (h : ∀ k < left, ¬ UserString p byte (ptr + i) k) :
    ((sysUserCopyCstrFrom p ptr left i).run byte).1 = errInval := by
  induction left generalizing i with
  | zero => rfl
  | succ left ih =>
    by_cases huser : UserByte p (ptr + i)
    · have hnonzero : byte (ptr + i) ≠ 0 := fun hend => h 0 (by omega) (userString_zero.mpr ⟨huser, hend⟩)
      rw [copyCstrFrom_turn h0 (by omega) huser, if_neg hnonzero]
      exact ih (by omega) fun k hk hrest =>
        h (k + 1) (by omega) (userString_succ.mpr ⟨huser, hnonzero, hrest⟩)
    · rw [copyCstrFrom_stop h0 (by omega) huser]
      rfl

/-- The places that are written are those from `i` on, each once and in order. -/
theorem copyCstrFrom_places (byte : Nat → UInt8) (p : Process) (h0 : ptr ≠ 0) (hi : i + left ≤ uint64Max) :
    ∃ n ≤ left, ((sysUserCopyCstrFrom p ptr left i).run byte).2 = copied byte ptr i n := by
  induction left generalizing i with
  | zero => exact ⟨0, Nat.le_refl 0, rfl⟩
  | succ left ih =>
    by_cases huser : UserByte p (ptr + i)
    · rw [copyCstrFrom_turn h0 (by omega) huser]
      split
      · exact ⟨1, by omega, rfl⟩
      · obtain ⟨n, hn, hcopied⟩ := ih (i := i + 1) (by omega)
        refine ⟨n + 1, by omega, ?_⟩
        rw [copied_succ, ← hcopied]
    · rw [copyCstrFrom_stop h0 (by omega) huser]
      exact ⟨0, by omega, rfl⟩

theorem copyCstrFrom_within (h0 : ptr ≠ 0) (hi : i + left ≤ uint64Max) :
    (sysUserCopyCstrFrom p ptr left i).Within (UserByte p) := by
  induction left generalizing i with
  | zero => exact within_pure _
  | succ left ih =>
    by_cases huser : UserByte p (ptr + i)
    · rw [copyCstrFrom_byte h0 (by omega) huser]
      refine (within_readByte huser).bind fun b => ?_
      split
      · exact within_pure _
      · exact (ih (by omega)).bind fun r => within_pure _
    · rw [copyCstrFrom_stop h0 (by omega) huser]
      exact within_pure _

/-! ## The call -/

/-- What the call returns, what it writes and what it reads. -/
structure CopiesCstr (byte : Nat → UInt8) (p : Process) (ptr capacity : UInt64) : Prop where
  status : ((sysUserCopyCstrOut p ptr capacity).run byte).1 = 0 ↔
    ptr ≠ 0 ∧ ∃ k < capacity.toNat, UserString p byte ptr.toNat k
  bytes : ∀ k < capacity.toNat, ptr ≠ 0 → UserString p byte ptr.toNat k →
    ((sysUserCopyCstrOut p ptr capacity).run byte).2 = (List.range (k + 1)).map fun i => (i, byte (ptr.toNat + i))
  room : ∃ n ≤ capacity.toNat, ((sysUserCopyCstrOut p ptr capacity).run byte).2.map Prod.fst = List.range n
  reads : (sysUserCopyCstrOut p ptr capacity).Within (UserByte p)

theorem copied_range (byte : Nat → UInt8) (ptr n : Nat) :
    copied byte ptr 0 n = (List.range n).map fun i => (i, byte (ptr + i)) := by
  rw [copied, List.range_eq_range']

theorem sysUserCopyCstrOut_spec (byte : Nat → UInt8) (p : Process) (ptr capacity : UInt64) :
    CopiesCstr byte p ptr capacity := by
  by_cases hargs : ptr = 0 ∨ capacity = 0
  · have hout : sysUserCopyCstrOut p ptr capacity = pure (errInval, []) := if_pos hargs
    have hnone : ¬ (ptr ≠ 0 ∧ ∃ k < capacity.toNat, UserString p byte ptr.toNat k) := by
      rintro ⟨hptr, k, hk, -⟩
      rw [hargs.resolve_left hptr] at hk
      exact absurd hk (Nat.not_lt_zero k)
    have herr : errInval ≠ 0 := by decide
    refine ⟨?_, fun k hk hptr h => absurd ⟨hptr, k, hk, h⟩ hnone, ?_, ?_⟩
    · rw [hout]
      exact iff_of_false herr hnone
    · rw [hout]
      exact ⟨0, Nat.zero_le _, rfl⟩
    · rw [hout]
      exact within_pure _
  · have hout : sysUserCopyCstrOut p ptr capacity = sysUserCopyCstrFrom p ptr.toNat capacity.toNat 0 := if_neg hargs
    obtain ⟨hptr, -⟩ := not_or.mp hargs
    have h0 : ptr.toNat ≠ 0 := fun h => hptr (UInt64.toNat_inj.mp h)
    have hroom : 0 + capacity.toNat ≤ uint64Max := by
      have hlt := capacity.toNat_lt
      unfold uint64Max
      omega
    have hok : ∀ k < capacity.toNat, UserString p byte ptr.toNat k →
        (sysUserCopyCstrFrom p ptr.toNat capacity.toNat 0).run byte = (0, copied byte ptr.toNat 0 (k + 1)) :=
      fun k hk h => copyCstrFrom_ok h0 hroom hk h
    refine ⟨?_, ?_, ?_, ?_⟩
    · rw [hout]
      constructor
      · intro hstatus
        refine ⟨hptr, ?_⟩
        by_contra hnone
        simp only [not_exists, not_and] at hnone
        have hfails := copyCstrFrom_fails byte p h0 hroom hnone
        rw [hstatus] at hfails
        cases hfails
      · rintro ⟨-, k, hk, h⟩
        rw [hok k hk h]
    · intro k hk _ h
      rw [hout, hok k hk h, copied_range]
    · obtain ⟨n, hn, hplaces⟩ := copyCstrFrom_places byte p h0 hroom
      rw [hout, hplaces, copied_range]
      exact ⟨n, hn, by simp [Function.comp_def]⟩
    · rw [hout]
      exact copyCstrFrom_within h0 hroom

end Armonios
