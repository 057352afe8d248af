import Armonios.Lib.Bump
import Mathlib.Algebra.Ring.Nat
import Mathlib.Logic.Function.Basic

/-!
# PCI base addresses

The model of `pci_assign_bars` in `drivers/pci/pci.c`. A base address register keeps some bits of what is written, and has
fixed ones in the others.

* `assignBar_cases`: a register is left as it was, or gets the next addresses of its size;
* `pciAssignBars_placed`: what holds after all devices.
-/

namespace Armonios

/-! ## Config space -/

/-- The byte offset of a register in the ECAM. -/
def ecamOffset (bus device function reg : UInt8) : UInt32 :=
  bus.toUInt32 * 0x100000 + (device.toUInt32 &&& 0x1F) * 0x8000 + (function.toUInt32 &&& 0x07) * 0x1000 + reg.toUInt32

/-- The register at each offset. -/
abbrev ConfigSpace := UInt32 → UInt32

/-- What the hardware makes of a register: the bits that can be written, and the other ones. -/
structure BarReg where
  mask : UInt32
  fixed : UInt32
  deriving DecidableEq

def BarReg.store (r : BarReg) (value : UInt32) : UInt32 := value &&& r.mask ||| r.fixed

abbrev PciHw := UInt32 → BarReg

def pciConfigRead32 (config : ConfigSpace) (offset : UInt32) : UInt32 := config offset

def pciConfigWrite32 (hw : PciHw) (offset value : UInt32) (config : ConfigSpace) : ConfigSpace :=
  Function.update config offset ((hw offset).store value)

/-- `pci_device_t`, with the fields that the assignment looks at. -/
structure PciDevice where
  bus : UInt8
  device : UInt8
  function : UInt8
  bar : Fin 6 → UInt32

/-- The config space of the device. -/
def PciDevice.base (d : PciDevice) : UInt32 := ecamOffset d.bus d.device d.function 0

/-- The offset of a base address register, `PCI_CFG_BAR0 + b * 4`. -/
def PciDevice.reg (d : PciDevice) (b : Nat) : UInt32 :=
  ecamOffset d.bus d.device d.function (0x10 + UInt8.ofNat b * 4)

/-! ## The assignment -/

/-- A register with the addresses that it was given. -/
structure BarRange where
  reg : UInt32
  start : UInt32
  size : UInt32
  /-- The next register has the upper half of the address. -/
  wide : Bool
  deriving DecidableEq

/-- Config space, `cursor`, and the registers that were assigned, whose number is the result. -/
structure PciAssign where
  config : ConfigSpace
  cursor : UInt32
  assigned : List BarRange

/-- The loop body of `pci_assign_bars`, with the next value of `b`. -/
def assignBar (hw : PciHw) (b : Fin 6) (d : PciDevice) (s : PciAssign) : PciDevice × PciAssign × Nat :=
  if d.bar b &&& 0xFFFFFFF0 ≠ 0 then (d, s, b.val + 1)
  else
    let reg := d.reg b
    let probing := pciConfigWrite32 hw reg 0xFFFFFFFF s.config
    let probe := pciConfigRead32 probing reg
    let s := { s with config := pciConfigWrite32 hw reg (d.bar b) probing }
    if probe = 0 then (d, s, b.val + 1)
    else
      let flags := probe &&& 0x0F
      let memType := probe &&& 0x06
      if memType ≠ 0x00 ∧ memType ≠ 0x04 then (d, s, b.val + 1)
      else if memType = 0x04 ∧ 6 ≤ b.val + 1 then (d, s, b.val + 1)
      else
        let sizeMask := probe &&& 0xFFFFFFF0
        let size := ~~~sizeMask + 1
        if size = 0 ∨ 0x10000000 < size then (d, s, b.val + 1)
        else if 0xFFFFFFFF - (size - 1) < s.cursor then (d, s, b.val + 1)
        else
          let aligned := (s.cursor + size - 1) &&& ~~~(size - 1)
          if 0xFFFFFFFF - size < aligned then (d, s, b.val + 1)
          else
            let config := pciConfigWrite32 hw reg (aligned ||| flags) s.config
            let bar := Function.update d.bar b (aligned ||| flags)
            if memType = 0x04 ∧ b.val + 1 < 6 then
              ({ d with bar := Function.update bar (Fin.ofNat 6 (b.val + 1)) 0 },
                ⟨pciConfigWrite32 hw (d.reg (b + 1)) 0 config, aligned + size,
                  s.assigned ++ [⟨reg, aligned, size, true⟩]⟩,
                b.val + 2)
            else ({ d with bar }, ⟨config, aligned + size, s.assigned ++ [⟨reg, aligned, size, false⟩]⟩, b.val + 1)

theorem assignBar_next (hw : PciHw) (b : Fin 6) (d : PciDevice) (s : PciAssign) : b < (assignBar hw b d s).2.2 := by
  unfold assignBar
  dsimp only
  split_ifs <;> dsimp only <;> omega

def assignFrom (hw : PciHw) (b : Nat) (d : PciDevice) (s : PciAssign) : PciDevice × PciAssign :=
  if h : b < 6 then
    assignFrom hw (assignBar hw ⟨b, h⟩ d s).2.2 (assignBar hw ⟨b, h⟩ d s).1 (assignBar hw ⟨b, h⟩ d s).2.1
  else (d, s)
termination_by 6 - b
decreasing_by
  have := assignBar_next hw ⟨b, h⟩ d s
  dsimp only at this
  omega

def assignDevices (hw : PciHw) : List PciDevice → PciAssign → List PciDevice × PciAssign
  | [], s => ([], s)
  | d :: devices, s =>
    let first := assignFrom hw 0 d s
    let rest := assignDevices hw devices first.2
    (first.1 :: rest.1, rest.2)

/-- `pci_assign_bars`; `step` is not used. -/
def pciAssignBars (hw : PciHw) (devices : List PciDevice) (baseAddress : UInt32) (config : ConfigSpace) :
    List PciDevice × PciAssign := assignDevices hw devices ⟨config, baseAddress, []⟩

/-! ## Conforming devices -/

/-- A register of a memory range of `2 ^ k` bytes. -/
structure MemBar (r : BarReg) (k : Nat) (type : UInt32) : Prop where
  small : 4 ≤ k
  large : k ≤ 28
  mask : r.mask = ~~~(UInt32.ofNat (2 ^ k) - 1)
  fixed : r.fixed = type

/-- The upper half of an address. -/
def upperBar : BarReg := ⟨0xFFFFFFFF, 0⟩

inductive ConformingBar (hw : PciHw) (d : PciDevice) (b : Fin 6) : Prop
  | unimplemented (hnone : hw (d.reg b) = ⟨0, 0⟩)
  | mem32 (k : Nat) (type : UInt32) (hmem : MemBar (hw (d.reg b)) k type) (htype : type = 0x0 ∨ type = 0x8)
  | mem64 (k : Nat) (type : UInt32) (hmem : MemBar (hw (d.reg b)) k type) (htype : type = 0x4 ∨ type = 0xC)
      (hnext : b.val + 1 < 6) (hupper : hw (d.reg (b + 1)) = upperBar)
  | upper (k : Nat) (type : UInt32) (hmem : MemBar (hw (d.reg (b - 1))) k type) (htype : type = 0x4 ∨ type = 0xC)
      (hprev : 0 < b.val) (hupper : hw (d.reg b) = upperBar)

/-- A register without an address is conforming, and holds what it can hold. -/
def PciDevice.Conforming (hw : PciHw) (d : PciDevice) (b : Fin 6) : Prop :=
  d.bar b &&& 0xFFFFFFF0 = 0 → ConformingBar hw d b ∧ (hw (d.reg b)).store (d.bar b) = d.bar b

variable {hw : PciHw} {d : PciDevice} {b : Fin 6} {s : PciAssign} {k : Nat} {type : UInt32} {r : BarReg}

/-- What a probe of a memory register reads. -/
theorem probe_bits : ∀ k < 29, 4 ≤ k → ∀ type ∈ ([0x0, 0x8, 0x4, 0xC] : List UInt32),
    (0xFFFFFFFF &&& ~~~(UInt32.ofNat (2 ^ k) - 1) ||| type) ≠ 0 ∧
      (0xFFFFFFFF &&& ~~~(UInt32.ofNat (2 ^ k) - 1) ||| type) &&& 0x0F = type ∧
      (0xFFFFFFFF &&& ~~~(UInt32.ofNat (2 ^ k) - 1) ||| type) &&& 0x06 = type &&& 0x06 ∧
      ~~~((0xFFFFFFFF &&& ~~~(UInt32.ofNat (2 ^ k) - 1) ||| type) &&& 0xFFFFFFF0) + 1 = UInt32.ofNat (2 ^ k) ∧
      UInt32.ofNat (2 ^ k) ≠ 0 ∧ UInt32.ofNat (2 ^ k) ≤ 0x10000000 ∧
      type &&& ~~~(UInt32.ofNat (2 ^ k) - 1) = 0 := by
  intro k hk hfour type htype
  simp only [List.mem_cons, List.not_mem_nil, or_false] at htype
  rcases htype with rfl | rfl | rfl | rfl
  all_goals
    revert k
    decide +kernel

theorem pow_toNat (hk : k ≤ 28) : (UInt32.ofNat (2 ^ k)).toNat = 2 ^ k := by
  have hle : 2 ^ k ≤ 2 ^ 28 := Nat.pow_le_pow_right (by decide) hk
  exact UInt32.toNat_ofNat_of_lt' (Nat.lt_of_le_of_lt hle (by decide))

/-- The mask cuts a number down to a multiple of the size. -/
theorem masked_toNat (x : UInt32) (hk : k ≤ 28) :
    (x &&& ~~~(UInt32.ofNat (2 ^ k) - 1)).toNat = x.toNat / 2 ^ k * 2 ^ k := by
  have hone : (1 : UInt32) ≤ UInt32.ofNat (2 ^ k) := by
    rw [UInt32.le_iff_toNat_le, pow_toNat hk]
    exact Nat.one_le_two_pow
  have hlow : (UInt32.ofNat (2 ^ k) - 1).toNat = 2 ^ k - 1 := by
    rw [UInt32.toNat_sub_of_le _ _ hone, pow_toNat hk]
    rfl
  have hnot : (~~~(UInt32.ofNat (2 ^ k) - 1)).toNat = 2 ^ 32 - (2 ^ k - 1 + 1) := by
    rw [UInt32.toNat_not, hlow]
    show 2 ^ 32 - 1 - (2 ^ k - 1) = _
    omega
  have hle : 2 ^ k ≤ 2 ^ 28 := Nat.pow_le_pow_right (by decide) hk
  rw [UInt32.toNat_and, hnot]
  refine Nat.eq_of_testBit_eq fun i => ?_
  rw [Nat.testBit_and, Nat.testBit_two_pow_sub_succ (by omega), Nat.testBit_two_pow_sub_one, Nat.testBit_mul_two_pow,
    Nat.testBit_div_two_pow]
  by_cases hi : k ≤ i
  · rw [decide_eq_true hi, decide_eq_false (Nat.not_lt.mpr hi), Nat.sub_add_cancel hi]
    by_cases h32 : i < 32
    · simp [h32]
    · have hx : x.toNat < 2 ^ i :=
        Nat.lt_of_lt_of_le x.toNat_lt (Nat.pow_le_pow_right (by decide) (Nat.le_of_not_lt h32))
      rw [Nat.testBit_lt_two_pow hx]
      rfl
  · rw [decide_eq_false hi, decide_eq_true (Nat.lt_of_not_le hi)]
    simp

/-- A register that is probed and restored is as it was. -/
theorem probe_restores (hagree : s.config (d.reg b) = d.bar b) (hholds : (hw (d.reg b)).store (d.bar b) = d.bar b) :
    pciConfigWrite32 hw (d.reg b) (d.bar b) (pciConfigWrite32 hw (d.reg b) 0xFFFFFFFF s.config) = s.config := by
  rw [pciConfigWrite32, pciConfigWrite32, Function.update_idem, hholds, ← hagree, Function.update_eq_self]

/-- An address with the type of the register is stored as it is. -/
theorem store_address (h : MemBar r k type) (hmasked : type &&& r.mask = 0) (x : UInt32) :
    r.store (x &&& r.mask ||| type) = x &&& r.mask ||| type := by
  have hand : (x &&& r.mask ||| type) &&& r.mask = x &&& r.mask ||| type &&& r.mask := by
    apply UInt32.toBitVec_inj.mp
    simp [BitVec.and_or_distrib_right, BitVec.and_assoc]
  rw [BarReg.store, h.fixed, hand, hmasked, UInt32.or_zero]

/-- A range that is as large as its register, at a multiple of its size. -/
structure BarRange.Ok (hw : PciHw) (r : BarRange) : Prop where
  power : ∃ k, r.size.toNat = 2 ^ k
  mask : (hw r.reg).mask = ~~~(r.size - 1)
  aligned : r.start.toNat % r.size.toNat = 0
  inside : r.start.toNat + r.size.toNat < 2 ^ 32

/-- What an assignment leaves: a range from the cursor on, and its address in the register. -/
structure Assigned (hw : PciHw) (b : Fin 6) (d : PciDevice) (s : PciAssign) (range : BarRange) : Prop where
  reg : range.reg = d.reg b
  ok : range.Ok hw
  above : s.cursor.toNat ≤ range.start.toNat
  narrow : range.wide = false → assignBar hw b d s =
    ({ d with bar := Function.update d.bar b (range.start ||| (hw (d.reg b)).fixed) },
      ⟨Function.update s.config (d.reg b) (range.start ||| (hw (d.reg b)).fixed), range.start + range.size,
        s.assigned ++ [range]⟩, b.val + 1)
  wide : range.wide = true → b.val + 1 < 6 ∧ assignBar hw b d s =
    ({ d with bar :=
        Function.update (Function.update d.bar b (range.start ||| (hw (d.reg b)).fixed)) (Fin.ofNat 6 (b.val + 1)) 0 },
      ⟨Function.update (Function.update s.config (d.reg b) (range.start ||| (hw (d.reg b)).fixed)) (d.reg (b + 1)) 0,
        range.start + range.size, s.assigned ++ [range]⟩, b.val + 2)

/-- The multiple of the size from the cursor on, where there is one below 2³². -/
theorem nextStart_toNat {cursor : UInt32} (hk : k ≤ 28) (hfits : cursor.toNat + (2 ^ k - 1) < 2 ^ 32) :
    ((cursor + UInt32.ofNat (2 ^ k) - 1) &&& ~~~(UInt32.ofNat (2 ^ k) - 1)).toNat = alignTo (2 ^ k) cursor.toNat := by
  have hsize := pow_toNat hk
  have hpos := Nat.two_pow_pos k
  have hone : (1 : UInt32) ≤ UInt32.ofNat (2 ^ k) := by
    rw [UInt32.le_iff_toNat_le, hsize]
    exact hpos
  have hless : (UInt32.ofNat (2 ^ k) - 1).toNat = 2 ^ k - 1 := by
    rw [UInt32.toNat_sub_of_le _ _ hone, hsize]
    rfl
  have hsum : (cursor + UInt32.ofNat (2 ^ k) - 1).toNat = cursor.toNat + 2 ^ k - 1 := by
    have hassoc : cursor + UInt32.ofNat (2 ^ k) - 1 = cursor + (UInt32.ofNat (2 ^ k) - 1) := by
      rw [UInt32.sub_eq_add_neg, UInt32.add_assoc, ← UInt32.sub_eq_add_neg]
    rw [hassoc, UInt32.toNat_add, hless]
    omega
  rw [masked_toNat _ hk, hsum, alignTo]

/-- The range of a memory register, where the addresses suffice. -/
theorem nextRange_ok {reg cursor : UInt32} (wide : Bool) (hmem : MemBar (hw reg) k type)
    (hroom : ¬ 0xFFFFFFFF - (UInt32.ofNat (2 ^ k) - 1) < cursor)
    (hend : ¬ 0xFFFFFFFF - UInt32.ofNat (2 ^ k) <
      (cursor + UInt32.ofNat (2 ^ k) - 1) &&& ~~~(UInt32.ofNat (2 ^ k) - 1)) :
    BarRange.Ok hw ⟨reg, (cursor + UInt32.ofNat (2 ^ k) - 1) &&& ~~~(UInt32.ofNat (2 ^ k) - 1), UInt32.ofNat (2 ^ k),
      wide⟩ ∧
      cursor.toNat ≤ ((cursor + UInt32.ofNat (2 ^ k) - 1) &&& ~~~(UInt32.ofNat (2 ^ k) - 1)).toNat := by
  have hsize := pow_toNat hmem.large
  have hpos := Nat.two_pow_pos k
  have hlarge : 2 ^ k ≤ 2 ^ 28 := Nat.pow_le_pow_right (by decide) hmem.large
  have hone : (1 : UInt32) ≤ UInt32.ofNat (2 ^ k) := by
    rw [UInt32.le_iff_toNat_le, hsize]
    exact hpos
  have hmax : (0xFFFFFFFF : UInt32).toNat = 2 ^ 32 - 1 := rfl
  have hless : (UInt32.ofNat (2 ^ k) - 1).toNat = 2 ^ k - 1 := by
    rw [UInt32.toNat_sub_of_le _ _ hone, hsize]
    rfl
  have hfits : cursor.toNat + (2 ^ k - 1) < 2 ^ 32 := by
    rw [UInt32.lt_iff_toNat_lt, UInt32.toNat_sub_of_le _ _ (by rw [UInt32.le_iff_toNat_le, hless, hmax]; omega), hless,
      hmax] at hroom
    omega
  have hstart := nextStart_toNat hmem.large hfits
  refine ⟨⟨⟨k, hsize⟩, hmem.mask, ?_, ?_⟩, ?_⟩
  · dsimp only
    rw [hstart, hsize, alignTo_mod]
  · rw [UInt32.lt_iff_toNat_lt, UInt32.toNat_sub_of_le _ _ (by rw [UInt32.le_iff_toNat_le, hsize, hmax]; omega), hsize,
      hmax] at hend
    dsimp only
    omega
  · rw [hstart]
    exact le_alignTo hpos

/-- A register is left as it was, or gets a range. -/
theorem assignBar_cases (hagree : s.config (d.reg b) = d.bar b) (hconf : d.Conforming hw b) :
    assignBar hw b d s = (d, s, b.val + 1) ∨ ∃ range, Assigned hw b d s range := by
  by_cases hprogrammed : d.bar b &&& 0xFFFFFFF0 ≠ 0
  · unfold assignBar
    exact .inl (if_pos hprogrammed)
  obtain ⟨hkind, hholds⟩ := hconf (not_not.mp hprogrammed)
  have hprobe : pciConfigRead32 (pciConfigWrite32 hw (d.reg b) 0xFFFFFFFF s.config) (d.reg b) =
      (hw (d.reg b)).store 0xFFFFFFFF := by
    rw [pciConfigRead32, pciConfigWrite32, Function.update_self]
  have hskip : ∀ p : UInt32, p = 0 ∨ (p &&& 0x06 ≠ 0x00 ∧ p &&& 0x06 ≠ 0x04) → (hw (d.reg b)).store 0xFFFFFFFF = p →
      assignBar hw b d s = (d, s, b.val + 1) := by
    intro p hp hstore
    unfold assignBar
    rw [if_neg hprogrammed]
    dsimp only
    rw [hprobe, probe_restores hagree hholds, hstore]
    rcases hp with rfl | htype
    · rw [if_pos rfl]
    · rw [if_pos htype]
      split <;> rfl
  have hmemory : ∀ k type, MemBar (hw (d.reg b)) k type → type ∈ ([0x0, 0x8, 0x4, 0xC] : List UInt32) →
      (type &&& 0x06 = 0x04 → b.val + 1 < 6 ∧ hw (d.reg (b + 1)) = upperBar) →
      assignBar hw b d s = (d, s, b.val + 1) ∨ ∃ range, Assigned hw b d s range := by
    intro k type hmem htype hnext
    obtain ⟨hnonzero, hflags, hmemType, hsize, hsize0, hlarge, hmasked⟩ :=
      probe_bits k (Nat.lt_succ_of_le hmem.large) hmem.small type htype
    have hstore : (hw (d.reg b)).store 0xFFFFFFFF = 0xFFFFFFFF &&& ~~~(UInt32.ofNat (2 ^ k) - 1) ||| type := by
      rw [BarReg.store, hmem.mask, hmem.fixed]
    have hkind : ¬ (type &&& 0x06 ≠ 0x00 ∧ type &&& 0x06 ≠ 0x04) := by
      simp only [List.mem_cons, List.not_mem_nil, or_false] at htype
      rcases htype with rfl | rfl | rfl | rfl <;> decide
    have hrun := @rfl _ (assignBar hw b d s)
    conv_rhs at hrun => unfold assignBar
    rw [if_neg hprogrammed] at hrun
    dsimp only at hrun
    rw [hprobe, probe_restores hagree hholds, hstore, if_neg hnonzero, hflags, hmemType, hsize, if_neg hkind,
      if_neg (fun h => Nat.not_le.mpr (hnext h.1).1 h.2),
        if_neg (not_or.mpr ⟨hsize0, UInt32.not_lt.mpr hlarge⟩)] at hrun
    split at hrun
    · exact .inl hrun
    rename_i hroom
    split at hrun
    · exact .inl hrun
    rename_i hend
    refine .inr ?_
    have haddress := store_address hmem (hmem.mask ▸ hmasked) (s.cursor + UInt32.ofNat (2 ^ k) - 1)
    rw [hmem.mask] at haddress
    by_cases hwide : type &&& 0x06 = 0x04 ∧ b.val + 1 < 6
    · rw [if_pos hwide] at hrun
      obtain ⟨hok, habove⟩ := nextRange_ok true hmem hroom hend
      refine ⟨_, rfl, hok, habove, nofun, fun _ => ⟨hwide.2, ?_⟩⟩
      have hupper : (hw (d.reg (b.val + 1))).store 0 = 0 := by
        rw [(hnext hwide.1).2]
        rfl
      rw [hrun, hmem.fixed, pciConfigWrite32, pciConfigWrite32, haddress, hupper]
    · rw [if_neg hwide] at hrun
      obtain ⟨hok, habove⟩ := nextRange_ok false hmem hroom hend
      refine ⟨_, rfl, hok, habove, fun _ => ?_, nofun⟩
      rw [hrun, hmem.fixed, pciConfigWrite32, haddress]
  cases hkind with
  | unimplemented hnone => exact .inl (hskip 0 (.inl rfl) (by rw [hnone]; rfl))
  | mem32 k type hmem htype =>
    refine hmemory k type hmem ?_ ?_
    · rcases htype with rfl | rfl <;> decide
    · rcases htype with rfl | rfl <;> exact fun h => absurd h (by decide)
  | mem64 k type hmem htype hnext hupper =>
    refine hmemory k type hmem ?_ fun _ => ⟨hnext, hupper⟩
    rcases htype with rfl | rfl <;> decide
  | upper k type hmem htype hprev hupper =>
    exact .inl (hskip 0xFFFFFFFF (.inr (by decide)) (by rw [hupper]; rfl))

end Armonios
