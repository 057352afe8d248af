import Armonios.Drivers.PciPack

/-!
# The ranges of all devices

`pci_assign_bars` on a list of devices with config spaces of their own.

* `assignBar_inv`: what one register keeps;
* `assignFrom_inv`: what holds after a device;
* `pciAssignBars_ranges`: what holds after all of them.
-/

namespace Armonios

variable {hw : PciHw} {base : UInt32} {config₀ : ConfigSpace} {b : Nat} {d d' : PciDevice} {s s' : PciAssign}
  {r range : BarRange} {devices : List PciDevice} {o : UInt32}

/-! ## Offsets -/

theorem ecamOffset_toNat (bus device function reg : UInt8) : (ecamOffset bus device function reg).toNat =
    bus.toNat * 2 ^ 20 + device.toNat % 32 * 2 ^ 15 + function.toNat % 8 * 2 ^ 12 + reg.toNat := by
  have hbus := bus.toNat_lt
  have hreg := reg.toNat_lt
  have hdevice : (device.toUInt32 &&& 0x1F).toNat = device.toNat % 32 := by
    rw [UInt32.toNat_and, UInt8.toNat_toUInt32]
    exact Nat.and_two_pow_sub_one_eq_mod device.toNat 5
  have hfunction : (function.toUInt32 &&& 0x07).toNat = function.toNat % 8 := by
    rw [UInt32.toNat_and, UInt8.toNat_toUInt32]
    exact Nat.and_two_pow_sub_one_eq_mod function.toNat 3
  have hmul : ∀ (x : UInt32) (k : Nat), (UInt32.ofNat k).toNat = k → x.toNat * k < 2 ^ 32 →
      (x * UInt32.ofNat k).toNat = x.toNat * k := by
    intro x k hk hlt
    rw [UInt32.toNat_mul, hk, Nat.mod_eq_of_lt hlt]
  have hbusOff := hmul bus.toUInt32 0x100000 rfl (by rw [UInt8.toNat_toUInt32]; omega)
  have hdevOff := hmul (device.toUInt32 &&& 0x1F) 0x8000 rfl (by omega)
  have hfuncOff := hmul (function.toUInt32 &&& 0x07) 0x1000 rfl (by omega)
  rw [UInt8.toNat_toUInt32] at hbusOff
  show (bus.toUInt32 * UInt32.ofNat 0x100000 + (device.toUInt32 &&& 0x1F) * UInt32.ofNat 0x8000 +
    (function.toUInt32 &&& 0x07) * UInt32.ofNat 0x1000 + reg.toUInt32).toNat = _
  rw [UInt32.toNat_add, UInt32.toNat_add, UInt32.toNat_add, hbusOff, hdevOff, hfuncOff, hdevice, hfunction,
    UInt8.toNat_toUInt32]
  omega

theorem PciDevice.base_toNat (d : PciDevice) : d.base.toNat =
    d.bus.toNat * 2 ^ 20 + d.device.toNat % 32 * 2 ^ 15 + d.function.toNat % 8 * 2 ^ 12 := by
  rw [PciDevice.base, ecamOffset_toNat, UInt8.toNat_zero, Nat.add_zero]

theorem PciDevice.reg_toNat (d : PciDevice) (hb : b < 6) : (d.reg b).toNat = d.base.toNat + 16 + 4 * b := by
  have hreg : ∀ b < 6, (0x10 + UInt8.ofNat b * 4).toNat = 16 + 4 * b := by decide
  rw [PciDevice.reg, ecamOffset_toNat, d.base_toNat, hreg b hb]
  omega

/-- The registers of devices with config spaces of their own are not the same. -/
theorem PciDevice.reg_inj {b' : Nat} (hb : b < 6) (hb' : b' < 6) (h : d.reg b = d'.reg b') : d.base = d'.base ∧
    b = b' := by
  have heq := congrArg UInt32.toNat h
  rw [d.reg_toNat hb, d'.reg_toNat hb', d.base_toNat, d'.base_toNat] at heq
  rw [← UInt32.toNat_inj, d.base_toNat, d'.base_toNat]
  omega

theorem PciDevice.reg_succ (d : PciDevice) (hb : b + 1 < 6) : d.reg b + 4 = d.reg (b + 1) := by
  have hfour : (4 : UInt32).toNat = 4 := rfl
  have hbase := d.base_toNat
  have hbus := d.bus.toNat_lt
  rw [← UInt32.toNat_inj, UInt32.toNat_add, d.reg_toNat (by omega), d.reg_toNat hb, hfour]
  omega

/-- The registers that have the address of the range. -/
def BarRange.Uses (r : BarRange) (o : UInt32) : Prop := o = r.reg ∨ r.wide = true ∧ o = r.reg + 4

/-! ## One register -/

/-- What holds of the ranges and of config space. -/
structure AssignInv (hw : PciHw) (base : UInt32) (config₀ : ConfigSpace) (s : PciAssign) : Prop where
  ok : ∀ r ∈ s.assigned, r.Ok hw
  bumped : Bumped (fun r : BarRange => r.start.toNat) (fun r => r.start.toNat + r.size.toNat) base.toNat s.cursor.toNat
    s.assigned
  base : base.toNat ≤ s.cursor.toNat
  holds : ∀ r ∈ s.assigned, s.config r.reg = r.start ||| (hw r.reg).fixed ∧ (r.wide = true → s.config (r.reg + 4) = 0)
  kept : ∀ o, (∀ r ∈ s.assigned, ¬ r.Uses o) → s.config o = config₀ o

/-- What holds before register `b` of a device. -/
structure BarInv (hw : PciHw) (base : UInt32) (config₀ : ConfigSpace) (b : Nat) (d : PciDevice) (s : PciAssign) :
    Prop where
  assign : AssignInv hw base config₀ s
  conforming : ∀ b' : Fin 6, b ≤ b'.val → d.Conforming hw b'
  agree : ∀ b : Fin 6, s.config (d.reg b) = d.bar b
  fresh : ∀ r ∈ s.assigned, ∀ b' : Fin 6, b ≤ b'.val → ¬ r.Uses (d.reg b')

/-- What a device keeps of the others. -/
structure OwnRegs (d d' : PciDevice) (s s' : PciAssign) : Prop where
  place : d'.bus = d.bus ∧ d'.device = d.device ∧ d'.function = d.function
  config : ∀ o, (∀ b : Fin 6, o ≠ d.reg b) → s'.config o = s.config o
  assigned : ∀ r ∈ s'.assigned, r ∈ s.assigned ∨ ∀ o, r.Uses o → ∃ b : Fin 6, o = d.reg b

theorem OwnRegs.refl (d : PciDevice) (s : PciAssign) : OwnRegs d d s s :=
    ⟨⟨rfl, rfl, rfl⟩, fun _ _ => rfl, fun _ => .inl⟩

theorem OwnRegs.reg (h : OwnRegs d d' s s') (b : Nat) : d'.reg b = d.reg b := by
  obtain ⟨⟨hbus, hdevice, hfunction⟩, -, -⟩ := h
  rw [PciDevice.reg, PciDevice.reg, hbus, hdevice, hfunction]

theorem OwnRegs.trans {d'' : PciDevice} {s'' : PciAssign} (h : OwnRegs d d' s s') (h' : OwnRegs d' d'' s' s'') :
    OwnRegs d d'' s s'' := by
  have hreg := h.reg
  obtain ⟨⟨hbus, hdevice, hfunction⟩, hconfig, hassigned⟩ := h
  obtain ⟨⟨hbus', hdevice', hfunction'⟩, hconfig', hassigned'⟩ := h'
  refine ⟨⟨hbus'.trans hbus, hdevice'.trans hdevice, hfunction'.trans hfunction⟩, fun o ho => ?_, fun r hr => ?_⟩
  · have hother : ∀ b : Fin 6, o ≠ d'.reg b := by
      intro b
      rw [hreg b]
      exact ho b
    exact (hconfig' o hother).trans (hconfig o ho)
  · rcases hassigned' r hr with hr' | hown
    · exact hassigned r hr'
    · exact .inr fun o ho => (hown o ho).imp fun b hb => hb.trans (hreg b)

/-- A range of which the registers are not those of earlier ones. -/
theorem AssignInv.push (h : AssignInv hw base config₀ s) (hok : range.Ok hw)
    (habove : s.cursor.toNat ≤ range.start.toNat)
    {config : ConfigSpace} (hfresh : ∀ r ∈ s.assigned, ∀ o, range.Uses o → ¬ r.Uses o)
    (hother : ∀ o, ¬ range.Uses o → config o = s.config o)
    (hholds : config range.reg = range.start ||| (hw range.reg).fixed ∧
      (range.wide = true → config (range.reg + 4) = 0)) :
    AssignInv hw base config₀ ⟨config, range.start + range.size, s.assigned ++ [range]⟩ := by
  have hcursor : (range.start + range.size).toNat = range.start.toNat + range.size.toNat := by
    rw [UInt32.toNat_add, Nat.mod_eq_of_lt hok.inside]
  refine ⟨?_, ?_, ?_, ?_, ?_⟩
  · exact List.forall_mem_append.mpr ⟨h.ok, List.forall_mem_singleton.mpr hok⟩
  · dsimp only
    rw [hcursor]
    exact h.bumped.push h.base habove (Nat.le_add_right ..)
  · dsimp only
    have := h.base
    omega
  · refine List.forall_mem_append.mpr ⟨fun r hr => ?_, List.forall_mem_singleton.mpr hholds⟩
    have hkeep : ∀ o, r.Uses o → config o = s.config o := fun o ho => hother o fun hrange => hfresh r hr o hrange ho
    obtain ⟨hreg, hupper⟩ := h.holds r hr
    exact ⟨(hkeep _ (.inl rfl)).trans hreg, fun hwide => (hkeep _ (.inr ⟨hwide, rfl⟩)).trans (hupper hwide)⟩
  · intro o ho
    obtain ⟨hold, hnew⟩ := List.forall_mem_append.mp ho
    exact (hother o (hnew range (List.mem_singleton_self _))).trans (h.kept o hold)

/-- What holds after a range was given to registers of the device. -/
theorem BarInv.push {next : Nat} {config : ConfigSpace} {bar : Fin 6 → UInt32} (h : BarInv hw base config₀ b d s)
    (hok : range.Ok hw) (habove : s.cursor.toNat ≤ range.start.toNat)
    (hown : ∀ o, range.Uses o → ∃ b' : Fin 6, b ≤ b'.val ∧ b'.val < next ∧ o = d.reg b')
    (hother : ∀ o, ¬ range.Uses o → config o = s.config o)
    (hbar : ∀ b' : Fin 6, ¬ range.Uses (d.reg b') → bar b' = d.bar b')
    (huse : ∀ b' : Fin 6, range.Uses (d.reg b') → config (d.reg b') = bar b')
    (hholds : config range.reg = range.start ||| (hw range.reg).fixed ∧
      (range.wide = true → config (range.reg + 4) = 0))
    (hnext : b ≤ next) :
    BarInv hw base config₀ next { d with bar } ⟨config, range.start + range.size, s.assigned ++ [range]⟩ ∧
      OwnRegs d { d with bar } s ⟨config, range.start + range.size, s.assigned ++ [range]⟩ := by
  have hbehind : ∀ b' : Fin 6, next ≤ b'.val → ¬ range.Uses (d.reg b') := by
    intro b' hle huses
    obtain ⟨b'', -, hlt, heq⟩ := hown _ huses
    have := (PciDevice.reg_inj b'.isLt b''.isLt heq).2
    omega
  have hfresh : ∀ r ∈ s.assigned, ∀ o, range.Uses o → ¬ r.Uses o := by
    intro r hr o huses
    obtain ⟨b', hle, -, rfl⟩ := hown o huses
    exact h.fresh r hr b' hle
  refine ⟨⟨h.assign.push hok habove hfresh hother hholds, fun b' hle hzero => ?_, fun b' => ?_, ?_⟩, ⟨rfl, rfl, rfl⟩,
    ?_, ?_⟩
  · have hsame := hbar b' (hbehind b' hle)
    dsimp only at hzero
    rw [hsame] at hzero
    obtain ⟨hkind, hstore⟩ := h.conforming b' (Nat.le_trans hnext hle) hzero
    refine ⟨?_, by dsimp only; rw [hsame]; exact hstore⟩
    cases hkind with
    | unimplemented hnone => exact .unimplemented hnone
    | mem32 k type hmem htype => exact .mem32 k type hmem htype
    | mem64 k type hmem htype hlast hupper => exact .mem64 k type hmem htype hlast hupper
    | upper k type hmem htype hprev hupper => exact .upper k type hmem htype hprev hupper
  · by_cases huses : range.Uses (d.reg b')
    · exact huse b' huses
    · exact (hother _ huses).trans ((h.agree b').trans (hbar b' huses).symm)
  · exact List.forall_mem_append.mpr ⟨fun r hr b' hle => h.fresh r hr b' (Nat.le_trans hnext hle),
      fun r hr b' hle => List.mem_singleton.mp hr ▸ hbehind b' hle⟩
  · intro o ho
    refine hother o fun huses => ?_
    obtain ⟨b', -, -, heq⟩ := hown o huses
    exact ho b' heq
  · intro r hr
    rcases List.mem_append.mp hr with hr | hr
    · exact .inl hr
    · rw [List.mem_singleton.mp hr]
      exact .inr fun o huses => (hown o huses).imp fun b' hb' => hb'.2.2

/-- One register keeps what holds before it. -/
theorem assignBar_inv (hb : b < 6) (h : BarInv hw base config₀ b d s) :
    BarInv hw base config₀ (assignBar hw ⟨b, hb⟩ d s).2.2 (assignBar hw ⟨b, hb⟩ d s).1 (assignBar hw ⟨b, hb⟩ d s).2.1 ∧
      OwnRegs d (assignBar hw ⟨b, hb⟩ d s).1 s (assignBar hw ⟨b, hb⟩ d s).2.1 := by
  rcases assignBar_cases (b := ⟨b, hb⟩) (h.agree ⟨b, hb⟩)
    (h.conforming ⟨b, hb⟩ (Nat.le_refl _)) with hskip | ⟨range, hrange⟩
  · rw [hskip]
    exact ⟨⟨h.assign, fun b' hle => h.conforming b' (Nat.le_of_succ_le hle), h.agree,
      fun r hr b' hle => h.fresh r hr b' (Nat.le_of_succ_le hle)⟩, .refl d s⟩
  obtain ⟨hreg, hok, habove, hnarrow, hwide⟩ := hrange
  dsimp only at hreg hnarrow hwide
  have hne : ∀ b' : Fin 6, d.reg b' = d.reg b → b' = ⟨b, hb⟩ := fun b' heq =>
    Fin.ext (PciDevice.reg_inj b'.isLt hb heq).2
  cases hw' : range.wide with
  | false =>
    have huses : ∀ o, range.Uses o ↔ o = d.reg b := by
      intro o
      simp [BarRange.Uses, hw', hreg]
    rw [hnarrow hw']
    refine h.push hok habove (fun o ho => ⟨⟨b, hb⟩, (Nat.le_refl _), Nat.lt_succ_self b, (huses o).mp ho⟩)
      (fun o ho => ?_)
      (fun b' ho => ?_) (fun b' ho => ?_) ⟨?_, fun h => ?_⟩ (Nat.le_succ b)
    · exact Function.update_of_ne (fun heq => ho ((huses o).mpr heq)) ..
    · exact Function.update_of_ne (fun heq => ho ((huses _).mpr (by rw [heq]))) ..
    · have heq := (huses _).mp ho
      rw [heq, Function.update_self, hne b' heq, Function.update_self]
    · rw [hreg, Function.update_self]
    · rw [hw'] at h
      cases h
  | true =>
    obtain ⟨hlast, hrun⟩ := hwide hw'
    have hsucc : (Fin.ofNat 6 (b + 1)).val = b + 1 := Nat.mod_eq_of_lt hlast
    have huses : ∀ o, range.Uses o ↔ o = d.reg b ∨ o = d.reg (b + 1) := by
      intro o
      rw [BarRange.Uses, hreg, d.reg_succ hlast, hw']
      simp
    have hdiff : d.reg b ≠ d.reg (b + 1) := fun heq => by
      have := (PciDevice.reg_inj hb hlast heq).2
      omega
    have hne' : ∀ b' : Fin 6, d.reg b' = d.reg (b + 1) → b' = Fin.ofNat 6 (b + 1) := fun b' heq =>
      Fin.ext ((PciDevice.reg_inj b'.isLt hlast heq).2.trans hsucc.symm)
    rw [hrun]
    refine h.push hok habove (fun o ho => ?_) (fun o ho => ?_) (fun b' ho => ?_) (fun b' ho => ?_) ⟨?_, fun _ => ?_⟩
      (Nat.le_add_right b 2)
    · rcases (huses o).mp ho with rfl | rfl
      · exact ⟨⟨b, hb⟩, (Nat.le_refl _), Nat.lt_add_of_pos_right (by decide), rfl⟩
      · exact ⟨⟨b + 1, hlast⟩, Nat.le_succ b, Nat.lt_succ_self _, rfl⟩
    · rw [huses, not_or] at ho
      rw [Function.update_of_ne ho.2, Function.update_of_ne ho.1]
    · rw [huses, not_or] at ho
      rw [Function.update_of_ne (fun heq => ho.2 (by rw [heq, hsucc])),
        Function.update_of_ne fun heq => ho.1 (by rw [heq])]
    · rcases (huses _).mp ho with heq | heq
      · have hb' := hne b' heq
        subst hb'
        have hfin : (⟨b, hb⟩ : Fin 6) ≠ Fin.ofNat 6 (b + 1) := fun h => by
          have := congrArg Fin.val h
          rw [hsucc] at this
          dsimp only at this
          omega
        rw [Function.update_of_ne hdiff, Function.update_self, Function.update_of_ne hfin, Function.update_self]
      · rw [heq, Function.update_self, hne' b' heq, Function.update_self]
    · rw [hreg, Function.update_of_ne hdiff, Function.update_self]
    · rw [hreg, d.reg_succ hlast, Function.update_self]

/-! ## One device -/

theorem assignFrom_inv (h : BarInv hw base config₀ b d s) :
    BarInv hw base config₀ 6 (assignFrom hw b d s).1 (assignFrom hw b d s).2 ∧
      OwnRegs d (assignFrom hw b d s).1 s (assignFrom hw b d s).2 := by
  induction b, d, s using assignFrom.induct hw with
  | case1 b d s hb ih =>
    obtain ⟨hinv, hown⟩ := assignBar_inv hb h
    obtain ⟨hlast, hrest⟩ := ih hinv
    rw [assignFrom, dif_pos hb]
    exact ⟨hlast, hown.trans hrest⟩
  | case2 b d s hb =>
    rw [assignFrom, dif_neg hb]
    exact ⟨⟨h.assign, fun b' hle => absurd b'.isLt (Nat.not_lt.mpr hle), h.agree,
      fun r hr b' hle => absurd b'.isLt (Nat.not_lt.mpr hle)⟩, .refl d s⟩

/-! ## All devices -/

/-- Devices with config spaces of their own, as `pci_enumerate` has read them, whose registers without an address are
conforming. -/
structure Enumerated (hw : PciHw) (config : ConfigSpace) (devices : List PciDevice) : Prop where
  distinct : devices.Pairwise fun d d' => d.base ≠ d'.base
  agree : ∀ d ∈ devices, ∀ b : Fin 6, config (d.reg b) = d.bar b
  conforming : ∀ d ∈ devices, ∀ b, d.Conforming hw b

/-- What holds of a list of devices after the assignment. -/
structure DevicesInv (hw : PciHw) (base : UInt32) (config₀ : ConfigSpace) (devices devices' : List PciDevice)
    (s s' : PciAssign) : Prop where
  assign : AssignInv hw base config₀ s'
  places : devices'.map PciDevice.base = devices.map PciDevice.base
  agree : ∀ d ∈ devices', ∀ b : Fin 6, s'.config (d.reg b) = d.bar b
  config : ∀ o, (∀ d ∈ devices, ∀ b : Fin 6, o ≠ d.reg b) → s'.config o = s.config o
  owned : ∀ r ∈ s'.assigned, r ∈ s.assigned ∨ ∃ d ∈ devices, ∀ o, r.Uses o → ∃ b : Fin 6, o = d.reg b

theorem assignDevices_inv (h : AssignInv hw base config₀ s) (hlist : Enumerated hw s.config devices)
    (hfresh : ∀ r ∈ s.assigned, ∀ d ∈ devices, ∀ b : Fin 6, ¬ r.Uses (d.reg b)) :
    DevicesInv hw base config₀ devices (assignDevices hw devices s).1 s (assignDevices hw devices s).2 := by
  induction devices generalizing s with
  | nil => exact ⟨h, rfl, by simp [assignDevices], fun _ _ => rfl, fun _ hr => .inl hr⟩
  | cons d devices ih =>
    obtain ⟨hdistinct, hrest⟩ := List.pairwise_cons.mp hlist.distinct
    obtain ⟨hagree, hagrees⟩ := List.forall_mem_cons.mp hlist.agree
    obtain ⟨hconf, hconfs⟩ := List.forall_mem_cons.mp hlist.conforming
    have hother : ∀ d' ∈ devices, ∀ b b' : Fin 6, d'.reg b ≠ d.reg b' := fun d' hd' b b' heq =>
      hdistinct d' hd' (PciDevice.reg_inj b.isLt b'.isLt heq).1.symm
    obtain ⟨hinv, hown⟩ := assignFrom_inv ⟨h, fun b _ => hconf b, hagree, fun r hr b _ => hfresh r hr d (by simp) b⟩
    generalize hfirst : assignFrom hw 0 d s = first at hinv hown
    have hlater : Enumerated hw first.2.config devices := by
      refine ⟨hrest, fun d' hd' b => ?_, hconfs⟩
      rw [hown.config _ (hother d' hd' b)]
      exact hagrees d' hd' b
    have hfresh' : ∀ r ∈ first.2.assigned, ∀ d' ∈ devices, ∀ b : Fin 6, ¬ r.Uses (d'.reg b) := by
      intro r hr d' hd' b huses
      rcases hown.assigned r hr with hold | hnew
      · exact hfresh r hold d' (List.mem_cons_of_mem d hd') b huses
      · obtain ⟨b', heq⟩ := hnew _ huses
        exact hother d' hd' b b' heq
    obtain ⟨hassign, hplaces, hagree', hconfig, howned⟩ := ih hinv.assign hlater hfresh'
    have hbase : first.1.base = d.base := by
      obtain ⟨⟨hbus, hdevice, hfunction⟩, -, -⟩ := hown
      rw [PciDevice.base, PciDevice.base, hbus, hdevice, hfunction]
    simp only [assignDevices, hfirst]
    refine ⟨hassign, ?_, List.forall_mem_cons.mpr ⟨fun b => ?_, hagree'⟩, fun o ho => ?_, fun r hr => ?_⟩
    · rw [List.map_cons, List.map_cons, hplaces, hbase]
    · rw [hconfig _ fun d' hd' b' heq => hother d' hd' b' b (heq.symm.trans (hown.reg b))]
      exact hinv.agree b
    · obtain ⟨hd, hds⟩ := List.forall_mem_cons.mp ho
      rw [hconfig o hds, hown.config o hd]
    · rcases howned r hr with hfirst | ⟨d', hd', huses⟩
      · exact (hown.assigned r hfirst).imp_right fun huses => ⟨d, by simp, huses⟩
      · exact .inr ⟨d', List.mem_cons_of_mem d hd', huses⟩

/-- The ranges that were assigned, and the other registers. -/
structure AssignsBars (hw : PciHw) (devices : List PciDevice) (base : UInt32) (config : ConfigSpace)
    (devices' : List PciDevice) (s : PciAssign) : Prop where
  /-- Each range is as large as its register says, and at a multiple of its size. -/
  ok : ∀ r ∈ s.assigned, r.Ok hw
  inside : ∀ r ∈ s.assigned, base.toNat ≤ r.start.toNat ∧ r.start.toNat + r.size.toNat ≤ 2 ^ 32
  owned : ∀ r ∈ s.assigned, ∃ d ∈ devices, ∀ o, r.Uses o → ∃ b : Fin 6, o = d.reg b
  disjoint : s.assigned.Pairwise fun a b =>
    a.start.toNat + a.size.toNat ≤ b.start.toNat ∨ b.start.toNat + b.size.toNat ≤ a.start.toNat
  /-- The registers of a range have its address. -/
  holds : ∀ r ∈ s.assigned, s.config r.reg = r.start ||| (hw r.reg).fixed ∧ (r.wide = true → s.config (r.reg + 4) = 0)
  places : devices'.map PciDevice.base = devices.map PciDevice.base
  agree : ∀ d ∈ devices', ∀ b : Fin 6, s.config (d.reg b) = d.bar b
  /-- A memory register that has no address gets one, unless there is no room for its size behind the base or behind a
  range. -/
  given : ∀ d ∈ devices, ∀ b : Fin 6, d.bar b &&& 0xFFFFFFF0 = 0 → ∀ k type, MemBar (hw (d.reg b)) k type →
    (type = 0x0 ∨ type = 0x8 ∨ (type = 0x4 ∨ type = 0xC) ∧ b.val + 1 < 6) →
    (∃ r ∈ s.assigned, r.reg = d.reg b ∧ r.size.toNat = 2 ^ k) ∨
      ∃ c, (c = base.toNat ∨ ∃ r ∈ s.assigned, c = r.start.toNat + r.size.toNat) ∧ 2 ^ 32 ≤ alignTo (2 ^ k) c + 2 ^ k
  /-- A register that is not one of a range holds its value. -/
  skipped : ∀ o, (∀ r ∈ s.assigned, ¬ r.Uses o) → s.config o = config o

theorem pciAssignBars_ranges {config : ConfigSpace} (hlist : Enumerated hw config devices) (base : UInt32) :
    AssignsBars hw devices base config (pciAssignBars hw devices base config).1
      (pciAssignBars hw devices base config).2 := by
  have hstart : AssignInv hw base config ⟨config, base, []⟩ :=
    ⟨by simp, .nil _, Nat.le_refl _, by simp, fun _ _ => rfl⟩
  obtain ⟨hassign, hplaces, hagree, -, howned⟩ := assignDevices_inv hstart hlist (by simp)
  refine ⟨hassign.ok, fun r hr => ?_, fun r hr => (howned r hr).resolve_left (by simp), hassign.bumped.disjoint,
    hassign.holds, hplaces, hagree, fun d hd b hzero k type hmem htype => ?_, hassign.kept⟩
  case refine_2 =>
    rw [pciAssignBars_packs]
    exact barPack_given hd (hlist.conforming d hd) hzero hmem htype
  have hbounds := hassign.bumped.bounds r hr
  exact ⟨hbounds.1, Nat.le_of_lt (hassign.ok r hr).inside⟩

/-- A device with a range of 4 KB, and one of 16 KB with an address of 64 bits. -/
def sampleBars : PciDevice where
  bus := 0
  device := 3
  function := 0
  bar b := if b.val = 2 then 0xC else 0

def sampleHw : PciHw := fun o =>
  if o = sampleBars.reg 0 then ⟨0xFFFFF000, 0⟩
  else if o = sampleBars.reg 2 then ⟨0xFFFFC000, 0xC⟩
  else if o = sampleBars.reg 3 then upperBar
  else ⟨0, 0⟩

theorem sampleBars_conforming : ∀ b, sampleBars.Conforming sampleHw b := by
  intro b _
  refine ⟨?_, by revert b; decide +kernel⟩
  have hother : ∀ n < 6, n ≠ 0 → n ≠ 2 → n ≠ 3 → sampleHw (sampleBars.reg n) = ⟨0, 0⟩ := by decide +kernel
  by_cases h0 : b.val = 0
  · refine .mem32 12 0 ?_ (.inl rfl)
    rw [h0]
    exact ⟨by decide, by decide, by decide +kernel, by decide +kernel⟩
  by_cases h2 : b.val = 2
  · refine .mem64 14 0xC ?_ (.inr rfl) (by omega) ?_
    · rw [h2]
      exact ⟨by decide, by decide, by decide +kernel, by decide +kernel⟩
    · rw [h2]
      decide +kernel
  by_cases h3 : b.val = 3
  · refine .upper 14 0xC ?_ (.inr rfl) (by omega) ?_
    · rw [h3]
      exact ⟨by decide, by decide, by decide +kernel, by decide +kernel⟩
    · rw [h3]
      decide +kernel
  · exact .unimplemented (hother b.val b.isLt h0 h2 h3)

theorem pciAssignBars_ranges_sample : AssignsBars sampleHw [sampleBars] 0x10000000
    (fun o => if o = sampleBars.reg 2 then 0xC else 0)
    (pciAssignBars sampleHw [sampleBars] 0x10000000 fun o => if o = sampleBars.reg 2 then 0xC else 0).1
    (pciAssignBars sampleHw [sampleBars] 0x10000000 fun o => if o = sampleBars.reg 2 then 0xC else 0).2 :=
  pciAssignBars_ranges ⟨List.pairwise_singleton .., by decide +kernel, by simpa using sampleBars_conforming⟩ 0x10000000

end Armonios
