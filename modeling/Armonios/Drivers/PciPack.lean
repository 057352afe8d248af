import Armonios.Drivers.Pci

/-!
# What the registers ask for

Which register asks for a range, and how much it asks for, is written in the devices alone: `PciDevice.ask`. The loop of
`pci_assign_bars` serves the registers as a row of requests (`pciAssignBars_packs`): a request gets the next multiple of
its size, is passed over if there is no room, and hides the register behind it if it has 64 bits.
-/

namespace Armonios

variable {hw : PciHw} {b : Nat} {d d' : PciDevice} {s : PciAssign} {devices : List PciDevice}

/-- A register that asks for a range. -/
structure BarAsk where
  reg : UInt32
  size : UInt32
  wide : Bool
  deriving DecidableEq

/-- A register asks if it has no address yet, and its probe shows a size and a type that the loop handles. -/
def PciDevice.ask (hw : PciHw) (d : PciDevice) (b : Fin 6) : Option BarAsk :=
  let probe := (hw (d.reg b)).store 0xFFFFFFFF
  let memType := probe &&& 0x06
  let size := ~~~(probe &&& 0xFFFFFFF0) + 1
  if d.bar b &&& 0xFFFFFFF0 ≠ 0 then none
  else if probe = 0 ∨ (memType ≠ 0x00 ∧ memType ≠ 0x04) ∨ (memType = 0x04 ∧ 6 ≤ b.val + 1) then none
  else if size = 0 ∨ 0x10000000 < size then none
  else some ⟨d.reg b, size, memType = 0x04⟩

/-- The registers from `b` on. -/
def PciDevice.asksFrom (hw : PciHw) (d : PciDevice) (b : Nat) : List (Option BarAsk) :=
  ((List.finRange 6).drop b).map (d.ask hw)

/-- The registers of all devices, in a row. -/
def barAsks (hw : PciHw) (devices : List PciDevice) : List (Option BarAsk) := devices.flatMap (·.asksFrom hw 0)

/-- The next multiple of the size below 2³², and the end of the range there. -/
def barPlace (cursor : UInt32) (a : BarAsk) : Option (BarRange × UInt32) :=
  let start := (cursor + a.size - 1) &&& ~~~(a.size - 1)
  if 0xFFFFFFFF - (a.size - 1) < cursor ∨ 0xFFFFFFFF - a.size < start then none
  else some (⟨a.reg, start, a.size, a.wide⟩, start + a.size)

/-- The ranges of a row of registers. -/
abbrev barPack := pack barPlace BarAsk.wide

/-- The cursor behind a row of registers. -/
abbrev barPackEnd := packEnd barPlace BarAsk.wide

/-! ## Places -/

/-- Cutting bits off a number takes away no more than they are worth. -/
theorem le_and_not (x m : UInt32) : x.toNat ≤ (x &&& ~~~m).toNat + m.toNat := by
  have hdisjoint : (x.toBitVec &&& m.toBitVec) &&& (x.toBitVec &&& ~~~m.toBitVec) = 0#32 := by
    ext i
    cases hi : m.toBitVec[i] <;> simp [hi]
  have hjoin : (x.toBitVec &&& m.toBitVec) ||| (x.toBitVec &&& ~~~m.toBitVec) = x.toBitVec := by
    rw [← BitVec.and_or_distrib_left, BitVec.or_not_self, BitVec.and_allOnes]
  have hsum := BitVec.toNat_add_of_and_eq_zero hdisjoint
  rw [BitVec.add_eq_or_of_and_eq_zero _ _ hdisjoint, hjoin] at hsum
  have hle : (x.toBitVec &&& m.toBitVec).toNat ≤ m.toNat := by
    rw [BitVec.toNat_and]
    exact Nat.and_le_right
  have hx : x.toBitVec.toNat = x.toNat := rfl
  have hcut : (x.toBitVec &&& ~~~m.toBitVec).toNat = (x &&& ~~~m).toNat := rfl
  omega

theorem barPlace_above {cursor next : UInt32} {a : BarAsk} {range : BarRange}
    (h : barPlace cursor a = some (range, next)) :
    cursor.toNat ≤ range.start.toNat ∧ range.start.toNat ≤ range.start.toNat + range.size.toNat ∧
      range.start.toNat + range.size.toNat = next.toNat := by
  unfold barPlace at h
  dsimp only at h
  split at h
  · cases h
  rename_i hroom
  rw [not_or, UInt32.not_lt, UInt32.not_lt, UInt32.le_iff_toNat_le, UInt32.le_iff_toNat_le] at hroom
  obtain ⟨hcursor, hend⟩ := hroom
  cases h
  have hmax : (0xFFFFFFFF : UInt32).toNat = 2 ^ 32 - 1 := rfl
  have hsub : ∀ x : UInt32, (0xFFFFFFFF - x).toNat = 2 ^ 32 - 1 - x.toNat := by
    intro x
    have hx := x.toNat_lt
    rw [UInt32.toNat_sub_of_le _ _ (by rw [UInt32.le_iff_toNat_le, hmax]; omega), hmax]
  rw [hsub] at hcursor hend
  have hsize := a.size.toNat_lt
  have hless := (a.size - 1).toNat_lt
  have hsum : (cursor + a.size - 1).toNat = cursor.toNat + (a.size - 1).toNat := by
    have hassoc : cursor + a.size - 1 = cursor + (a.size - 1) := by
      rw [UInt32.sub_eq_add_neg, UInt32.add_assoc, ← UInt32.sub_eq_add_neg]
    rw [hassoc, UInt32.toNat_add, Nat.mod_eq_of_lt (by omega)]
  have hcut := le_and_not (cursor + a.size - 1) (a.size - 1)
  refine ⟨by dsimp only; omega, Nat.le_add_right .., ?_⟩
  dsimp only
  rw [UInt32.toNat_add, Nat.mod_eq_of_lt (by omega)]

/-! ## The loop -/

/-- The devices have the same registers, with the same values from `b` on. -/
structure SameFrom (b : Nat) (d d' : PciDevice) : Prop where
  reg : ∀ b : Nat, d'.reg b = d.reg b
  bar : ∀ b' : Fin 6, b ≤ b'.val → d'.bar b' = d.bar b'

theorem SameFrom.trans {b b' : Nat} {d'' : PciDevice} (h : SameFrom b d d') (h' : SameFrom b' d' d'') (hle : b ≤ b') :
    SameFrom b' d d'' :=
  ⟨fun b => (h'.reg b).trans (h.reg b), fun b'' hb => (h'.bar b'' hb).trans (h.bar b'' (Nat.le_trans hle hb))⟩

/-- Both devices ask for the same. -/
theorem SameFrom.ask {b : Fin 6} (h : SameFrom b d d') : d'.ask hw b = d.ask hw b := by
  unfold PciDevice.ask
  rw [h.reg, h.bar b (Nat.le_refl _)]

/-- What the loop body leaves, with the range that the register got. -/
structure BarTurn (b : Nat) (d : PciDevice) (s : PciAssign) (ranges : List BarRange) (cursor : UInt32) (next : Nat)
    (out : PciDevice × PciAssign × Nat) : Prop where
  same : SameFrom next d out.1
  assigned : out.2.1.assigned = s.assigned ++ ranges
  cursor : out.2.1.cursor = cursor
  next : out.2.2 = next

theorem barTurn_skip (b : Nat) (d : PciDevice) (s : PciAssign) (config : ConfigSpace) :
    BarTurn b d s [] s.cursor (b + 1) (d, { s with config }, b + 1) :=
  ⟨⟨fun _ => rfl, fun _ _ => rfl⟩, (List.append_nil _).symm, rfl, rfl⟩

/-- The loop body serves the register, or leaves it. -/
theorem assignBar_serves (hw : PciHw) (b : Fin 6) (d : PciDevice) (s : PciAssign) :
    ((d.ask hw b).bind (barPlace s.cursor) = none ∧ BarTurn b d s [] s.cursor (b + 1) (assignBar hw b d s)) ∨
      ∃ a range next, d.ask hw b = some a ∧ barPlace s.cursor a = some (range, next) ∧
        (a.wide = true → b.val + 1 < 6) ∧
        BarTurn b d s [range] next (b + if a.wide then 2 else 1) (assignBar hw b d s) := by
  have hprobe : pciConfigRead32 (pciConfigWrite32 hw (d.reg b) 0xFFFFFFFF s.config) (d.reg b) =
      (hw (d.reg b)).store 0xFFFFFFFF := by
    rw [pciConfigRead32, pciConfigWrite32, Function.update_self]
  unfold assignBar PciDevice.ask
  dsimp only
  rw [hprobe]
  generalize (hw (d.reg b)).store 0xFFFFFFFF = probe
  by_cases haddress : d.bar b &&& 0xFFFFFFF0 ≠ 0
  · rw [if_pos haddress, if_pos haddress]
    exact .inl ⟨rfl, barTurn_skip b d s s.config⟩
  rw [if_neg haddress, if_neg haddress]
  by_cases hzero : probe = 0
  · rw [if_pos (.inl hzero), if_pos hzero]
    exact .inl ⟨rfl, barTurn_skip b d s _⟩
  rw [if_neg hzero]
  by_cases htype : probe &&& 0x06 ≠ 0x00 ∧ probe &&& 0x06 ≠ 0x04
  · rw [if_pos (.inr (.inl htype)), if_pos htype]
    exact .inl ⟨rfl, barTurn_skip b d s _⟩
  rw [if_neg htype]
  by_cases hlast : probe &&& 0x06 = 0x04 ∧ 6 ≤ b.val + 1
  · rw [if_pos (.inr (.inr hlast)), if_pos hlast]
    exact .inl ⟨rfl, barTurn_skip b d s _⟩
  rw [if_neg hlast, if_neg (not_or.mpr ⟨hzero, not_or.mpr ⟨htype, hlast⟩⟩)]
  generalize ~~~(probe &&& 0xFFFFFFF0) + 1 = size
  by_cases hsize : size = 0 ∨ 0x10000000 < size
  · rw [if_pos hsize, if_pos hsize]
    exact .inl ⟨rfl, barTurn_skip b d s _⟩
  rw [if_neg hsize, if_neg hsize, Option.bind_some]
  by_cases hroom : 0xFFFFFFFF - (size - 1) < s.cursor
  · rw [if_pos hroom]
    exact .inl ⟨if_pos (.inl hroom), barTurn_skip b d s _⟩
  rw [if_neg hroom]
  by_cases hend : 0xFFFFFFFF - size < (s.cursor + size - 1) &&& ~~~(size - 1)
  · rw [if_pos hend]
    exact .inl ⟨if_pos (.inr hend), barTurn_skip b d s _⟩
  rw [if_neg hend]
  refine .inr ⟨_, _, _, rfl, if_neg (not_or.mpr ⟨hroom, hend⟩), ?_⟩
  by_cases hwide : probe &&& 0x06 = 0x04
  · have hb : b.val + 1 < 6 := Nat.lt_of_not_le fun hle => hlast ⟨hwide, hle⟩
    have hflag : decide (probe &&& 0x06 = 0x04) = true := decide_eq_true hwide
    rw [if_pos (c := probe &&& 0x06 = 0x04 ∧ b.val + 1 < 6) ⟨hwide, hb⟩]
    simp only [hflag]
    refine ⟨fun _ => hb, ⟨fun _ => rfl, fun b' hle => ?_⟩, rfl, rfl, rfl⟩
    have hsucc : (Fin.ofNat 6 (b.val + 1)).val = b.val + 1 := Nat.mod_eq_of_lt hb
    dsimp only
    rw [Function.update_of_ne (fun h => ?_), Function.update_of_ne (fun h => ?_)]
    · rw [h] at hle
      simp only [if_true] at hle
      omega
    · have := congrArg Fin.val h
      simp only [if_true] at hle
      omega
  · have hflag : decide (probe &&& 0x06 = 0x04) = false := decide_eq_false hwide
    rw [if_neg (c := probe &&& 0x06 = 0x04 ∧ b.val + 1 < 6) fun h => hwide h.1]
    simp only [hflag]
    refine ⟨fun h => absurd h Bool.false_ne_true, ⟨fun _ => rfl, fun b' hle => ?_⟩, rfl, rfl, rfl⟩
    dsimp only
    rw [Function.update_of_ne (fun h => ?_)]
    rw [h] at hle
    simp only [Bool.false_eq_true, if_false] at hle
    omega

theorem asksFrom_cons (hb : b < 6) : d.asksFrom hw b = d.ask hw ⟨b, hb⟩ :: d.asksFrom hw (b + 1) := by
  unfold PciDevice.asksFrom
  rw [List.drop_eq_getElem_cons (by rw [List.length_finRange]; exact hb), List.map_cons, List.getElem_finRange]
  rfl

theorem asksFrom_nil (hb : ¬b < 6) : d.asksFrom hw b = [] := by
  unfold PciDevice.asksFrom
  rw [List.drop_eq_nil_of_le (by rw [List.length_finRange]; omega), List.map_nil]

/-- The registers of a device are served in a row. -/
theorem assignFrom_packs (hw : PciHw) (b : Nat) (d : PciDevice) (s : PciAssign) {d₀ : PciDevice}
    (hsame : SameFrom b d₀ d) :
    (assignFrom hw b d s).2.assigned = s.assigned ++ barPack (d₀.asksFrom hw b) ⟨s.cursor, false⟩ ∧
      barPackEnd (d₀.asksFrom hw b) ⟨s.cursor, false⟩ = ⟨(assignFrom hw b d s).2.cursor, false⟩ := by
  induction b, d, s using assignFrom.induct hw generalizing d₀ with
  | case1 b d s hb ih =>
    rw [assignFrom, dif_pos hb, asksFrom_cons hb, ← hsame.ask (b := ⟨b, hb⟩)]
    rcases assignBar_serves hw ⟨b, hb⟩ d s with ⟨hnone, hturn⟩ | ⟨a, range, next, hask, hplace, hwide, hturn⟩
    · have hstep : packStep barPlace BarAsk.wide ⟨s.cursor, false⟩ (d.ask hw ⟨b, hb⟩) = (none, ⟨s.cursor, false⟩) := by
        unfold packStep
        cases hask : d.ask hw ⟨b, hb⟩ with
        | none => rfl
        | some a =>
          rw [hask, Option.bind_some] at hnone
          simp [hnone]
      have hrest := ih (hsame.trans (hturn.next ▸ hturn.same) (hturn.next ▸ Nat.le_succ b))
      rw [hturn.assigned, hturn.cursor, hturn.next, List.append_nil] at hrest
      rw [hturn.next, barPack, barPackEnd, pack, packEnd, hstep]
      exact hrest
    · have hstep : packStep barPlace BarAsk.wide ⟨s.cursor, false⟩ (d.ask hw ⟨b, hb⟩) =
          (some range, ⟨next, a.wide⟩) := by
        unfold packStep
        rw [hask]
        simp [hplace]
      have hle : b ≤ b + if a.wide then 2 else 1 := Nat.le_add_right ..
      have hrest := ih (hsame.trans (hturn.next ▸ hturn.same) (hturn.next ▸ hle))
      rw [hturn.assigned, hturn.cursor, hturn.next, List.append_assoc] at hrest
      rw [hturn.next, barPack, barPackEnd, pack, packEnd, hstep]
      cases hw' : a.wide with
      | false =>
        rw [hw'] at hrest
        exact hrest
      | true =>
        -- the next register is hidden
        rw [hw'] at hrest
        rw [asksFrom_cons (hwide hw'), pack, packEnd]
        have hhidden : ∀ r, packStep barPlace BarAsk.wide ⟨next, true⟩ r = (none, ⟨next, false⟩) := by
          intro r
          cases r <;> rfl
        rw [hhidden]
        exact hrest
  | case2 b d s hb =>
    rw [assignFrom, dif_neg hb, asksFrom_nil hb]
    exact ⟨(List.append_nil _).symm, rfl⟩

theorem assignDevices_packs (devices : List PciDevice) (s : PciAssign) :
    (assignDevices hw devices s).2.assigned = s.assigned ++ barPack (barAsks hw devices) ⟨s.cursor, false⟩ := by
  induction devices generalizing s with
  | nil => exact (List.append_nil _).symm
  | cons d devices ih =>
    obtain ⟨hassigned, hend⟩ := assignFrom_packs hw 0 d s ⟨fun _ => rfl, fun _ _ => rfl⟩
    have hrow : barAsks hw (d :: devices) = d.asksFrom hw 0 ++ barAsks hw devices := List.flatMap_cons
    rw [assignDevices, ih, hassigned, hrow, barPack, pack_append, ← List.append_assoc, ← barPackEnd, hend]

/-- The ranges are those of the row of registers. -/
theorem pciAssignBars_packs (hw : PciHw) (devices : List PciDevice) (base : UInt32) (config : ConfigSpace) :
    (pciAssignBars hw devices base config).2.assigned = barPack (barAsks hw devices) ⟨base, false⟩ := by
  rw [pciAssignBars, assignDevices_packs, List.nil_append]

/-! ## Conforming registers -/

variable {k : Nat} {type : UInt32}

theorem MemBar.ne_upper {r : BarReg} (h : MemBar r k type) : r ≠ upperBar := by
  rintro rfl
  have hmask : ∀ k < 29, 4 ≤ k → (0xFFFFFFFF : UInt32) ≠ ~~~(UInt32.ofNat (2 ^ k) - 1) := by decide
  exact hmask k (Nat.lt_succ_of_le h.large) h.small h.mask

/-- Where a size has no place, its next multiple and the range there do not fit below 2³². -/
theorem barPlace_none {cursor reg : UInt32} {wide : Bool} (hk : k ≤ 28)
    (h : barPlace cursor ⟨reg, UInt32.ofNat (2 ^ k), wide⟩ = none) :
    2 ^ 32 ≤ alignTo (2 ^ k) cursor.toNat + 2 ^ k := by
  by_contra hroom
  have hsize := pow_toNat hk
  have hpos := Nat.two_pow_pos k
  have hlarge : 2 ^ k ≤ 2 ^ 28 := Nat.pow_le_pow_right (by decide) hk
  have hfrom := le_alignTo (n := cursor.toNat) hpos
  have hfits : cursor.toNat + (2 ^ k - 1) < 2 ^ 32 := by omega
  have hstart := nextStart_toNat hk hfits
  have hone : (1 : UInt32) ≤ UInt32.ofNat (2 ^ k) := by
    rw [UInt32.le_iff_toNat_le, hsize]
    exact hpos
  have hless : (UInt32.ofNat (2 ^ k) - 1).toNat = 2 ^ k - 1 := by
    rw [UInt32.toNat_sub_of_le _ _ hone, hsize]
    rfl
  have hmax : (0xFFFFFFFF : UInt32).toNat = 2 ^ 32 - 1 := rfl
  have hsub : ∀ x : UInt32, (0xFFFFFFFF - x).toNat = 2 ^ 32 - 1 - x.toNat := by
    intro x
    have hx := x.toNat_lt
    rw [UInt32.toNat_sub_of_le _ _ (by rw [UInt32.le_iff_toNat_le, hmax]; omega), hmax]
  unfold barPlace at h
  rw [if_neg] at h
  · cases h
  rw [not_or, UInt32.not_lt, UInt32.not_lt, UInt32.le_iff_toNat_le, UInt32.le_iff_toNat_le, hsub, hsub, hless, hsize,
    hstart]
  omega

theorem ask_mem {b : Fin 6} (hzero : d.bar b &&& 0xFFFFFFF0 = 0) (hmem : MemBar (hw (d.reg b)) k type)
    (htype : type ∈ ([0x0, 0x8, 0x4, 0xC] : List UInt32)) (hnext : type &&& 0x06 = 0x04 → b.val + 1 < 6) :
    d.ask hw b = some ⟨d.reg b, UInt32.ofNat (2 ^ k), type &&& 0x06 = 0x04⟩ := by
  obtain ⟨hnonzero, -, hmemType, hsize, hsize0, hlarge, -⟩ :=
    probe_bits k (Nat.lt_succ_of_le hmem.large) hmem.small type htype
  have hstore : (hw (d.reg b)).store 0xFFFFFFFF = 0xFFFFFFFF &&& ~~~(UInt32.ofNat (2 ^ k) - 1) ||| type := by
    rw [BarReg.store, hmem.mask, hmem.fixed]
  have hkind : ¬ (type &&& 0x06 ≠ 0x00 ∧ type &&& 0x06 ≠ 0x04) := by
    simp only [List.mem_cons, List.not_mem_nil, or_false] at htype
    rcases htype with rfl | rfl | rfl | rfl <;> decide
  unfold PciDevice.ask
  dsimp only
  rw [if_neg (not_not.mpr hzero), hstore, hmemType, hsize, if_neg (not_or.mpr ⟨hnonzero, not_or.mpr
    ⟨hkind, fun h => Nat.not_le.mpr (hnext h.1) h.2⟩⟩), if_neg (not_or.mpr ⟨hsize0, UInt32.not_lt.mpr hlarge⟩)]

/-- A conforming register that asks for 64 bits has an upper half behind it. -/
theorem ask_wide {b : Fin 6} {a : BarAsk} (hconf : d.Conforming hw b) (hask : d.ask hw b = some a)
    (hwide : a.wide = true) : hw (d.reg (b + 1)) = upperBar := by
  have hzero : d.bar b &&& 0xFFFFFFF0 = 0 := by
    by_contra hne
    unfold PciDevice.ask at hask
    rw [if_pos hne] at hask
    cases hask
  have hnone : ∀ p : UInt32, p = 0 ∨ (p &&& 0x06 ≠ 0x00 ∧ p &&& 0x06 ≠ 0x04) → (hw (d.reg b)).store 0xFFFFFFFF ≠ p := by
    intro p hp hstore
    unfold PciDevice.ask at hask
    dsimp only at hask
    rw [if_neg (not_not.mpr hzero), hstore, if_pos (hp.imp_right .inl)] at hask
    cases hask
  obtain ⟨hkind, -⟩ := hconf hzero
  cases hkind with
  | unimplemented hno => exact absurd (by rw [hno]; rfl) (hnone 0 (.inl rfl))
  | mem32 k type hmem htype =>
    have hmemType : type &&& 0x06 = 0x00 := by rcases htype with rfl | rfl <;> decide
    have htypes : type ∈ ([0x0, 0x8, 0x4, 0xC] : List UInt32) := by rcases htype with rfl | rfl <;> decide
    rw [ask_mem hzero hmem htypes (fun h => by rw [hmemType] at h; cases h)] at hask
    cases hask
    rw [hmemType] at hwide
    cases hwide
  | mem64 k type hmem htype hnext hupper => exact hupper
  | upper k type hmem htype hprev hupper =>
    exact absurd (by rw [hupper]; decide) (hnone 0xFFFFFFFF (.inr (by decide)))

/-- Behind the registers of some devices nothing is hidden. -/
theorem barAsks_seen (devices : List PciDevice) (cursor : UInt32) :
    (barPackEnd (barAsks hw devices) ⟨cursor, false⟩).hidden = false := by
  induction devices generalizing cursor with
  | nil => rfl
  | cons d devices ih =>
    obtain ⟨-, hend⟩ := assignFrom_packs hw 0 d ⟨fun _ => 0, cursor, []⟩ ⟨fun _ => rfl, fun _ _ => rfl⟩
    have hrow : barAsks hw (d :: devices) = d.asksFrom hw 0 ++ barAsks hw devices := List.flatMap_cons
    rw [hrow, barPackEnd, packEnd_append, ← barPackEnd, hend]
    exact ih _

/-- A memory register is not hidden by the registers in front of it. -/
theorem asksFrom_seen {b : Fin 6} (hconf : ∀ b, d.Conforming hw b) (hmem : MemBar (hw (d.reg b)) k type)
    (cursor : UInt32) : (barPackEnd ((d.asksFrom hw 0).take b) ⟨cursor, false⟩).hidden = false := by
  cases hhidden : (barPackEnd ((d.asksFrom hw 0).take b) ⟨cursor, false⟩).hidden with
  | false => rfl
  | true =>
    obtain ⟨front, a, hfront, hwide⟩ := packEnd_hidden hhidden rfl
    have hlen : (d.asksFrom hw 0).length = 6 := by simp [PciDevice.asksFrom]
    have hlength := congrArg List.length hfront
    have hb := b.isLt
    rw [List.length_take, hlen, List.length_append, List.length_singleton] at hlength
    -- the register in front is the one that hides
    have hlast := congrArg (fun l => l[front.length]?) hfront
    have hget : (d.asksFrom hw 0)[front.length]? = some (d.ask hw ⟨front.length, by omega⟩) := by
      rw [PciDevice.asksFrom, List.drop_zero, List.getElem?_map, List.getElem?_eq_getElem (by simp; omega),
        List.getElem_finRange]
      rfl
    rw [List.getElem?_take_of_lt (by omega), hget, List.getElem?_concat_length, Option.some.injEq] at hlast
    have hupper := ask_wide (hconf _) hlast hwide
    have hnext : b.val = front.length + 1 := by omega
    rw [hnext] at hmem
    exact absurd hupper hmem.ne_upper

/-- A memory register that has no address gets a range, or there is no room for one behind the ranges in front of
it. -/
theorem barPack_given {base : UInt32} {b : Fin 6} (hd : d ∈ devices) (hconf : ∀ b, d.Conforming hw b)
    (hzero : d.bar b &&& 0xFFFFFFF0 = 0) (hmem : MemBar (hw (d.reg b)) k type)
    (htype : type = 0x0 ∨ type = 0x8 ∨ (type = 0x4 ∨ type = 0xC) ∧ b.val + 1 < 6) :
    (∃ r ∈ barPack (barAsks hw devices) ⟨base, false⟩, r.reg = d.reg b ∧ r.size.toNat = 2 ^ k) ∨
      ∃ c, (c = base.toNat ∨
        ∃ r ∈ barPack (barAsks hw devices) ⟨base, false⟩, c = r.start.toNat + r.size.toNat) ∧
        2 ^ 32 ≤ alignTo (2 ^ k) c + 2 ^ k := by
  obtain ⟨before, after, rfl⟩ := List.append_of_mem hd
  have hask := ask_mem hzero hmem (by rcases htype with rfl | rfl | ⟨rfl | rfl, -⟩ <;> decide) fun h => by
    rcases htype with rfl | rfl | ⟨-, hnext⟩
    · cases h
    · cases h
    · exact hnext
  -- the registers in front of this one
  let front := barAsks hw before ++ (d.asksFrom hw 0).take b
  have hrow : barAsks hw (before ++ d :: after) = front ++ d.ask hw b ::
      ((d.asksFrom hw 0).drop (b + 1) ++ barAsks hw after) := by
    have hget : (d.asksFrom hw 0).drop b = d.ask hw b :: (d.asksFrom hw 0).drop (b + 1) := by
      have hlen : b.val < (d.asksFrom hw 0).length := by simp [PciDevice.asksFrom]
      rw [List.drop_eq_getElem_cons hlen]
      simp [PciDevice.asksFrom]
    unfold front barAsks
    rw [List.flatMap_append, List.flatMap_cons, List.append_assoc, ← List.cons_append, ← hget, ← List.append_assoc
      (List.take _ _), List.take_append_drop]
  have hseen : (barPackEnd front ⟨base, false⟩).hidden = false := by
    have hbefore : (packEnd barPlace BarAsk.wide (barAsks hw before) ⟨base, false⟩).hidden = false :=
      barAsks_seen before base
    rw [barPackEnd, packEnd_append]
    generalize packEnd barPlace BarAsk.wide (barAsks hw before) ⟨base, false⟩ = s at hbefore ⊢
    obtain ⟨cursor, hidden⟩ := s
    cases hbefore
    exact asksFrom_seen hconf hmem cursor
  rw [hask] at hrow
  cases hplace : barPlace (barPackEnd front ⟨base, false⟩).cursor
      ⟨d.reg b, UInt32.ofNat (2 ^ k), type &&& 0x06 = 0x04⟩ with
  | some out =>
    refine .inl ⟨out.1, mem_pack.mpr ⟨front, _, _, out.2, hrow, hseen, hplace⟩, ?_⟩
    unfold barPlace at hplace
    dsimp only at hplace
    split at hplace
    · cases hplace
    · cases hplace
      exact ⟨rfl, pow_toNat hmem.large⟩
  | none =>
    refine .inr ⟨(barPackEnd front ⟨base, false⟩).cursor.toNat, ?_, barPlace_none hmem.large hplace⟩
    rcases packEnd_cursor BarAsk.wide UInt32.toNat (fun r : BarRange => r.start.toNat + r.size.toNat) front
      ⟨base, false⟩ fun _ _ _ _ h => (barPlace_above h).2.2 with hbase | ⟨r, hr, hstop⟩
    · exact .inl (congrArg UInt32.toNat hbase)
    · refine .inr ⟨r, ?_, hstop.symm⟩
      rw [hrow, barPack, pack_append]
      exact List.mem_append_left _ hr

end Armonios
