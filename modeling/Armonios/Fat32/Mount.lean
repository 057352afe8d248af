import Armonios.Fat32.Volume

/-!
# Mounting

`fat32_mount` with `g_fat32_default_fs`. The start of the data area is a sum of fields of the boot sector, which the
driver computes modulo `2^32`.

* `fat32Mount_spec`: which boot sectors are accepted, and the geometry that they give;
* `fat32Mount_consistent`: when that geometry is one of the whole numbers.
-/

namespace Armonios

/-- The sectors of the volume that the boot sector gives. -/
def bootTotal (s : Sector) : Nat := if le16 s 19 = 0 then le32 s 32 else le16 s 19

/-- The sectors before the data area, as a whole number. -/
def bootDataStart (s : Sector) : Nat := le16 s 14 + (s.byte 16).toNat * le32 s 36

/-- The tests of single fields. -/
structure BootChecked (s : Sector) : Prop where
  bytesPerSector : le16 s 11 = 512
  sectorsPerCluster : (s.byte 13).toNat ≠ 0
  reserved : le16 s 14 ≠ 0
  fatCount : (s.byte 16).toNat ≠ 0
  rootEntries : le16 s 17 = 0
  totalSectors : bootTotal s ≠ 0
  sectorsPerFat : le32 s 36 ≠ 0
  rootCluster : 2 ≤ le32 s 44

/-- The geometry of an accepted boot sector. -/
def bootGeometry (s : Sector) : Fat32Fs where
  bytesPerSector := le16 s 11
  sectorsPerCluster := (s.byte 13).toNat
  reservedSectors := le16 s 14
  fatCount := (s.byte 16).toNat
  sectorsPerFat := le32 s 36
  totalSectors := bootTotal s
  fatStartLba := le16 s 14
  dataStartLba := bootDataStart s % 2 ^ 32
  rootCluster := le32 s 44
  mounted := true
  writable := false

/-- The tests of `fat32_mount`. -/
structure BootAccepted (s : Sector) : Prop where
  checked : BootChecked s
  range : bootDataStart s % 2 ^ 32 < bootTotal s

theorem bootChecked_iff {s : Sector} : BootChecked s ↔
    ¬ (le16 s 11 ≠ 512 ∨ (s.byte 13).toNat = 0 ∨ le16 s 14 = 0 ∨ (s.byte 16).toNat = 0 ∨ le16 s 17 ≠ 0 ∨
      bootTotal s = 0 ∨ le32 s 36 = 0 ∨ le32 s 44 < 2) := by
  constructor
  · intro h
    have h1 := h.bytesPerSector
    have h2 := h.sectorsPerCluster
    have h3 := h.reserved
    have h4 := h.fatCount
    have h5 := h.rootEntries
    have h6 := h.totalSectors
    have h7 := h.sectorsPerFat
    have h8 := h.rootCluster
    omega
  · intro h
    simp only [not_or, not_not, not_lt] at h
    exact ⟨h.1, h.2.1, h.2.2.1, h.2.2.2.1, h.2.2.2.2.1, h.2.2.2.2.2.1, h.2.2.2.2.2.2.1, h.2.2.2.2.2.2.2⟩

theorem fat32Mount_spec (d : Dev) : Wp fat32Mount d
    (fun fs _ => BootAccepted (d.disk 0) ∧ fs = bootGeometry (d.disk 0))
    (fun _ _ => d.fault ≠ none ∨ ¬ BootAccepted (d.disk 0)) := by
  unfold fat32Mount
  refine wp_bind.mpr (wp_callback (fun d₁ hdisk _ => ?_) fun d₁ _ hstop => ?_)
  · refine wp_bind.mpr (wp_get.mpr ?_)
    simp only []
    rw [hdisk]
    refine wp_ite (fun hbad => .inr fun h => ?_) fun hok => ?_
    · exact bootChecked_iff.mp h.checked hbad
    refine wp_ite (fun hbad => .inr fun h => ?_) fun hrange => ?_
    · exact absurd h.range (Nat.not_lt.mpr hbad)
    · exact ⟨⟨bootChecked_iff.mpr hok, Nat.lt_of_not_le hrange⟩, rfl⟩
  · refine .inl fun hnone => ?_
    rw [fault_none.mpr hnone] at hstop
    exact hstop.refused.1

/-! ## The default file system -/

/-- What `fat32_mount` stores in `*fs` when it returns 0, and `g_fat32_default_fs` afterwards. A null pointer is `none`. -/
def fat32MountDefault {φ : Type} (fs : Option φ) (readSector : Bool) (d : Dev) (default : Option φ) :
    Option Fat32Fs × Option φ :=
  match fs with
  | none => (none, default)
  | some fs =>
    if readSector = false then (none, default)
    else
      match fat32Mount d with
      | .ok geometry _ => (some geometry, some fs)
      | .error _ _ => (none, none)

/-- The FAT copies lie one after the other between the reserved sectors and the data area. -/
structure ConsistentGeometry (fs : Fat32Fs) : Prop where
  start : fs.dataStartLba = fs.reservedSectors + fs.fatCount * fs.sectorsPerFat
  lt : fs.dataStartLba < fs.totalSectors
  copies : ∀ k < fs.fatCount, fs.reservedSectors ≤ fs.fatStartLba + k * fs.sectorsPerFat ∧
    fs.fatStartLba + k * fs.sectorsPerFat + fs.sectorsPerFat ≤ fs.dataStartLba

/-- What a mount should leave: a consistent geometry, or no default file system. -/
def MountsConsistently {φ : Type} (r : Option Fat32Fs × Option φ) : Prop :=
  (∀ fs ∈ r.1, ConsistentGeometry fs) ∧ (r.1 = none → r.2 = none)

theorem consistent_iff {s : Sector} (h : BootAccepted s) : ConsistentGeometry (bootGeometry s) ↔
    bootDataStart s < 2 ^ 32 := by
  constructor
  · intro hc
    have hstart : bootDataStart s % 2 ^ 32 = bootDataStart s := hc.start
    rw [← hstart]
    exact Nat.mod_lt _ (by decide)
  · intro hlt
    have hmod : bootDataStart s % 2 ^ 32 = bootDataStart s := Nat.mod_eq_of_lt hlt
    refine ⟨hmod, h.range, fun k hk => ?_⟩
    have hmul : (k + 1) * le32 s 36 ≤ (s.byte 16).toNat * le32 s 36 := Nat.mul_le_mul_right _ hk
    rw [Nat.add_mul, Nat.one_mul] at hmul
    show le16 s 14 ≤ le16 s 14 + k * le32 s 36 ∧ le16 s 14 + k * le32 s 36 + le32 s 36 ≤ bootDataStart s % 2 ^ 32
    rw [hmod, bootDataStart]
    omega

/-- A mount is consistent, whatever the callback does, exactly if the start of the data area does not wrap in a boot
sector that is accepted, and no default file system is there before a call with a null pointer. -/
theorem fat32Mount_consistent {φ : Type} (fs : Option φ) (readSector : Bool) (disk : Nat → Sector)
    (default : Option φ) :
    (∀ fault, MountsConsistently (fat32MountDefault fs readSector ⟨disk, fault⟩ default)) ↔
      if fs = none ∨ readSector = false then default = none
      else BootAccepted (disk 0) → bootDataStart (disk 0) < 2 ^ 32 := by
  have hnull : fs = none ∨ readSector = false → ∀ d, fat32MountDefault fs readSector d default = (none, default) := by
    rintro h d
    unfold fat32MountDefault
    cases fs with
    | none => rfl
    | some fs => exact if_pos (h.resolve_left (Option.some_ne_none fs))
  by_cases hargs : fs = none ∨ readSector = false
  · rw [if_pos hargs]
    simp only [hnull hargs]
    exact ⟨fun h => (h none).2 rfl, fun h _ => ⟨nofun, fun _ => h⟩⟩
  rw [if_neg hargs]
  rw [not_or, Bool.not_eq_false] at hargs
  obtain ⟨fs, rfl⟩ := Option.ne_none_iff_exists'.mp hargs.1
  have hmount (d : Dev) : fat32MountDefault (some fs) readSector d default =
      match fat32Mount d with
      | .ok geometry _ => (some geometry, some fs)
      | .error _ _ => (none, none) := if_neg (by rw [hargs.2]; decide)
  constructor
  · intro h haccepted
    have hreliable := h none
    rw [hmount] at hreliable
    have hspec := fat32Mount_spec ⟨disk, none⟩
    cases hrun : fat32Mount ⟨disk, none⟩ with
    | ok geometry d' =>
      obtain ⟨-, rfl⟩ := hspec.of_ok hrun
      rw [hrun] at hreliable
      exact (consistent_iff haccepted).mp (hreliable.1 _ rfl)
    | error e d' =>
      rcases hspec.of_error hrun with hno | hno
      · exact absurd rfl hno
      · exact absurd haccepted hno
  · intro h fault
    rw [hmount]
    have hspec := fat32Mount_spec ⟨disk, fault⟩
    cases hrun : fat32Mount ⟨disk, fault⟩ with
    | ok geometry d' =>
      obtain ⟨haccepted, rfl⟩ := hspec.of_ok hrun
      refine ⟨fun fs' hfs' => ?_, nofun⟩
      rw [← Option.mem_some.mp hfs']
      exact (consistent_iff haccepted).mpr (h haccepted)
    | error e d' => exact ⟨nofun, fun _ => rfl⟩

/-- A boot sector with two FAT copies of `2^31` sectors in a volume of 1000 sectors. -/
def wrappingBoot : Sector :=
  (((((Sector.zero.patch 11 (putLe16 512)).patch 13 [1]).patch 14 (putLe16 32)).patch 16 [2]).patch 19
    (putLe16 1000)).patch 36 (putLe32 (2 ^ 31) ++ [0, 0, 0, 0] ++ putLe32 2)

theorem wrappingBoot_mounts : ¬ ∀ fault, MountsConsistently
    (fat32MountDefault (some ()) true ⟨fun _ => wrappingBoot, fault⟩ none) := by
  intro h
  have hstart := ((h none).1 (bootGeometry wrappingBoot) rfl).start
  exact absurd hstart (by decide +kernel)

end Armonios
