import Armonios.Fat32.Driver
import Armonios.Lib.Chain
import Armonios.Lib.Overlay

/-!
# Well-formed volumes

What a FAT32 volume is, as a set of chains: the FAT entry of a cluster (`fatAt`) is its successor,
a live directory entry or the root directory is the head of a chain, and the chains are disjoint
and stay in the data area (`Volume`). The data area is counted in whole numbers, not modulo `2^32`:
a volume with a chain in it has a geometry that does not wrap.

A directory entry behind the end mark counts as live too: `find_free_dir_entry` takes the end mark
without writing a new one, which makes visible what stands behind it.

* `mounted_of_fat32Mount`: what `fat32_mount` checks;
* `InData.lba_inj`: the sectors of two clusters are apart;
* `heads_congr`, `Volume.of_disk`, `Volume.of_data`: what a volume depends on.
-/

namespace Armonios

/-- What `fat32_mount` guarantees of the geometry. -/
structure Mounted (fs : Fat32Fs) : Prop where
  mounted : fs.mounted = true
  cluster_pos : 0 < fs.sectorsPerCluster
  cluster_lt : fs.sectorsPerCluster < 2 ^ 8
  fats_pos : 0 < fs.fatCount
  fat_pos : 0 < fs.sectorsPerFat
  total_lt : fs.totalSectors < 2 ^ 32
  data_start : fs.dataStartLba = (fs.fatStartLba + fs.fatCount * fs.sectorsPerFat) % 2 ^ 32
  root_ge : 2 ≤ fs.rootCluster

theorem mounted_of_fat32Mount {fs : Fat32Fs} {d d' : Dev} (set : Bool)
    (h : fat32Mount d = .ok fs d') : Mounted (fat32SetWriteSector fs set) := by
  have hwp : Wp fat32Mount d (fun fs _ => Mounted (fat32SetWriteSector fs set)) fun _ _ => True := by
    unfold fat32Mount
    refine wp_bind.mpr (wp_callback (fun d1 _ _ => ?_) fun _ _ _ => trivial)
    refine wp_bind.mpr (wp_get.mpr ?_)
    simp only []
    generalize d1.disk 0 = s
    have hb := fun i => (s.byte i).toNat_lt
    refine wp_ite (fun _ => trivial) fun hc => ?_
    simp only [not_or, not_lt] at hc
    refine wp_ite (fun _ => trivial) fun _ => ?_
    have h32 := le32_lt s
    have h16 := le16_lt s
    have htot : (if le16 s 19 = 0 then le32 s 32 else le16 s 19) < 2 ^ 32 := by
      split
      · exact h32 32
      · exact lt_trans (h16 19) (by decide)
    exact ⟨rfl, Nat.pos_of_ne_zero hc.2.1, hb 13, Nat.pos_of_ne_zero hc.2.2.2.1,
      Nat.pos_of_ne_zero hc.2.2.2.2.2.2.1, htot, rfl, hc.2.2.2.2.2.2.2⟩
  exact hwp.of_ok h

/-! ## The data area -/

/-- The first sector after the FAT copies. -/
def dataBase (fs : Fat32Fs) : Nat := fs.fatStartLba + fs.fatCount * fs.sectorsPerFat

/-- The first sector of a cluster. -/
def lbaOf (fs : Fat32Fs) (c : Nat) : Nat := dataBase fs + (c - 2) * fs.sectorsPerCluster

/-- A cluster with an entry in the FAT and its sectors in the data area. -/
structure InData (fs : Fat32Fs) (c : Nat) : Prop where
  ge : 2 ≤ c
  lt : c < clusterBad
  entry : c / 128 < fs.sectorsPerFat
  room : lbaOf fs c + fs.sectorsPerCluster ≤ fs.totalSectors

instance (fs : Fat32Fs) (c : Nat) : Decidable (InData fs c) :=
  decidable_of_iff (2 ≤ c ∧ c < clusterBad ∧ c / 128 < fs.sectorsPerFat ∧
      lbaOf fs c + fs.sectorsPerCluster ≤ fs.totalSectors)
    ⟨fun ⟨h1, h2, h3, h4⟩ => ⟨h1, h2, h3, h4⟩, fun ⟨h1, h2, h3, h4⟩ => ⟨h1, h2, h3, h4⟩⟩

section Geometry

variable {fs : Fat32Fs} {c x : Nat}

/-- The clusters of the data area are an interval. -/
theorem InData.of_le (h : InData fs c) (hx : 2 ≤ x) (hxc : x ≤ c) : InData fs x := by
  refine ⟨hx, lt_of_le_of_lt hxc h.lt, lt_of_le_of_lt (Nat.div_le_div_right hxc) h.entry, ?_⟩
  have hr := h.room
  have hm : (x - 2) * fs.sectorsPerCluster ≤ (c - 2) * fs.sectorsPerCluster :=
    Nat.mul_le_mul_right _ (by omega)
  unfold lbaOf at hr ⊢
  omega

theorem InData.not_eoc (h : InData fs c) : ¬clusterEoc ≤ c := by
  have := h.lt
  simp only [clusterBad, clusterEoc] at this ⊢
  omega

theorem InData.clusterIsEoc (h : InData fs c) : clusterIsEoc c = false :=
  decide_eq_false h.not_eoc

theorem InData.dataBase_le (h : InData fs c) : dataBase fs + fs.sectorsPerCluster ≤ fs.totalSectors := by
  have := h.room
  unfold lbaOf at this
  omega

theorem InData.lba_lt (h : InData fs c) {i : Nat} (hi : i < fs.sectorsPerCluster) :
    lbaOf fs c + i < fs.totalSectors := by
  have := h.room
  omega

theorem dataBase_le_lbaOf (fs : Fat32Fs) (c i : Nat) : dataBase fs ≤ lbaOf fs c + i := by
  unfold lbaOf
  omega

theorem Mounted.clusterToLba (hm : Mounted fs) (h : InData fs c) {i : Nat}
    (hi : i < fs.sectorsPerCluster) : (clusterToLba fs c + i) % 2 ^ 32 = lbaOf fs c + i := by
  have hr := h.room
  have ht := hm.total_lt
  have hd := hm.data_start
  unfold lbaOf dataBase at *
  have h1 : fs.dataStartLba = fs.fatStartLba + fs.fatCount * fs.sectorsPerFat := by
    rw [hd, Nat.mod_eq_of_lt (by omega)]
  unfold Armonios.clusterToLba
  rw [h1, Nat.mod_eq_of_lt (a := _ + _ * _) (by omega), Nat.mod_eq_of_lt (by omega)]

/-- The sectors of two clusters are apart. -/
theorem InData.lba_inj (h : InData fs c) (hx : InData fs x) {i j : Nat}
    (hi : i < fs.sectorsPerCluster) (hj : j < fs.sectorsPerCluster)
    (he : lbaOf fs c + i = lbaOf fs x + j) : c = x ∧ i = j := by
  unfold lbaOf at he
  have he' : (c - 2) * fs.sectorsPerCluster + i = (x - 2) * fs.sectorsPerCluster + j := by omega
  have hq : ∀ a b, b < fs.sectorsPerCluster →
      (a * fs.sectorsPerCluster + b) / fs.sectorsPerCluster = a := by
    intro a b hb
    rw [Nat.mul_comm, Nat.mul_add_div (by omega), Nat.div_eq_of_lt hb, Nat.add_zero]
  have hcx : c - 2 = x - 2 := by rw [← hq (c - 2) i hi, he', hq _ _ hj]
  have := h.ge
  have := hx.ge
  rw [hcx] at he'
  omega

/-- The place of a FAT entry, without wrapping. -/
theorem InData.fatSector (hm : Mounted fs) (h : InData fs c) {k : Nat} (hk : k < fs.fatCount) :
    fatSector fs k c = fs.fatStartLba + k * fs.sectorsPerFat + c / 128 ∧
      fatSector fs k c < dataBase fs := by
  have hb := h.dataBase_le
  have ht := hm.total_lt
  have he := h.entry
  have hlt := h.lt
  have hkm : (k + 1) * fs.sectorsPerFat ≤ fs.fatCount * fs.sectorsPerFat :=
    Nat.mul_le_mul_right _ hk
  rw [Nat.add_mul, Nat.one_mul] at hkm
  simp only [clusterBad] at hlt
  unfold dataBase at hb ⊢
  have h4 : c * 4 % 2 ^ 32 / 512 = c / 128 := by omega
  unfold Armonios.fatSector
  rw [h4, Nat.mod_eq_of_lt (by omega)]
  exact ⟨rfl, by omega⟩

theorem InData.entryOffset (h : InData fs c) : entryOffset c = c % 128 * 4 := by
  have hlt := h.lt
  simp only [clusterBad] at hlt
  unfold Armonios.entryOffset
  omega

theorem InData.entryOffset_le (h : InData fs c) : Armonios.entryOffset c + 4 ≤ 512 := by
  rw [h.entryOffset]
  omega

end Geometry

/-! ## Chains and their contents -/

/-- The FAT entry of a cluster in the copy `k`. -/
def fatAt (fs : Fat32Fs) (disk : Nat → Sector) (k c : Nat) : Nat :=
  le32 (disk (fatSector fs k c)) (entryOffset c) % clusterRange

/-- The driver follows the first copy. -/
abbrev nextOf (fs : Fat32Fs) (disk : Nat → Sector) : Nat → Nat := fatAt fs disk 0

/-- An end-of-chain value. -/
abbrev Eoc (v : Nat) : Prop := clusterEoc ≤ v

/-- All FAT copies are the same, sector for sector. -/
def SameCopies (fs : Fat32Fs) (disk : Nat → Sector) : Prop :=
  ∀ k < fs.fatCount, ∀ i < fs.sectorsPerFat,
    disk (fs.fatStartLba + k * fs.sectorsPerFat + i) = disk (fs.fatStartLba + i)

/-- The sectors of a cluster. -/
def cellLbas (fs : Fat32Fs) (c : Nat) : List Nat :=
  (List.range fs.sectorsPerCluster).map (lbaOf fs c + ·)

/-- The sectors of a chain, in order. -/
def chainLbas (fs : Fat32Fs) (l : List Nat) : List Nat := l.flatMap (cellLbas fs)

/-- The bytes of some sectors, in order. -/
def lbaBytes (disk : Nat → Sector) (lbas : List Nat) : List UInt8 :=
  lbas.flatMap fun lba => (disk lba).bytes

/-- The bytes of a chain. -/
def chainBytes (fs : Fat32Fs) (disk : Nat → Sector) (l : List Nat) : List UInt8 :=
  lbaBytes disk (chainLbas fs l)

section Contents

variable {fs : Fat32Fs} {disk disk' : Nat → Sector} {c lba : Nat} {l m : List Nat}

theorem mem_cellLbas : lba ∈ cellLbas fs c ↔ ∃ i < fs.sectorsPerCluster, lba = lbaOf fs c + i := by
  simp [cellLbas, eq_comm]

theorem mem_chainLbas : lba ∈ chainLbas fs l ↔ ∃ c ∈ l, lba ∈ cellLbas fs c := List.mem_flatMap

theorem dataBase_le_of_mem (h : lba ∈ chainLbas fs l) : dataBase fs ≤ lba := by
  obtain ⟨c, -, h⟩ := mem_chainLbas.mp h
  obtain ⟨i, -, rfl⟩ := mem_cellLbas.mp h
  exact dataBase_le_lbaOf fs c i

theorem lt_total_of_mem (hl : ∀ c ∈ l, InData fs c) (h : lba ∈ chainLbas fs l) :
    lba < fs.totalSectors := by
  obtain ⟨c, hc, h⟩ := mem_chainLbas.mp h
  obtain ⟨i, hi, rfl⟩ := mem_cellLbas.mp h
  exact (hl c hc).lba_lt hi

/-- Chains without a common cluster have no common sector. -/
theorem chainLbas_disjoint (hl : ∀ c ∈ l, InData fs c) (hm : ∀ c ∈ m, InData fs c)
    (hd : ∀ c ∈ l, c ∉ m) (h : lba ∈ chainLbas fs l) : lba ∉ chainLbas fs m := by
  intro h'
  obtain ⟨c, hc, h⟩ := mem_chainLbas.mp h
  obtain ⟨i, hi, rfl⟩ := mem_cellLbas.mp h
  obtain ⟨x, hx, h'⟩ := mem_chainLbas.mp h'
  obtain ⟨j, hj, he⟩ := mem_cellLbas.mp h'
  obtain ⟨rfl, -⟩ := (hl c hc).lba_inj (hm x hx) hi hj he
  exact hd c hc hx

theorem length_lbaBytes (disk : Nat → Sector) (lbas : List Nat) :
    (lbaBytes disk lbas).length = lbas.length * 512 := by
  induction lbas with
  | nil => rfl
  | cons a t ih =>
    show ((disk a).bytes ++ lbaBytes disk t).length = _
    rw [List.length_append, ih, Sector.length_bytes, List.length_cons]
    omega

theorem lbaBytes_congr {lbas : List Nat} (h : ∀ lba ∈ lbas, disk' lba = disk lba) :
    lbaBytes disk' lbas = lbaBytes disk lbas := by
  induction lbas with
  | nil => simp [lbaBytes]
  | cons a t ih =>
    show (disk' a).bytes ++ lbaBytes disk' t = (disk a).bytes ++ lbaBytes disk t
    rw [h a (by simp), ih fun lba hl => h lba (by simp [hl])]

theorem length_cellLbas (fs : Fat32Fs) (c : Nat) : (cellLbas fs c).length = fs.sectorsPerCluster := by
  simp [cellLbas]

theorem length_chainBytes (fs : Fat32Fs) (disk : Nat → Sector) (l : List Nat) :
    (chainBytes fs disk l).length = l.length * clusterBytesOf fs := by
  induction l with
  | nil => simp [chainBytes, chainLbas, lbaBytes]
  | cons c t ih =>
    have e : chainBytes fs disk (c :: t) = lbaBytes disk (cellLbas fs c) ++ chainBytes fs disk t := by
      simp [chainBytes, chainLbas, lbaBytes, List.flatMap_append]
    rw [e, List.length_append, ih, length_lbaBytes, length_cellLbas, List.length_cons, clusterBytesOf,
      Nat.add_mul, Nat.one_mul, Nat.add_comm]

theorem chainBytes_append (fs : Fat32Fs) (disk : Nat → Sector) (l m : List Nat) :
    chainBytes fs disk (l ++ m) = chainBytes fs disk l ++ chainBytes fs disk m := by
  simp [chainBytes, chainLbas, lbaBytes, List.flatMap_append]

theorem chainBytes_cons (fs : Fat32Fs) (disk : Nat → Sector) (c : Nat) (l : List Nat) :
    chainBytes fs disk (c :: l) = lbaBytes disk (cellLbas fs c) ++ chainBytes fs disk l := by
  simp [chainBytes, chainLbas, lbaBytes, List.flatMap_append]

end Contents

/-! ## The root directory and the volume -/

/-- The slots of the root directory with the chain `r`, in the order of a search. -/
def slotsOf (fs : Fat32Fs) (r : List Nat) : List Slot :=
  (chainLbas fs r).flatMap fun lba => entryOffsets.map (Slot.mk lba)

/-- An entry in use that is no part of a long name. -/
def Live (disk : Nat → Sector) (s : Slot) : Prop :=
  entryMark (disk s.lba) s.offset ≠ 0x00 ∧ entryMark (disk s.lba) s.offset ≠ 0xe5 ∧
    entryAttr (disk s.lba) s.offset ≠ attrLongName

instance (disk : Nat → Sector) (s : Slot) : Decidable (Live disk s) :=
  inferInstanceAs (Decidable (_ ∧ _ ∧ _))

abbrev slotFirst (disk : Nat → Sector) (s : Slot) : Nat := entryFirst (disk s.lba) s.offset

abbrev slotSize (disk : Nat → Sector) (s : Slot) : Nat := entrySize (disk s.lba) s.offset

/-- The heads of the chains of a volume: the root directory and every live entry with a first
cluster whose attributes `sel` selects. -/
def heads (fs : Fat32Fs) (sel : UInt8 → Bool) (r : List Nat) (disk : Nat → Sector) :
    Option Slot → Option Nat
  | none => some fs.rootCluster
  | some s =>
    if s ∈ slotsOf fs r ∧ Live disk s ∧ sel (entryAttr (disk s.lba) s.offset) = true ∧
        2 ≤ slotFirst disk s then some (slotFirst disk s) else none

/-- The entries that are files: what `fat32_open_root` can find. -/
def isFile (attr : UInt8) : Bool := attr &&& attrDirectory = 0

/-- A mounted volume with the root directory chain `r`. -/
structure Volume (fs : Fat32Fs) (sel : UInt8 → Bool) (r : List Nat) (disk : Nat → Sector) : Prop where
  geometry : Mounted fs
  root : Chain (nextOf fs disk) Eoc fs.rootCluster r
  family : Family (nextOf fs disk) Eoc (InData fs) (heads fs sel r disk)

section Volume

variable {fs : Fat32Fs} {sel : UInt8 → Bool} {r : List Nat} {disk disk' : Nat → Sector}
  {s t : Slot} {c : Nat} {l : List Nat}

theorem mem_slotsOf : s ∈ slotsOf fs r ↔ s.lba ∈ chainLbas fs r ∧ s.offset ∈ entryOffsets := by
  unfold slotsOf
  rw [List.mem_flatMap]
  constructor
  · rintro ⟨lba, h, hs⟩
    obtain ⟨off, ho, rfl⟩ := List.mem_map.mp hs
    exact ⟨h, ho⟩
  · rintro ⟨h, ho⟩
    exact ⟨s.lba, h, List.mem_map.mpr ⟨s.offset, ho, rfl⟩⟩

theorem mem_entryOffsets {off : Nat} : off ∈ entryOffsets ↔ ∃ i < 16, off = 32 * i := by
  simp [entryOffsets, eq_comm]

theorem offset_le (h : s ∈ slotsOf fs r) : s.offset + 32 ≤ 512 := by
  obtain ⟨i, hi, he⟩ := mem_entryOffsets.mp (mem_slotsOf.mp h).2
  omega

/-- Two slots of one sector are 32 bytes apart. -/
theorem slots_apart (hs : s ∈ slotsOf fs r) (ht : t ∈ slotsOf fs r) (hne : s ≠ t)
    (hl : s.lba = t.lba) : s.offset + 32 ≤ t.offset ∨ t.offset + 32 ≤ s.offset := by
  obtain ⟨i, hi, he⟩ := mem_entryOffsets.mp (mem_slotsOf.mp hs).2
  obtain ⟨j, hj, hf⟩ := mem_entryOffsets.mp (mem_slotsOf.mp ht).2
  have hij : i ≠ j := by
    rintro rfl
    exact hne (by cases s; cases t; simp_all)
  omega

theorem heads_none : heads fs sel r disk none = some fs.rootCluster := rfl

theorem heads_some {a : Nat} : heads fs sel r disk (some s) = some a ↔
    s ∈ slotsOf fs r ∧ Live disk s ∧ sel (entryAttr (disk s.lba) s.offset) = true ∧
      2 ≤ slotFirst disk s ∧ slotFirst disk s = a := by
  show (if _ then some _ else none) = some a ↔ _
  split
  · rename_i h
    simp only [Option.some.injEq]
    exact ⟨fun e => ⟨h.1, h.2.1, h.2.2.1, h.2.2.2, e⟩, fun e => e.2.2.2.2⟩
  · rename_i h
    simp only [reduceCtorEq, false_iff]
    exact fun e => h ⟨e.1, e.2.1, e.2.2.1, e.2.2.2.1⟩

/-- The 32 bytes of an entry are the same on both disks. -/
def SameEntry (disk disk' : Nat → Sector) (s : Slot) : Prop :=
  ∀ i < 32, (disk' s.lba).byte (s.offset + i) = (disk s.lba).byte (s.offset + i)

theorem SameEntry.of_eq (h : disk' s.lba = disk s.lba) : SameEntry disk disk' s := by
  intro i _
  rw [h]

theorem SameEntry.trans {disk'' : Nat → Sector} (h : SameEntry disk disk' s)
    (h' : SameEntry disk' disk'' s) : SameEntry disk disk'' s :=
  fun i hi => (h' i hi).trans (h i hi)

theorem SameEntry.mark (h : SameEntry disk disk' s) :
    entryMark (disk' s.lba) s.offset = entryMark (disk s.lba) s.offset := h 0 (by decide)

theorem SameEntry.attr (h : SameEntry disk disk' s) :
    entryAttr (disk' s.lba) s.offset = entryAttr (disk s.lba) s.offset := h 11 (by decide)

theorem SameEntry.name (h : SameEntry disk disk' s) :
    entryName (disk' s.lba) s.offset = entryName (disk s.lba) s.offset := by
  unfold entryName
  refine List.map_congr_left fun i hi => h i ?_
  have := List.mem_range.mp hi
  omega

theorem SameEntry.first (h : SameEntry disk disk' s) : slotFirst disk' s = slotFirst disk s := by
  unfold slotFirst entryFirst le16
  simp only [Nat.add_assoc]
  rw [h 20 (by decide), h 26 (by decide), h 21 (by decide), h 27 (by decide)]

theorem SameEntry.size (h : SameEntry disk disk' s) : slotSize disk' s = slotSize disk s := by
  unfold slotSize entrySize le32
  simp only [Nat.add_assoc]
  rw [h 28 (by decide), h 29 (by decide), h 30 (by decide), h 31 (by decide)]

theorem SameEntry.live (h : SameEntry disk disk' s) : Live disk' s ↔ Live disk s := by
  unfold Live
  rw [h.mark, h.attr]

theorem heads_congr (h : s ∈ slotsOf fs r → SameEntry disk disk' s) :
    heads fs sel r disk' (some s) = heads fs sel r disk (some s) := by
  by_cases hs : s ∈ slotsOf fs r
  · have h := h hs
    have hf := h.first
    simp only [heads, hs, true_and, h.live, h.attr, hf]
  · simp only [heads, hs, false_and, if_false]

theorem Volume.inData_root (h : Volume fs sel r disk) (hc : c ∈ r) : InData fs c :=
  h.family.ok_of_mem (i := none) rfl h.root hc

theorem Volume.root_ne_nil (h : Volume fs sel r disk) : r ≠ [] := by
  rintro rfl
  exact h.family.start (i := none) rfl h.root.stop_of_nil

/-- The geometry of a volume does not wrap. -/
theorem Volume.dataBase_lt (h : Volume fs sel r disk) : dataBase fs < fs.totalSectors := by
  obtain ⟨c, hc⟩ := List.exists_mem_of_ne_nil r h.root_ne_nil
  have h1 := (h.inData_root hc).dataBase_le
  have h2 := h.geometry.cluster_pos
  omega

theorem Volume.slot_lt (h : Volume fs sel r disk) (hs : s ∈ slotsOf fs r) :
    s.lba < fs.totalSectors :=
  lt_total_of_mem (fun _ hc => h.inData_root hc) (mem_slotsOf.mp hs).1

/-- A file chain has no sector of the root directory. -/
theorem Volume.root_disjoint (h : Volume fs sel r disk)
    (hs : heads fs sel r disk (some s) = some c) (hl : Chain (nextOf fs disk) Eoc c l) {lba : Nat}
    (hlba : lba ∈ chainLbas fs l) : lba ∉ chainLbas fs r :=
  chainLbas_disjoint (fun _ hx => h.family.ok_of_mem hs hl hx) (fun _ hx => h.inData_root hx)
    (h.family.disj (Option.some_ne_none s) hs heads_none hl h.root) hlba

/-- A free cluster is on no chain. -/
theorem Volume.fresh_of_free (h : Volume fs sel r disk) {b : Nat} (hb : nextOf fs disk b = 0) :
    Family.Fresh (nextOf fs disk) Eoc (heads fs sel r disk) b := by
  intro i a l hi hl hbl
  rcases hl.next_mem_or_stop hbl with hm | he
  · have := (h.family.ok_of_mem hi hl hm).ge
    omega
  · rw [hb] at he
    exact absurd he (by decide)

/-- A volume depends on the FAT entries of its chains and on the entries of its directory. -/
theorem Volume.of_disk (h : Volume fs sel r disk)
    (hn : ∀ x, InData fs x → nextOf fs disk' x = nextOf fs disk x)
    (he : ∀ s ∈ slotsOf fs r, SameEntry disk disk' s) : Volume fs sel r disk' := by
  have hh : heads fs sel r disk' = heads fs sel r disk := by
    funext i
    cases i with
    | none => rfl
    | some s => exact heads_congr (he s)
  refine ⟨h.geometry, h.root.congr fun y hy => hn y (h.inData_root hy), ?_⟩
  rw [hh]
  exact h.family.congr_next fun i a l x hi hl hx => hn x (h.family.ok_of_mem hi hl hx)

/-- Sectors of the data area outside the root directory are no part of the structure. -/
theorem Volume.of_data (h : Volume fs sel r disk)
    (hd : ∀ lba, lba < dataBase fs ∨ lba ∈ chainLbas fs r → disk' lba = disk lba) :
    Volume fs sel r disk' ∧ ∀ x, InData fs x → nextOf fs disk' x = nextOf fs disk x := by
  have hn : ∀ x, InData fs x → nextOf fs disk' x = nextOf fs disk x := by
    intro x hx
    unfold nextOf fatAt
    rw [hd _ (.inl (hx.fatSector h.geometry h.geometry.fats_pos).2)]
  exact ⟨h.of_disk hn fun s hs => SameEntry.of_eq (hd _ (.inr (mem_slotsOf.mp hs).1)), hn⟩

end Volume

end Armonios
