import Armonios.Lib.Orbit
import Armonios.Fat32.DirSpec
import Armonios.Fat32.FreeSearch

/-!
# Walks of the root directory

`fat32_open_root`, `fat32_list_root` and `find_free_dir_entry` follow the links of the FAT from the root cluster, on any
disk. Here the number of rounds that their loop may take is an argument.

* `WalkStops`, `walkNext`: a round of the loop;
* `scanClusters_ends`, `scanClusters_hangs`: the loop ends exactly if a round stops it;
* `rootWalks_terminate`: which disks end the three walks.
-/

namespace Armonios

variable {fs : Fat32Fs} {disk : Nat → Sector} {d : Dev} {σ α : Type} {visit : σ → Slot → Sector → Scan σ α}

/-! ## One round -/

/-- The sectors of a cluster by their numbers on the disk. -/
def clusterLbas (fs : Fat32Fs) (c : Nat) : List Nat :=
  (List.range fs.sectorsPerCluster).map fun i => (clusterToLba fs c + i) % 2 ^ 32

def slotsIn (lbas : List Nat) : List Slot := lbas.flatMap fun lba => entryOffsets.map (Slot.mk lba)

/-- The entries of a cluster. -/
def clusterSlots (fs : Fat32Fs) (c : Nat) : List Slot := slotsIn (clusterLbas fs c)

/-- No driver goes on from the cluster: its number ends a chain, one of its sectors or its FAT entry is outside the
volume, or the entry is the bad mark. -/
def LinkEnds (fs : Fat32Fs) (disk : Nat → Sector) (c : Nat) : Prop :=
  c < 2 ∨ clusterIsEoc c = true ∨ (∃ lba ∈ clusterLbas fs c, fs.totalSectors ≤ lba) ∨
    fs.totalSectors ≤ fatSector fs 0 c ∨ nextOf fs disk c = clusterBad

/-- The loop ends at this cluster. -/
def WalkStops (fs : Fat32Fs) (visit : σ → Slot → Sector → Scan σ α) (disk : Nat → Sector) (p : Nat × σ) : Prop :=
  LinkEnds fs disk p.1 ∨ ∃ a, scanSlots visit disk (clusterSlots fs p.1) p.2 = .exit a

/-- The next cluster, and what the search knows there. -/
def walkNext (fs : Fat32Fs) (visit : σ → Slot → Sector → Scan σ α) (disk : Nat → Sector) (p : Nat × σ) : Nat × σ :=
  (nextOf fs disk p.1,
    match scanSlots visit disk (clusterSlots fs p.1) p.2 with
    | .next st => st
    | .exit _ => p.2)

/-- The run ends. -/
def NoHang (m : Io α) (d : Dev) : Prop := Wp m d (fun _ _ => True) fun e _ => e ≠ .hang

/-- The sectors of a cluster, read one after the other. -/
theorem scanSectors_any {c : Nat} {is : List Nat} {st : σ} :
    ReadsTo (scanSectors fs visit c is st) {.dirScan} True d fun res =>
      res = scanSlots visit d.disk (slotsIn (is.map fun i => (clusterToLba fs c + i) % 2 ^ 32)) st ∧
        (∀ st', res = .next st' → fs.mounted = true →
          ∀ i ∈ is, (clusterToLba fs c + i) % 2 ^ 32 < fs.totalSectors) := by
  induction is generalizing st d with
  | nil => exact ReadsTo.pure ⟨rfl, fun _ _ _ i hi => absurd hi List.not_mem_nil⟩
  | cons i is ih =>
    unfold scanSectors
    dsimp only
    by_cases hout : fs.mounted = true ∧ fs.totalSectors ≤ (clusterToLba fs c + i) % 2 ^ 32
    · refine ReadsTo.bind (P := fun _ => False) ?_ fun _ _ _ _ h => h.elim
      unfold readSector
      rw [if_pos hout]
      exact ReadsTo.fail trivial
    refine ReadsTo.bind ((readSector_spec fun hm => Nat.lt_of_not_le fun hle => hout ⟨hm, hle⟩).mono (fun _ h => h)
      False.elim fun _ h => h) fun sector d₁ hd _ hs => ?_
    have hslots : slotsIn ((i :: is).map fun i => (clusterToLba fs c + i) % 2 ^ 32) =
        entryOffsets.map (Slot.mk ((clusterToLba fs c + i) % 2 ^ 32)) ++
          slotsIn (is.map fun i => (clusterToLba fs c + i) % 2 ^ 32) := rfl
    rw [hs, scanEntries_eq, hslots, scanSlots_append]
    cases scanSlots visit d.disk (entryOffsets.map (Slot.mk ((clusterToLba fs c + i) % 2 ^ 32))) st with
    | next st₁ =>
      refine (ih (d := d₁)).mono (fun _ h => h) id fun res h => ?_
      rw [hd] at h
      refine ⟨h.1, fun st' hst' hm j hj => ?_⟩
      rcases List.mem_cons.mp hj with rfl | hj
      · exact Nat.lt_of_not_le fun hle => hout ⟨hm, hle⟩
      · exact h.2 st' hst' hm j hj
    | exit a =>
      refine ReadsTo.pure ⟨rfl, fun st' hst' => ?_⟩
      cases hst'

/-- Where all sectors are on the volume, a reliable disk has them read. -/
theorem scanSectors_reads {c : Nat} {is : List Nat} {st : σ}
    (hin : ∀ i ∈ is, (clusterToLba fs c + i) % 2 ^ 32 < fs.totalSectors) :
    ReadsTo (scanSectors fs visit c is st) {.dirScan} False d fun res =>
      res = scanSlots visit d.disk (slotsIn (is.map fun i => (clusterToLba fs c + i) % 2 ^ 32)) st := by
  induction is generalizing st d with
  | nil => exact ReadsTo.pure rfl
  | cons i is ih =>
    unfold scanSectors
    dsimp only
    refine ReadsTo.bind (readSector_spec fun _ => hin i List.mem_cons_self) fun sector d₁ hd _ hs => ?_
    have hslots : slotsIn ((i :: is).map fun i => (clusterToLba fs c + i) % 2 ^ 32) =
        entryOffsets.map (Slot.mk ((clusterToLba fs c + i) % 2 ^ 32)) ++
          slotsIn (is.map fun i => (clusterToLba fs c + i) % 2 ^ 32) := rfl
    rw [hs, scanEntries_eq, hslots, scanSlots_append]
    cases scanSlots visit d.disk (entryOffsets.map (Slot.mk ((clusterToLba fs c + i) % 2 ^ 32))) st with
    | next st₁ =>
      refine (ih (d := d₁) fun j hj => hin j (List.mem_cons_of_mem i hj)).mono (fun _ h => h) id fun res h => ?_
      rw [hd] at h
      exact h
    | exit a => exact ReadsTo.pure rfl

/-- A link that is read: the FAT entry is on the volume and no bad mark. -/
theorem readFatEntry_link (hm : fs.mounted = true) {c : Nat} :
    ReadsTo (readFatEntry fs .lookup c) {.lookup} True d fun v =>
      v = nextOf fs d.disk c ∧ fatSector fs 0 c < fs.totalSectors ∧ nextOf fs d.disk c ≠ clusterBad := by
  unfold readFatEntry
  refine ReadsTo.guard (fun _ => trivial) fun _ => ?_
  by_cases hout : fs.mounted = true ∧ fs.totalSectors ≤ fatSector fs 0 c
  · refine ReadsTo.bind (P := fun _ => False) ?_ fun _ _ _ _ h => h.elim
    unfold readSector
    rw [if_pos hout]
    exact ReadsTo.fail trivial
  have hin : fatSector fs 0 c < fs.totalSectors := Nat.lt_of_not_le fun hle => hout ⟨hm, hle⟩
  refine ReadsTo.bind ((readSector_spec fun _ => hin).mono (fun _ h => h) False.elim fun _ h => h)
    fun sector d₁ _ _ hs => ?_
  subst hs
  exact ReadsTo.guard (fun _ => trivial) fun hbad => ReadsTo.pure ⟨rfl, hin, hbad⟩

theorem readFatEntry_reads {c : Nat} (h2 : 2 ≤ c) (hin : fatSector fs 0 c < fs.totalSectors)
    (hbad : nextOf fs d.disk c ≠ clusterBad) :
    ReadsTo (readFatEntry fs .lookup c) {.lookup} False d fun v => v = nextOf fs d.disk c := by
  unfold readFatEntry
  refine ReadsTo.guard (fun hlt => absurd h2 (by omega)) fun _ => ?_
  refine ReadsTo.bind (readSector_spec fun _ => hin) fun sector d₁ _ _ hs => ?_
  subst hs
  exact ReadsTo.guard hbad fun _ => ReadsTo.pure rfl

/-! ## The loop -/

/-- A round that stops the walk ends the loop, whatever the callbacks do. -/
theorem scanClusters_ends (hm : fs.mounted = true) {k n c : Nat} {st : σ} (hk : k < n)
    (hstop : WalkStops fs visit d.disk ((walkNext fs visit d.disk)^[k] (c, st))) :
    NoHang (scanClusters fs visit n c st) d := by
  induction n generalizing k c st d with
  | zero => exact absurd hk (Nat.not_lt_zero k)
  | succ n ih =>
    unfold scanClusters
    refine wp_ite (fun hgo => ?_) fun _ => trivial
    refine ReadsTo.wp_bind scanSectors_any (fun res d₁ hd _ hres => ?_) fun _ _ _ => by decide
    cases res with
    | exit a => exact trivial
    | next st₁ =>
      refine ReadsTo.wp_bind (readFatEntry_link hm) (fun v d₂ hd₂ _ hv => ?_) fun _ _ _ => by decide
      rw [hd] at hd₂ hv
      -- this round did not stop the walk, so a later one does
      have hscan : scanSlots visit d.disk (clusterSlots fs c) st = .next st₁ := hres.1.symm
      have hnot : ¬ WalkStops fs visit d.disk (c, st) := by
        rintro ((hlt | heoc | ⟨lba, hlba, hout⟩ | hout | hbad) | ⟨a, ha⟩)
        · exact absurd hgo.1 (Nat.not_le_of_lt hlt)
        · exact absurd (hgo.2.symm.trans heoc) (by decide)
        · obtain ⟨i, hi, rfl⟩ := List.mem_map.mp hlba
          exact absurd (hres.2 st₁ rfl hm i hi) (Nat.not_lt_of_le hout)
        · exact absurd hv.2.1 (Nat.not_lt_of_le hout)
        · exact hv.2.2 hbad
        · rw [hscan] at ha
          cases ha
      cases k with
      | zero => exact absurd hstop hnot
      | succ k =>
        rw [Function.iterate_succ_apply] at hstop
        have hnext : walkNext fs visit d.disk (c, st) = (v, st₁) := by
          unfold walkNext
          dsimp only
          rw [hscan, hv.1]
        rw [hnext, ← hd₂] at hstop
        exact ih (Nat.lt_of_succ_lt_succ hk) hstop

/-- On a reliable disk nothing else ends it. -/
theorem scanClusters_hangs (hd : d.fault = none) {n c : Nat} {st : σ}
    (h : ∀ k < n, ¬ WalkStops fs visit d.disk ((walkNext fs visit d.disk)^[k] (c, st))) :
    scanClusters fs visit n c st d = .error .hang d := by
  induction n generalizing c st with
  | zero => rfl
  | succ n ih =>
    have hnot := h 0 (Nat.succ_pos n)
    unfold WalkStops LinkEnds at hnot
    simp only [Function.iterate_zero, id_eq, not_or, not_exists, not_and] at hnot
    obtain ⟨⟨h2, heoc, hlbas, hfat, hbad⟩, hexit⟩ := hnot
    unfold scanClusters
    rw [if_pos ⟨Nat.le_of_not_lt h2, by simpa using heoc⟩]
    have hsectors : ReadsTo (scanSectors fs visit c (List.range fs.sectorsPerCluster) st) {.dirScan} False d _ :=
      scanSectors_reads fun i hi => Nat.lt_of_not_le (hlbas _ (List.mem_map.mpr ⟨i, hi, rfl⟩))
    obtain ⟨res, hrun, hres⟩ := hsectors.returns hd
    obtain ⟨v, hlink, hv⟩ := (readFatEntry_reads (d := d) (Nat.le_of_not_lt h2) (Nat.lt_of_not_le hfat) hbad).returns hd
    show EStateM.bind _ _ d = _
    unfold EStateM.bind
    rw [hrun]
    cases res with
    | exit a => exact absurd hres.symm (hexit a)
    | next st₁ =>
      show EStateM.bind _ _ d = _
      unfold EStateM.bind
      rw [hlink]
      refine ih fun k hk => ?_
      have hnext : walkNext fs visit d.disk (c, st) = (v, st₁) := by
        unfold walkNext
        dsimp only
        rw [show scanSlots visit d.disk (clusterSlots fs c) st = .next st₁ from hres.symm, hv]
      have hlater := h (k + 1) (Nat.succ_lt_succ hk)
      rwa [Function.iterate_succ_apply, hnext] at hlater

/-- With enough rounds the run ends. -/
def Terminates (m : Nat → Io α) (d : Dev) : Prop := ∃ n, ∀ rounds, n ≤ rounds → NoHang (m rounds) d

/-- The loop ends, whatever the callbacks do, exactly if a round stops it. -/
theorem scanClusters_terminates_iff (hm : fs.mounted = true) (c : Nat) (st : σ) :
    (∀ fault, Terminates (fun rounds => scanClusters fs visit rounds c st) ⟨disk, fault⟩) ↔
      ∃ k, WalkStops fs visit disk ((walkNext fs visit disk)^[k] (c, st)) := by
  constructor
  · intro h
    obtain ⟨n, hn⟩ := h none
    by_contra hno
    have hhang : scanClusters fs visit n c st ⟨disk, none⟩ = .error .hang ⟨disk, none⟩ :=
      scanClusters_hangs rfl fun k _ hk => hno ⟨k, hk⟩
    exact (hn n (Nat.le_refl n)).of_error hhang rfl
  · rintro ⟨k, hk⟩ fault
    exact ⟨k + 1, fun rounds hle => scanClusters_ends hm hle hk⟩

/-! ## The three walks -/

def fat32OpenRootRounds (fs : Fat32Fs) (name : List UInt8) (rounds : Nat) : Io Fat32File := do
  if fs.mounted = false then throw .fail
  match makeShortName name with
  | none => throw .fail
  | some wanted =>
    match ← scanClusters fs (openVisit wanted) rounds fs.rootCluster () with
    | .exit (some (slot, sector)) => openEntry fs slot sector
    | .exit none => throw .fail
    | .next _ => throw .fail

def fat32ListRootRounds (fs : Fat32Fs) (capacity rounds : Nat) : Io (List UInt8) := do
  if fs.mounted = false then throw .fail
  match ← scanClusters fs (listVisit capacity) rounds fs.rootCluster [] with
  | .exit out => return out
  | .next out => return out

def findFreeDirEntryRounds (fs : Fat32Fs) (rounds : Nat) : Io Slot := do
  match ← scanClusters fs freeVisit rounds fs.rootCluster () with
  | .exit slot => return slot
  | .next _ => throw .fail

theorem fat32OpenRoot_rounds (fs : Fat32Fs) (name : List UInt8) :
    fat32OpenRoot fs name = fat32OpenRootRounds fs name walkFuel := rfl

theorem fat32ListRoot_rounds (fs : Fat32Fs) (capacity : Nat) :
    fat32ListRoot fs capacity = fat32ListRootRounds fs capacity walkFuel := rfl

theorem findFreeDirEntry_rounds (fs : Fat32Fs) : findFreeDirEntry fs = findFreeDirEntryRounds fs walkFuel := rfl

variable {β : Type} {m : Io α} {f : α → Io β}

theorem noHang_bind (hf : ∀ a d', NoHang (f a) d') : NoHang (m >>= f) d ↔ NoHang m d := by
  constructor
  · intro h
    refine Wp.mono (wp_bind.mp h) (fun _ _ _ => trivial) fun _ _ he => he
  · intro h
    exact wp_bind.mpr (Wp.mono h (fun a d' _ => hf a d') fun _ _ he => he)

/-- The capacity of a chain is bounded, so its loop is too. -/
theorem capacityLoop_noHang {fuel total c : Nat} (htotal : total ≤ 0xffffffff)
    (h : 0xffffffff < total + fuel * clusterBytesOf fs) : NoHang (capacityLoop fs fuel total c) d := by
  induction fuel generalizing total c d with
  | zero => omega
  | succ fuel ih =>
    rw [Nat.add_mul, Nat.one_mul] at h
    unfold capacityLoop
    refine wp_ite (fun _ => ?_) fun _ => trivial
    refine wp_guard (fun _ => by decide) fun hfits => ?_
    refine ReadsTo.wp_bind readFatEntry_any (fun v d₁ _ _ _ => ?_) fun _ _ _ => by decide
    exact ih (by omega) (by omega)

theorem openEntry_noHang (hpos : 0 < fs.sectorsPerCluster) (slot : Slot) (sector : Sector) :
    NoHang (openEntry fs slot sector) d := by
  have hbytes : 512 ≤ clusterBytesOf fs := Nat.le_mul_of_pos_left 512 hpos
  unfold openEntry
  refine wp_guard (fun _ => by decide) fun _ => ?_
  dsimp only
  refine wp_ite (fun _ => (noHang_bind fun _ _ => ?_).mpr ?_) fun _ => ?_
  · exact wp_pure.mpr trivial
  swap
  · exact wp_bind.mpr (wp_pure.mpr (wp_pure.mpr trivial))
  unfold fileChainCapacity
  refine wp_guard (fun _ => by decide) fun _ => ?_
  refine capacityLoop_noHang (Nat.zero_le _) ?_
  have := Nat.mul_le_mul_left walkFuel hbytes
  unfold walkFuel at this ⊢
  omega

theorem openRoot_noHang_iff (hm : Mounted fs) {name wanted : List UInt8} (hname : makeShortName name = some wanted)
    (rounds : Nat) : NoHang (fat32OpenRootRounds fs name rounds) d ↔
      NoHang (scanClusters fs (openVisit wanted) rounds fs.rootCluster ()) d := by
  unfold fat32OpenRootRounds
  rw [if_neg (by rw [hm.mounted]; decide), hname]
  refine noHang_bind fun res d' => ?_
  cases res with
  | next st => exact show Err.fail ≠ .hang by decide
  | exit found =>
    cases found with
    | none => exact show Err.fail ≠ .hang by decide
    | some p => exact openEntry_noHang hm.cluster_pos p.1 p.2

theorem listRoot_noHang_iff (hm : Mounted fs) (capacity rounds : Nat) :
    NoHang (fat32ListRootRounds fs capacity rounds) d ↔
      NoHang (scanClusters fs (listVisit capacity) rounds fs.rootCluster []) d := by
  unfold fat32ListRootRounds
  rw [if_neg (by rw [hm.mounted]; decide)]
  refine noHang_bind fun res d' => ?_
  cases res <;> exact trivial

theorem findFree_noHang_iff (rounds : Nat) : NoHang (findFreeDirEntryRounds fs rounds) d ↔
    NoHang (scanClusters fs freeVisit rounds fs.rootCluster ()) d := by
  refine noHang_bind fun res d' => ?_
  cases res with
  | next st => exact show Err.fail ≠ .hang by decide
  | exit slot => exact trivial

/-! ## Where a walk stops -/

theorem walkNext_iterate (k : Nat) (p : Nat × σ) :
    ((walkNext fs visit disk)^[k] p).1 = (nextOf fs disk)^[k] p.1 := by
  induction k generalizing p with
  | zero => rfl
  | succ k ih =>
    rw [Function.iterate_succ_apply, Function.iterate_succ_apply, ih]
    rfl

/-- A cluster of the walk from the root, by its distance. -/
abbrev rootAt (fs : Fat32Fs) (disk : Nat → Sector) (k : Nat) : Nat := (nextOf fs disk)^[k] fs.rootCluster

/-- A search without a state stops at an entry, wherever it starts. -/
theorem scanSlots_unit {visit : Unit → Slot → Sector → Scan Unit α} {slots : List Slot} :
    (∃ a, scanSlots visit disk slots () = .exit a) ↔ ∃ s ∈ slots, ∃ a, visit () s (disk s.lba) = .exit a := by
  induction slots with
  | nil => simp [scanSlots]
  | cons s slots ih =>
    rw [List.exists_mem_cons_iff, ← ih]
    simp only [scanSlots]
    cases visit () s (disk s.lba) with
    | next st => simp
    | exit a => simp

theorem walkStops_unit {visit : Unit → Slot → Sector → Scan Unit α} (k : Nat) :
    WalkStops fs visit disk ((walkNext fs visit disk)^[k] (fs.rootCluster, ())) ↔
      LinkEnds fs disk (rootAt fs disk k) ∨
        ∃ s ∈ clusterSlots fs (rootAt fs disk k), ∃ a, visit () s (disk s.lba) = .exit a := by
  unfold WalkStops
  rw [walkNext_iterate]
  exact or_congr_right scanSlots_unit

/-- The entry is the end mark. -/
def EndMark (disk : Nat → Sector) (s : Slot) : Prop := entryMark (disk s.lba) s.offset = 0x00

theorem openVisit_exit {wanted : List UInt8} {s : Slot} : (∃ a, openVisit wanted () s (disk s.lba) = .exit a) ↔
    EndMark disk s ∨ Hit wanted disk s := by
  unfold openVisit EndMark Hit Live isFile
  by_cases hmark : entryMark (disk s.lba) s.offset = 0x00
  · simp [hmark]
  rw [if_neg hmark]
  by_cases hskip : entryMark (disk s.lba) s.offset = 0xe5 ∨ entryAttr (disk s.lba) s.offset = attrLongName ∨
      entryAttr (disk s.lba) s.offset &&& attrDirectory ≠ 0
  · rw [if_pos hskip]
    simp only [reduceCtorEq, exists_false, hmark, false_or, false_iff]
    rintro ⟨⟨-, he5, hlong⟩, hfile, -⟩
    rcases hskip with h | h | h
    · exact he5 h
    · exact hlong h
    · exact h (of_decide_eq_true hfile)
  rw [if_neg hskip]
  simp only [not_or, not_not] at hskip
  by_cases hname : entryName (disk s.lba) s.offset = wanted
  · simp [hname, hmark, hskip]
  · simp [hname, hmark]

theorem freeVisit_exit {s : Slot} : (∃ a, freeVisit () s (disk s.lba) = .exit a) ↔
    EndMark disk s ∨ entryMark (disk s.lba) s.offset = 0xe5 := by
  unfold freeVisit EndMark
  split <;> simp_all

/-! ## Listing -/

/-- The entry has a line in a listing. -/
def Listed (disk : Nat → Sector) (s : Slot) : Prop :=
  Live disk s ∧ entryAttr (disk s.lba) s.offset &&& attrVolumeId = 0

instance (disk : Nat → Sector) (s : Slot) : Decidable (Listed disk s) := inferInstanceAs (Decidable (_ ∧ _))

/-- The lines of entries. -/
def listLines (disk : Nat → Sector) (slots : List Slot) : List UInt8 :=
  slots.flatMap fun s => if Listed disk s then listLine (disk s.lba) s.offset else []

theorem length_listLine (s : Sector) (off : Nat) : 0 < (listLine s off).length := by
  simp [listLine]

/-- What a listing does with an entry. -/
theorem listVisit_mark {capacity : Nat} {out : List UInt8} {s : Slot} (hmark : EndMark disk s) :
    listVisit capacity out s (disk s.lba) = .exit out := if_pos hmark

theorem listVisit_listed {capacity : Nat} {out : List UInt8} {s : Slot} (h : Listed disk s) :
    listVisit capacity out s (disk s.lba) =
      if capacity < out.length + (listLine (disk s.lba) s.offset).length then
        .exit ((out ++ listLine (disk s.lba) s.offset).take capacity)
      else .next (out ++ listLine (disk s.lba) s.offset) := by
  obtain ⟨⟨hmark, he5, hlong⟩, hlabel⟩ := h
  unfold listVisit
  rw [if_neg hmark, if_neg]
  rintro (h | h | h)
  · exact he5 h
  · exact hlong h
  · exact h hlabel

theorem listVisit_skipped {capacity : Nat} {out : List UInt8} {s : Slot} (hmark : ¬ EndMark disk s)
    (h : ¬ Listed disk s) : listVisit capacity out s (disk s.lba) = .next out := by
  unfold listVisit
  rw [if_neg (show ¬ entryMark (disk s.lba) s.offset = 0x00 from hmark), if_pos]
  by_contra hno
  simp only [not_or, not_not] at hno
  exact h ⟨⟨hmark, hno.1, hno.2.1⟩, hno.2.2⟩

/-- Where a listing ends: at an end mark, or where the lines no longer fit. -/
theorem scanSlots_list {capacity : Nat} {out : List UInt8} {slots : List Slot} (hmark : ∀ s ∈ slots, ¬ EndMark disk s)
    (hroom : out.length + (listLines disk slots).length ≤ capacity) :
    scanSlots (listVisit capacity) disk slots out = .next (out ++ listLines disk slots) := by
  induction slots generalizing out with
  | nil => simp [scanSlots, listLines]
  | cons s slots ih =>
    obtain ⟨hs, hslots⟩ := List.forall_mem_cons.mp hmark
    have hlines : listLines disk (s :: slots) =
        (if Listed disk s then listLine (disk s.lba) s.offset else []) ++ listLines disk slots := rfl
    rw [hlines, List.length_append] at hroom
    simp only [scanSlots]
    by_cases hlisted : Listed disk s
    · rw [if_pos hlisted] at hroom hlines
      rw [listVisit_listed hlisted, if_neg (by omega)]
      dsimp only
      rw [ih hslots (by rw [List.length_append]; omega), hlines, List.append_assoc]
    · rw [if_neg hlisted] at hroom hlines
      rw [listVisit_skipped hs hlisted]
      dsimp only
      rw [ih hslots (by simpa using hroom), hlines, List.nil_append]

/-- A cluster that a listing goes through has given it all its lines. -/
theorem scanSlots_list_next {capacity : Nat} {out out' : List UInt8} {slots : List Slot} (hout : out.length ≤ capacity)
    (h : scanSlots (listVisit capacity) disk slots out = .next out') :
    out' = out ++ listLines disk slots ∧ out'.length ≤ capacity ∧ ∀ s ∈ slots, ¬ EndMark disk s := by
  induction slots generalizing out with
  | nil =>
    cases h
    exact ⟨by simp [listLines], hout, fun s hs => absurd hs List.not_mem_nil⟩
  | cons s slots ih =>
    have hlines : listLines disk (s :: slots) =
        (if Listed disk s then listLine (disk s.lba) s.offset else []) ++ listLines disk slots := rfl
    simp only [scanSlots] at h
    by_cases hmark : EndMark disk s
    · rw [listVisit_mark hmark] at h
      cases h
    by_cases hlisted : Listed disk s
    · rw [listVisit_listed hlisted] at h
      by_cases hfull : capacity < out.length + (listLine (disk s.lba) s.offset).length
      · rw [if_pos hfull] at h
        cases h
      · rw [if_neg hfull] at h
        obtain ⟨heq, hle, hrest⟩ := ih (by rw [List.length_append]; omega) h
        exact ⟨by rw [heq, hlines, if_pos hlisted, List.append_assoc], hle, List.forall_mem_cons.mpr ⟨hmark, hrest⟩⟩
    · rw [listVisit_skipped hmark hlisted] at h
      obtain ⟨heq, hle, hrest⟩ := ih hout h
      exact ⟨by rw [heq, hlines, if_neg hlisted, List.nil_append], hle, List.forall_mem_cons.mpr ⟨hmark, hrest⟩⟩

theorem listLines_pos {slots : List Slot} : 0 < (listLines disk slots).length ↔ ∃ s ∈ slots, Listed disk s := by
  rw [List.length_pos_iff, Ne, listLines, List.flatMap_eq_nil_iff]
  simp only [not_forall]
  constructor
  · rintro ⟨s, hs, hline⟩
    refine ⟨s, hs, ?_⟩
    by_contra hno
    exact hline (if_neg hno)
  · rintro ⟨s, hs, hlisted⟩
    refine ⟨s, hs, ?_⟩
    rw [if_pos hlisted]
    exact List.length_pos_iff.mp (length_listLine _ _)

/-! ## Which walks end -/

/-- The walk comes to a cluster from which no driver goes on, or to an entry that ends it. -/
def ReachesEnd (fs : Fat32Fs) (disk : Nat → Sector) (ends : Slot → Prop) : Prop :=
  ∃ k, LinkEnds fs disk (rootAt fs disk k) ∨ ∃ s ∈ clusterSlots fs (rootAt fs disk k), ends s

/-- The walk goes round and round through a cluster with an entry that is listed. -/
def ListsForever (fs : Fat32Fs) (disk : Nat → Sector) : Prop :=
  ∃ k, (∃ s ∈ clusterSlots fs (rootAt fs disk k), Listed disk s) ∧
    rootAt fs disk k ∈ Function.periodicPts (nextOf fs disk)

theorem openRoot_terminates_iff (hm : Mounted fs) {name wanted : List UInt8}
    (hname : makeShortName name = some wanted) :
    (∀ fault, Terminates (fat32OpenRootRounds fs name) ⟨disk, fault⟩) ↔
      ReachesEnd fs disk fun s => EndMark disk s ∨ Hit wanted disk s := by
  unfold Terminates
  simp only [openRoot_noHang_iff hm hname]
  refine (scanClusters_terminates_iff hm.mounted fs.rootCluster ()).trans (exists_congr fun k => ?_)
  rw [walkStops_unit]
  simp only [openVisit_exit]

theorem openRoot_terminates (hm : Mounted fs) {name : List UInt8} (hname : makeShortName name = none)
    (fault : Option (Site × Option Nat × Nat)) : Terminates (fat32OpenRootRounds fs name) ⟨disk, fault⟩ := by
  refine ⟨0, fun rounds _ => ?_⟩
  unfold fat32OpenRootRounds
  rw [if_neg (by rw [hm.mounted]; decide), hname]
  exact show Err.fail ≠ .hang by decide

theorem findFree_terminates_iff (hm : fs.mounted = true) :
    (∀ fault, Terminates (findFreeDirEntryRounds fs) ⟨disk, fault⟩) ↔
      ReachesEnd fs disk fun s => EndMark disk s ∨ entryMark (disk s.lba) s.offset = 0xe5 := by
  unfold Terminates
  simp only [findFree_noHang_iff]
  refine (scanClusters_terminates_iff hm fs.rootCluster ()).trans (exists_congr fun k => ?_)
  rw [walkStops_unit]
  simp only [freeVisit_exit]

theorem rootAt_succ (k : Nat) : rootAt fs disk (k + 1) = nextOf fs disk (rootAt fs disk k) :=
  Function.iterate_succ_apply' _ _ _

theorem rootAt_finite (fs : Fat32Fs) (disk : Nat → Sector) : (Set.range fun k => rootAt fs disk k).Finite := by
  refine Set.Finite.subset ((Finset.range clusterRange).finite_toSet.insert fs.rootCluster) ?_
  rintro _ ⟨k, rfl⟩
  cases k with
  | zero => exact .inl rfl
  | succ k =>
    dsimp only
    rw [rootAt_succ]
    exact .inr (Finset.mem_coe.mpr (Finset.mem_range.mpr (fatAt_lt fs disk 0 _)))

/-- The lines of the first clusters of the walk. -/
def linesTo (fs : Fat32Fs) (disk : Nat → Sector) : Nat → List UInt8
  | 0 => []
  | k + 1 => linesTo fs disk k ++ listLines disk (clusterSlots fs (rootAt fs disk k))

theorem linesTo_mono {j k : Nat} (h : j ≤ k) : (linesTo fs disk j).length ≤ (linesTo fs disk k).length := by
  induction h with
  | refl => exact Nat.le_refl _
  | step _ ih =>
    rw [linesTo, List.length_append]
    omega

theorem walkNext_succ (visit : σ → Slot → Sector → Scan σ α) (k : Nat) (p : Nat × σ) :
    (walkNext fs visit disk)^[k + 1] p = walkNext fs visit disk ((walkNext fs visit disk)^[k] p) :=
  Function.iterate_succ_apply' _ _ _

/-- As long as the lines fit and no end mark comes, a listing has them all. -/
theorem listing_at {capacity k : Nat} (hmark : ∀ j < k, ∀ s ∈ clusterSlots fs (rootAt fs disk j), ¬ EndMark disk s)
    (hroom : (linesTo fs disk k).length ≤ capacity) :
    (walkNext fs (listVisit capacity) disk)^[k] (fs.rootCluster, []) = (rootAt fs disk k, linesTo fs disk k) := by
  induction k with
  | zero => rfl
  | succ k ih =>
    have hk := ih (fun j hj => hmark j (Nat.lt_succ_of_lt hj)) ((linesTo_mono (Nat.le_succ k)).trans hroom)
    rw [linesTo, List.length_append] at hroom
    rw [walkNext_succ, hk]
    unfold walkNext
    dsimp only
    rw [scanSlots_list (hmark k (Nat.lt_succ_self k)) hroom, rootAt_succ]
    rfl

/-- A walk that does not stop has listed all that it has passed. -/
theorem listing_next {capacity : Nat}
    (h : ∀ k, ¬ WalkStops fs (listVisit capacity) disk
      ((walkNext fs (listVisit capacity) disk)^[k] (fs.rootCluster, [])))
    (k : Nat) : (walkNext fs (listVisit capacity) disk)^[k] (fs.rootCluster, []) =
      (rootAt fs disk k, linesTo fs disk k) ∧
      (linesTo fs disk k).length ≤ capacity := by
  induction k with
  | zero => exact ⟨rfl, Nat.zero_le _⟩
  | succ k ih =>
    obtain ⟨hk, hle⟩ := ih
    have hgo := h k
    rw [hk] at hgo
    cases hscan : scanSlots (listVisit capacity) disk (clusterSlots fs (rootAt fs disk k)) (linesTo fs disk k) with
    | exit a => exact absurd (.inr ⟨a, hscan⟩) hgo
    | next out =>
      obtain ⟨rfl, hle', -⟩ := scanSlots_list_next hle hscan
      refine ⟨?_, hle'⟩
      rw [walkNext_succ, hk]
      unfold walkNext
      dsimp only
      rw [hscan, rootAt_succ]
      rfl

theorem listRoot_terminates_iff (hm : Mounted fs) :
    (∀ capacity fault, Terminates (fat32ListRootRounds fs capacity) ⟨disk, fault⟩) ↔
      ReachesEnd fs disk (EndMark disk) ∨ ListsForever fs disk := by
  have hiff (capacity : Nat) : (∀ fault, Terminates (fat32ListRootRounds fs capacity) ⟨disk, fault⟩) ↔
      ∃ k, WalkStops fs (listVisit capacity) disk
        ((walkNext fs (listVisit capacity) disk)^[k] (fs.rootCluster, [])) := by
    unfold Terminates
    simp only [listRoot_noHang_iff hm]
    exact scanClusters_terminates_iff hm.mounted fs.rootCluster []
  simp only [hiff]
  have hrecurs := recurs_iff (P := fun c => ∃ s ∈ clusterSlots fs c, Listed disk s) (rootAt_finite fs disk)
  constructor
  · intro h
    by_contra hno
    rw [not_or] at hno
    obtain ⟨hend, hcycle⟩ := hno
    -- from some cluster on nothing is listed
    have hquiet : ∃ m, ∀ k, m ≤ k → ¬ ∃ s ∈ clusterSlots fs (rootAt fs disk k), Listed disk s := by
      by_contra hmore
      refine hcycle (hrecurs.mp fun m => ?_)
      by_contra hnone
      exact hmore ⟨m, fun k hk hlisted => hnone ⟨k, hk, hlisted⟩⟩
    obtain ⟨m, hm⟩ := hquiet
    have hmark (j : Nat) : ∀ s ∈ clusterSlots fs (rootAt fs disk j), ¬ EndMark disk s :=
      fun s hs hmark => hend ⟨j, .inr ⟨s, hs, hmark⟩⟩
    have hbound (k : Nat) : (linesTo fs disk k).length ≤ (linesTo fs disk m).length := by
      induction k with
      | zero => exact Nat.zero_le _
      | succ k ih =>
        by_cases hk : k + 1 ≤ m
        · exact linesTo_mono hk
        · have hnil := mt listLines_pos.mp (hm k (by omega))
          rw [linesTo, List.length_append]
          omega
    obtain ⟨k, hstop⟩ := h (linesTo fs disk m).length
    rw [listing_at (fun j _ => hmark j) (hbound k)] at hstop
    rcases hstop with hlink | ⟨a, ha⟩
    · exact hend ⟨k, .inl hlink⟩
    · have hroom := hbound (k + 1)
      rw [linesTo, List.length_append] at hroom
      rw [scanSlots_list (hmark k) hroom] at ha
      cases ha
  · intro h capacity
    by_contra hno
    have hnext := listing_next fun k hk => hno ⟨k, hk⟩
    rcases h with ⟨k, hlink | ⟨s, hs, hmark⟩⟩ | hcycle
    · refine hno ⟨k, .inl ?_⟩
      rw [(hnext k).1]
      exact hlink
    · refine hno ⟨k, ?_⟩
      rw [(hnext k).1]
      cases hscan : scanSlots (listVisit capacity) disk (clusterSlots fs (rootAt fs disk k)) (linesTo fs disk k) with
      | exit a => exact .inr ⟨a, hscan⟩
      | next out => exact absurd hmark ((scanSlots_list_next (hnext k).2 hscan).2.2 s hs)
    · -- every visit of the cycle adds a line
      have hgrows (n : Nat) : ∃ k, n ≤ (linesTo fs disk k).length := by
        induction n with
        | zero => exact ⟨0, Nat.zero_le _⟩
        | succ n ih =>
          obtain ⟨m, hm⟩ := ih
          obtain ⟨k, hmk, hlisted⟩ := hrecurs.mpr hcycle m
          have hpos := listLines_pos.mpr hlisted
          have hmono : (linesTo fs disk m).length ≤ (linesTo fs disk k).length := linesTo_mono hmk
          refine ⟨k + 1, ?_⟩
          rw [linesTo, List.length_append]
          show n + 1 ≤ _ + (listLines disk (clusterSlots fs ((nextOf fs disk)^[k] fs.rootCluster))).length
          omega
      obtain ⟨k, hk⟩ := hgrows (capacity + 1)
      have := (hnext k).2
      omega

/-- The three walks end for every name and every buffer, whatever the callbacks do. -/
structure WalksTerminate (fs : Fat32Fs) (disk : Nat → Sector) : Prop where
  openRoot : ∀ name fault, Terminates (fat32OpenRootRounds fs name) ⟨disk, fault⟩
  listRoot : ∀ capacity fault, Terminates (fat32ListRootRounds fs capacity) ⟨disk, fault⟩
  findFree : ∀ fault, Terminates (findFreeDirEntryRounds fs) ⟨disk, fault⟩

/-- What ends them on the disk. -/
structure WalksEnd (fs : Fat32Fs) (disk : Nat → Sector) : Prop where
  openRoot : ∀ name wanted, makeShortName name = some wanted →
    ReachesEnd fs disk fun s => EndMark disk s ∨ Hit wanted disk s
  listRoot : ReachesEnd fs disk (EndMark disk) ∨ ListsForever fs disk
  findFree : ReachesEnd fs disk fun s => EndMark disk s ∨ entryMark (disk s.lba) s.offset = 0xe5

/-- On a mounted volume the walks terminate exactly if the links from the root cluster come to an end. -/
theorem rootWalks_terminate (g : Fat32Fs) (d d' : Dev) (set : Bool) (hmount : fat32Mount d = .ok g d') :
    WalksTerminate (fat32SetWriteSector g set) d.disk ↔ WalksEnd (fat32SetWriteSector g set) d.disk := by
  have hm := mounted_of_fat32Mount set hmount
  constructor
  · intro h
    exact ⟨fun name wanted hname => (openRoot_terminates_iff hm hname).mp (h.openRoot name),
      (listRoot_terminates_iff hm).mp h.listRoot, (findFree_terminates_iff hm.mounted).mp h.findFree⟩
  · intro h
    refine ⟨fun name => ?_, (listRoot_terminates_iff hm).mpr h.listRoot,
      (findFree_terminates_iff hm.mounted).mpr h.findFree⟩
    cases hname : makeShortName name with
    | none => exact openRoot_terminates hm hname
    | some wanted => exact (openRoot_terminates_iff hm hname).mpr (h.openRoot name wanted hname)

theorem rootWalks_terminate_full : WalksTerminate (fat32SetWriteSector (bootGeometry smallBoot) true) fullDisk ↔
    WalksEnd (fat32SetWriteSector (bootGeometry smallBoot) true) fullDisk :=
  rootWalks_terminate _ ⟨fullDisk, none⟩ _ true smallBoot_mounts

/-- The root cluster links to itself, and all its entries are deleted. -/
def loopDisk (lba : Nat) : Sector :=
  if lba = 0 then smallBoot
  else if lba = 1 then Sector.zero.patch 8 (putLe32 2)
  else Sector.zero.patch 0 (List.replicate 512 0xe5)

theorem loopDisk_mounts : fat32Mount ⟨loopDisk, none⟩ = .ok (bootGeometry smallBoot) ⟨loopDisk, none⟩ := rfl

theorem loopDisk_rootAt (k : Nat) : rootAt (fat32SetWriteSector (bootGeometry smallBoot) true) loopDisk k = 2 :=
  Function.iterate_fixed (by decide +kernel) k

/-- A lookup goes round and round. -/
theorem loop_walks_on : ∃ g d', fat32Mount ⟨loopDisk, none⟩ = .ok g d' ∧
    ¬ WalksTerminate (fat32SetWriteSector g true) loopDisk := by
  refine ⟨_, _, loopDisk_mounts, fun h => ?_⟩
  have hm := mounted_of_fat32Mount true loopDisk_mounts
  have hname : makeShortName [65] = some (65 :: List.replicate 10 0x20) := rfl
  obtain ⟨k, hk⟩ := (openRoot_terminates_iff hm hname).mp (h.openRoot [65])
  rw [loopDisk_rootAt] at hk
  rcases hk with (h2 | heoc | ⟨lba, hlba, hout⟩ | hout | hbad) | ⟨s, hs, hend⟩
  · exact absurd h2 (by decide)
  · exact absurd heoc (by decide)
  · revert lba
    decide +kernel
  · exact absurd hout (by decide +kernel)
  · exact absurd hbad (by decide +kernel)
  · have hmark : ∀ s ∈ clusterSlots (fat32SetWriteSector (bootGeometry smallBoot) true) 2,
        entryMark (loopDisk s.lba) s.offset = 0xe5 := by decide +kernel
    rcases hend with h0 | hhit
    · exact absurd (h0.symm.trans (hmark s hs)) (by decide)
    · exact hhit.1.2.1 (hmark s hs)

end Armonios
