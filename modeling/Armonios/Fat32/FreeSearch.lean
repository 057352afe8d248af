import Mathlib.Data.Nat.Find
import Armonios.Fat32.TableSpec
import Armonios.Fat32.Mount

/-!
# The search for a free cluster

`find_free_cluster` looks at as many FAT entries as the FAT has, but from cluster 2 on, and stops at a bad one. What it
finds need not be a cluster of the volume.

* `findFreeCluster_finds`: the result, for any FAT that does not wrap;
* `findFreeCluster_exists`: when that is a cluster of the volume, or there is none that is free.
-/

namespace Armonios

/-- A FAT entry of the first copy by its place in whole numbers. -/
def entryOf (fs : Fat32Fs) (disk : Nat → Sector) (c : Nat) : Nat :=
  le32 (disk (fs.fatStartLba + c / 128)) (c % 128 * 4) % clusterRange

/-- A cluster with an entry in the first FAT copy and with all its sectors on the volume. -/
structure ClusterExists (fs : Fat32Fs) (c : Nat) : Prop where
  ge : 2 ≤ c
  entry : c / 128 < fs.sectorsPerFat
  room : fs.dataStartLba + (c - 2) * fs.sectorsPerCluster + fs.sectorsPerCluster ≤ fs.totalSectors

/-- The entries that the search looks at, less two. -/
def searchLength (fs : Fat32Fs) : Nat := fs.sectorsPerFat * 512 % 2 ^ 32 / 4

/-- The first entry from cluster 2 on that is free or bad is free. -/
structure SearchFinds (fs : Fat32Fs) (disk : Nat → Sector) (b : Nat) : Prop where
  ge : 2 ≤ b
  lt : b < searchLength fs + 2
  free : entryOf fs disk b = 0
  first : ∀ y, 2 ≤ y → y < b → entryOf fs disk y ≠ 0 ∧ entryOf fs disk y ≠ clusterBad

/-- A mounted volume whose data area starts where the FAT copies end. -/
structure FlatVolume (fs : Fat32Fs) : Prop where
  geometry : Mounted fs
  start : fs.dataStartLba = dataBase fs
  lt : fs.dataStartLba < fs.totalSectors

theorem flatVolume_of_mount {g : Fat32Fs} {d d' : Dev} (set : Bool) (h : fat32Mount d = .ok g d')
    (hflat : g.dataStartLba = g.reservedSectors + g.fatCount * g.sectorsPerFat) :
    FlatVolume (fat32SetWriteSector g set) := by
  obtain ⟨haccepted, rfl⟩ := (fat32Mount_spec d).of_ok h
  exact ⟨mounted_of_fat32Mount set h, hflat, haccepted.range⟩

section Search

variable {fs : Fat32Fs} {disk : Nat → Sector} {d : Dev} {b c n : Nat}

theorem SearchFinds.unique (h : SearchFinds fs disk b) (h' : SearchFinds fs disk c) : b = c := by
  rcases Nat.lt_trichotomy b c with hlt | heq | hlt
  · exact absurd h.free (h'.first b h.ge hlt).1
  · exact heq
  · exact absurd h'.free (h.first c h'.ge hlt).1

/-- An entry that the search looks at is in front of the data area, or the first thing in it. -/
theorem FlatVolume.fatSector (h : FlatVolume fs) (hc : c < searchLength fs + 2) :
    fatSector fs 0 c = fs.fatStartLba + c / 128 ∧ fs.fatStartLba + c / 128 < fs.totalSectors := by
  have hstart := h.start
  have hlt := h.lt
  have htotal := h.geometry.total_lt
  have hmul : 1 * fs.sectorsPerFat ≤ fs.fatCount * fs.sectorsPerFat := Nat.mul_le_mul_right _ h.geometry.fats_pos
  have hle : c / 128 ≤ fs.sectorsPerFat := by
    unfold searchLength at hc
    omega
  have hwrap : c * 4 % 2 ^ 32 / 512 = c / 128 := by
    unfold searchLength at hc
    omega
  unfold dataBase at hstart
  unfold Armonios.fatSector
  rw [hwrap]
  omega

theorem FlatVolume.nextOf (h : FlatVolume fs) (hc : c < searchLength fs + 2) (disk : Nat → Sector) :
    nextOf fs disk c = entryOf fs disk c := by
  have hoffset : entryOffset c = c % 128 * 4 := by
    unfold entryOffset
    unfold searchLength at hc
    omega
  unfold Armonios.nextOf fatAt entryOf
  rw [(h.fatSector hc).1, hoffset]

theorem readFatEntry_search (h : FlatVolume fs) (h2 : 2 ≤ c) (hc : c < searchLength fs + 2) :
    ReadsTo (readFatEntry fs .lookup c) {.lookup} (entryOf fs d.disk c = clusterBad) d
      (fun v => v = entryOf fs d.disk c ∧ entryOf fs d.disk c ≠ clusterBad) := by
  obtain ⟨hsector, hlt⟩ := h.fatSector hc
  have hnext := h.nextOf hc d.disk
  unfold Armonios.nextOf fatAt at hnext
  unfold readFatEntry
  refine ReadsTo.guard (fun hno => absurd h2 (by omega)) fun _ => ?_
  refine ReadsTo.bind ((readSector_spec fun _ => by rw [hsector]; exact hlt).mono
    (fun _ h => h) False.elim fun _ h => h)
    fun s d₁ hd _ hs => ?_
  subst hs
  rw [hnext]
  exact ReadsTo.guard id fun hbad => ReadsTo.pure ⟨rfl, hbad⟩

theorem findFreeFrom_search (h : FlatVolume fs) (h2 : 2 ≤ c) (hc : c + n ≤ searchLength fs + 2)
    (hbefore : ∀ y, 2 ≤ y → y < c → entryOf fs d.disk y ≠ 0 ∧ entryOf fs d.disk y ≠ clusterBad)
    (hend : c + n = searchLength fs + 2) :
    ReadsTo (findFreeFrom fs c n) {.lookup} (¬ ∃ b, SearchFinds fs d.disk b) d (SearchFinds fs d.disk) := by
  induction n generalizing c d with
  | zero =>
    refine ReadsTo.fail ?_
    rintro ⟨b, hb⟩
    exact (hbefore b hb.ge (by have := hb.lt; omega)).1 hb.free
  | succ n ih =>
    unfold findFreeFrom
    refine ReadsTo.bind ((readFatEntry_search h h2 (by omega)).mono (fun _ h => h) (fun hbad => ?_) fun _ h => h)
      fun v d₁ hd _ hv => ?_
    · rintro ⟨b, hb⟩
      rcases Nat.lt_trichotomy b c with hlt | rfl | hlt
      · exact (hbefore b hb.ge hlt).1 hb.free
      · rw [hb.free] at hbad
        exact absurd hbad (by decide)
      · exact (hb.first c h2 hlt).2 hbad
    · refine ReadsTo.ite (fun hz => ReadsTo.pure ?_) fun hz => ?_
      · exact ⟨h2, by omega, by rw [← hv.1, hz], hbefore⟩
      · rw [← hd]
        refine ih (by omega) (by omega) (fun y hy hyc => ?_) (by omega)
        rw [hd]
        rcases Nat.lt_succ_iff_lt_or_eq.mp hyc with hlt | rfl
        · exact hbefore y hy hlt
        · exact ⟨by rw [← hv.1]; exact hz, hv.2⟩

/-- The result of the search. -/
theorem findFreeCluster_finds (h : FlatVolume fs) : ReadsTo (findFreeCluster fs) {.lookup}
    (¬ ∃ b, SearchFinds fs d.disk b) d (SearchFinds fs d.disk) :=
  findFreeFrom_search h (Nat.le_refl 2) (Nat.le_of_eq (Nat.add_comm _ _)) (fun y hy hlt => by omega) (Nat.add_comm _ _)

/-- All copies of an entry are in front of the data area. -/
theorem FlatVolume.copySector_lt (h : FlatVolume fs) {k : Nat} (hc : c / 128 < fs.sectorsPerFat)
    (hk : k < fs.fatCount) : Armonios.fatSector fs k c < fs.totalSectors := by
  have hstart := h.start
  have hlt := h.lt
  have htotal := h.geometry.total_lt
  have hmul : (k + 1) * fs.sectorsPerFat ≤ fs.fatCount * fs.sectorsPerFat := Nat.mul_le_mul_right _ hk
  rw [Nat.add_mul, Nat.one_mul] at hmul
  unfold dataBase at hstart
  unfold Armonios.fatSector
  omega

/-- Only a callback can stop the update of an entry. -/
theorem writeFatEntry_stops {use : FatUse} {v : Nat} (h : FlatVolume fs) (hw : fs.writable = true) (h2 : 2 ≤ c)
    (hc : c / 128 < fs.sectorsPerFat) :
    Wp (writeFatEntry fs use c v) d (fun _ d' => d'.armed = d.armed)
      fun _ d' => Stopped Set.univ False d.armed d' := by
  have hcopies : ∀ n j, j + n ≤ fs.fatCount → ∀ d : Dev, Wp (writeFatCopies fs use c v j n) d
      (fun _ d' => d'.armed = d.armed) fun _ d' => Stopped Set.univ False d.armed d' := by
    intro n
    induction n with
    | zero => exact fun _ _ _ => rfl
    | succ n ih =>
      intro j hj d
      have hlt := h.copySector_lt (k := j) hc (by omega)
      refine wp_bind.mpr (ReadsTo.wp_bind (readSector_spec fun _ => hlt) (fun s d₁ _ ha₁ _ => ?_) ?_)
      · refine wp_writeSector hw h.geometry.mounted hlt (fun d₂ _ ha₂ => ?_) fun d₂ _ hs₂ => ?_
        · refine Wp.mono (ih (j + 1) (by omega) d₂) (fun _ d' ha => by rw [ha, ha₂, ha₁]) fun _ d' hs => ?_
          rwa [ha₂, ha₁] at hs
        · rw [ha₁] at hs₂
          exact hs₂.mono (Set.subset_univ _) id
      · exact fun d' _ hs => hs.mono (Set.subset_univ _) id
  unfold writeFatEntry
  refine wp_guard (fun hno => ?_) fun _ => hcopies fs.fatCount 0 (by omega) d
  rw [hw] at hno
  simp only [reduceCtorEq, false_or] at hno
  omega

/-- What the cluster before a new one has to be: none, or the last one of a chain. -/
def EndsChain (fs : Fat32Fs) (disk : Nat → Sector) (prev : Nat) : Prop :=
  prev = 0 ∨ 2 ≤ prev ∧ prev / 128 < fs.sectorsPerFat ∧ clusterIsEoc (Armonios.nextOf fs disk prev) = true

theorem readFatEntry_last (h : FlatVolume fs) (h2 : 2 ≤ c) (hc : c / 128 < fs.sectorsPerFat)
    (heoc : clusterIsEoc (Armonios.nextOf fs d.disk c) = true) :
    ReadsTo (readFatEntry fs .lookup c) {.lookup} False d fun v => v = Armonios.nextOf fs d.disk c := by
  unfold readFatEntry
  refine ReadsTo.guard (fun hno => absurd h2 (by omega)) fun _ => ?_
  refine ReadsTo.bind (readSector_spec fun _ => h.copySector_lt hc h.geometry.fats_pos) fun s d₁ _ _ hs => ?_
  subst hs
  refine ReadsTo.guard (fun hbad => ?_) fun _ => ReadsTo.pure rfl
  change Armonios.nextOf fs d.disk c = clusterBad at hbad
  rw [hbad] at heoc
  exact absurd heoc (by decide)

/-- An allocation takes the cluster that the search has found. -/
theorem allocateCluster_finds (h : FlatVolume fs) (prev : Nat) :
    Wp (allocateCluster fs prev) d (fun c _ => SearchFinds fs d.disk c) fun _ _ => True := by
  unfold allocateCluster
  refine (findFreeCluster_finds h).wp_bind (fun b d₁ _ _ hb => ?_) fun _ _ _ => trivial
  refine wp_ite (fun _ => ?_) fun _ => ?_
  · refine wp_bind_any fun v d₂ => ?_
    refine wp_guard (fun _ => trivial) fun _ => ?_
    refine wp_bind_any fun _ d₃ => ?_
    refine wp_bind_any fun _ d₄ => ?_
    exact wp_pure.mpr hb
  · refine wp_bind_any fun _ d₂ => ?_
    exact wp_pure.mpr hb

/-- Where the search finds a cluster that has an entry, only a callback can stop the allocation behind the end of a
chain. -/
theorem allocateCluster_stops (h : FlatVolume fs) (hw : fs.writable = true) {prev : Nat}
    (hprev : EndsChain fs d.disk prev) (hentry : ∀ b, SearchFinds fs d.disk b → b / 128 < fs.sectorsPerFat) :
    Wp (allocateCluster fs prev) d (fun _ _ => True)
      fun _ d' => Stopped Set.univ (¬ ∃ b, SearchFinds fs d.disk b) d.armed d' := by
  have hfault : ∀ {a : Option Site} {d' : Dev}, a = d.armed → Stopped Set.univ False a d' →
      Stopped Set.univ (¬ ∃ b, SearchFinds fs d.disk b) d.armed d' := by
    rintro a d' rfl hs
    exact hs.mono (Set.Subset.refl _) False.elim
  unfold allocateCluster
  refine (findFreeCluster_finds h).wp_bind (fun b d₁ hdisk₁ ha₁ hb => ?_) fun d₁ _ hs₁ =>
    hs₁.mono (Set.subset_univ _) id
  refine wp_ite (fun hne => ?_) fun _ => ?_
  · obtain h0 | ⟨h2, hp, heoc⟩ := hprev
    · exact absurd h0 hne
    rw [← hdisk₁] at heoc
    refine (readFatEntry_last h h2 hp heoc).wp_bind (fun v d₂ _ ha₂ hv => ?_) fun d₂ _ hs₂ =>
      hfault ha₁ (hs₂.mono (Set.subset_univ _) id)
    refine wp_guard (fun hno => ?_) fun _ => ?_
    · rw [hv, heoc] at hno
      cases hno
    refine wp_bind.mpr (Wp.mono (writeFatEntry_stops h hw h2 hp) (fun _ d₃ ha₃ => ?_) fun _ d₃ hs₃ =>
      hfault (ha₂.trans ha₁) hs₃)
    refine wp_bind.mpr (Wp.mono (writeFatEntry_stops h hw hb.ge (hentry b hb)) (fun _ _ _ => trivial)
      fun _ d₄ hs₄ => hfault (ha₃.trans (ha₂.trans ha₁)) hs₄)
  · exact wp_bind.mpr (Wp.mono (writeFatEntry_stops h hw hb.ge (hentry b hb)) (fun _ _ _ => trivial)
      fun _ d₂ hs₂ => hfault ha₁ hs₂)

/-! ## The clusters of the volume -/

/-- A free cluster of the volume. -/
def FreeCluster (fs : Fat32Fs) (disk : Nat → Sector) (c : Nat) : Prop := ClusterExists fs c ∧ entryOf fs disk c = 0

/-- A callback has failed. -/
def CallbackFailed (d d' : Dev) : Prop := d.fault ≠ none ∧ d'.fault = none

/-- The search returns a free cluster of the volume, and fails only if there is none or a callback does. -/
def FindsExisting (fs : Fat32Fs) (d : Dev) : Prop :=
  Wp (findFreeCluster fs) d (fun c _ => FreeCluster fs d.disk c)
    fun _ d' => CallbackFailed d d' ∨ ¬ ∃ c, FreeCluster fs d.disk c

/-- An allocation returns a cluster that was a free one of the volume. With a write callback, and for the start of a
chain or behind its end, it fails only if there is none or a callback does. -/
def AllocatesExisting (fs : Fat32Fs) (d : Dev) : Prop :=
  ∀ prev, Wp (allocateCluster fs prev) d (fun c _ => FreeCluster fs d.disk c)
    fun _ d' => fs.writable = true → EndsChain fs d.disk prev →
      CallbackFailed d d' ∨ ¬ ∃ c, FreeCluster fs d.disk c

/-- An entry that is searched, with none before it that is marked as bad. -/
structure Reached (fs : Fat32Fs) (disk : Nat → Sector) (c : Nat) : Prop where
  ge : 2 ≤ c
  lt : c < searchLength fs + 2
  good : ∀ y, 2 ≤ y → y < c → entryOf fs disk y ≠ clusterBad

/-- A free cluster of the volume is reached; or no cluster of the volume is free, and no other free entry is reached. -/
def SearchReaches (fs : Fat32Fs) (disk : Nat → Sector) : Prop :=
  (∃ c, FreeCluster fs disk c ∧ Reached fs disk c) ∨
    (∀ c, ¬ FreeCluster fs disk c) ∧ ∀ c, Reached fs disk c → entryOf fs disk c ≠ 0

/-- The clusters of the volume come first. -/
theorem ClusterExists.of_le (h : ClusterExists fs c) (h2 : 2 ≤ b) (hbc : b ≤ c) : ClusterExists fs b := by
  refine ⟨h2, Nat.lt_of_le_of_lt (Nat.div_le_div_right hbc) h.entry, ?_⟩
  have hroom := h.room
  have hmul : (b - 2) * fs.sectorsPerCluster ≤ (c - 2) * fs.sectorsPerCluster :=
    Nat.mul_le_mul_right _ (by omega)
  omega

theorem SearchFinds.reached (h : SearchFinds fs disk b) : Reached fs disk b :=
  ⟨h.ge, h.lt, fun y hy hlt => (h.first y hy hlt).2⟩

/-- The first free entry of those that are reached is what the search finds. -/
theorem Reached.finds (h : Reached fs disk c) (hfree : entryOf fs disk c = 0) :
    ∃ b, SearchFinds fs disk b ∧ b ≤ c := by
  classical
  have hex : ∃ b, 2 ≤ b ∧ entryOf fs disk b = 0 := ⟨c, h.ge, hfree⟩
  have hle : Nat.find hex ≤ c := Nat.find_min' hex ⟨h.ge, hfree⟩
  obtain ⟨hge, hzero⟩ := Nat.find_spec hex
  refine ⟨Nat.find hex, ⟨hge, Nat.lt_of_le_of_lt hle h.lt, hzero, fun y hy hlt => ⟨fun hy0 => ?_, ?_⟩⟩, hle⟩
  · exact Nat.find_min hex hlt ⟨hy, hy0⟩
  · exact h.good y hy (Nat.lt_of_lt_of_le hlt hle)

theorem searchReaches_iff : SearchReaches fs disk ↔ (∀ b, SearchFinds fs disk b → ClusterExists fs b) ∧
    ((∃ c, FreeCluster fs disk c) → ∃ b, SearchFinds fs disk b) := by
  constructor
  · rintro (⟨c, ⟨hexists, hfree⟩, hreached⟩ | ⟨hnone, hother⟩)
    · obtain ⟨b, hb, hle⟩ := hreached.finds hfree
      refine ⟨fun b' hb' => ?_, fun _ => ⟨b, hb⟩⟩
      rw [hb'.unique hb]
      exact hexists.of_le hb.ge hle
    · exact ⟨fun b hb => absurd hb.free (hother b hb.reached), fun ⟨c, hc⟩ => absurd hc (hnone c)⟩
  · rintro ⟨hfound, hreaches⟩
    by_cases hany : ∃ c, FreeCluster fs disk c
    · obtain ⟨b, hb⟩ := hreaches hany
      exact .inl ⟨b, ⟨hfound b hb, hb.free⟩, hb.reached⟩
    · rw [not_exists] at hany
      refine .inr ⟨hany, fun c hreached hfree => ?_⟩
      obtain ⟨b, hb, -⟩ := hreached.finds hfree
      exact hany b ⟨hfound b hb, hb.free⟩

/-- A run that was stopped without a reason of its own. -/
theorem Stopped.failed {S : Set Site} {F : Prop} {d d' : Dev} (h : Stopped S F d.armed d') (hno : ¬ F) :
    CallbackFailed d d' := by
  obtain ⟨hf, -⟩ | ⟨hused, site, -, harmed⟩ := h
  · exact absurd hf hno
  · refine ⟨fun hnone => ?_, hused⟩
    rw [fault_none.mpr hnone] at harmed
    cases harmed

theorem findsExisting_iff (h : FlatVolume fs) : (∀ fault, FindsExisting fs ⟨disk, fault⟩ ∧
    AllocatesExisting fs ⟨disk, fault⟩) ↔
    SearchReaches fs disk := by
  rw [searchReaches_iff]
  constructor
  · intro hall
    have hfinds := (hall none).1
    have hrun : ReadsTo (findFreeCluster fs) {.lookup} _ ⟨disk, none⟩ _ := findFreeCluster_finds h
    unfold FindsExisting Wp at hfinds
    unfold ReadsTo Wp at hrun
    cases hr : findFreeCluster fs ⟨disk, none⟩ with
    | ok c d' =>
      rw [hr] at hfinds hrun
      exact ⟨fun b hb => by rw [hb.unique hrun.2.2]; exact hfinds.1, fun _ => ⟨c, hrun.2.2⟩⟩
    | error e d' =>
      rw [hr] at hfinds hrun
      have hnone : ¬ ∃ b, SearchFinds fs disk b := hrun.2.2.refused.1
      refine ⟨fun b hb => absurd ⟨b, hb⟩ hnone, fun hfree => ?_⟩
      rcases hfinds with ⟨hno, -⟩ | hno
      · exact absurd rfl hno
      · exact absurd hfree hno
  · rintro ⟨hfound, hreaches⟩ fault
    constructor
    · refine Wp.mono (findFreeCluster_finds h) (fun c _ hc => ⟨hfound c hc.2.2, hc.2.2.free⟩) ?_
      rintro e d' ⟨-, -, hstop⟩
      by_cases hany : ∃ c, FreeCluster fs disk c
      · exact .inl (hstop.failed (not_not.mpr (hreaches hany)))
      · exact .inr hany
    · intro prev
      refine Wp.mono (Wp.and (allocateCluster_finds h prev) (?_ : Wp _ _ (fun _ _ => True) fun _ d' =>
        fs.writable = true → EndsChain fs disk prev → CallbackFailed ⟨disk, fault⟩ d' ∨
          ¬ ∃ c, FreeCluster fs disk c)) (fun c _ hc => ⟨hfound c hc.1, hc.1.free⟩) fun _ _ he => he.2
      by_cases hok : fs.writable = true ∧ EndsChain fs disk prev ∧ ∃ c, FreeCluster fs disk c
      · obtain ⟨hw, hprev, hany⟩ := hok
        refine Wp.mono (allocateCluster_stops h hw hprev fun b hb => (hfound b hb).entry) (fun _ _ _ => trivial)
          fun _ d' hstop _ _ => .inl (hstop.failed (not_not.mpr (hreaches hany)))
      · refine Wp.mono (wp_const trivial) (fun _ _ _ => trivial) fun _ d' _ hw hprev => .inr fun hany => ?_
        exact hok ⟨hw, hprev, hany⟩

end Search

/-- On a mounted volume whose data area starts without wrapping, whatever the callback does, the search and the
allocation find a free cluster of the volume if there is one, and no other cluster, exactly if the search reaches a free
one, or there is neither a free one nor another free entry that it reaches. -/
theorem findFreeCluster_exists (g : Fat32Fs) (d d' : Dev) (set : Bool) (disk : Nat → Sector)
    (hmount : fat32Mount d = .ok g d') (hflat : g.dataStartLba = g.reservedSectors + g.fatCount * g.sectorsPerFat) :
    (∀ fault, FindsExisting (fat32SetWriteSector g set) ⟨disk, fault⟩ ∧
        AllocatesExisting (fat32SetWriteSector g set) ⟨disk, fault⟩) ↔
      SearchReaches (fat32SetWriteSector g set) disk :=
  findsExisting_iff (flatVolume_of_mount set hmount hflat)

/-- A volume of four sectors: the boot sector, the FAT, and the clusters 2 and 3. -/
def smallBoot : Sector :=
  (((((Sector.zero.patch 11 (putLe16 512)).patch 13 [1]).patch 14 (putLe16 1)).patch 16 [1]).patch 19
    (putLe16 4)).patch 36 (putLe32 1 ++ [0, 0, 0, 0] ++ putLe32 2)

/-- Both clusters are in use. -/
def fullDisk (lba : Nat) : Sector :=
  if lba = 0 then smallBoot else Sector.zero.patch 8 (putLe32 clusterEoc ++ putLe32 clusterEoc)

theorem smallBoot_mounts : fat32Mount ⟨fullDisk, none⟩ = .ok (bootGeometry smallBoot) ⟨fullDisk, none⟩ := rfl

theorem findFreeCluster_exists_small :
    (∀ fault, FindsExisting (fat32SetWriteSector (bootGeometry smallBoot) true) ⟨fullDisk, fault⟩ ∧
        AllocatesExisting (fat32SetWriteSector (bootGeometry smallBoot) true) ⟨fullDisk, fault⟩) ↔
      SearchReaches (fat32SetWriteSector (bootGeometry smallBoot) true) fullDisk :=
  findFreeCluster_exists _ _ _ true fullDisk smallBoot_mounts (by decide +kernel)

/-- The search goes on behind the last cluster. -/
theorem full_finds_more : ¬ ∀ fault, FindsExisting (fat32SetWriteSector (bootGeometry smallBoot) true) ⟨fullDisk,
    fault⟩ ∧
    AllocatesExisting (fat32SetWriteSector (bootGeometry smallBoot) true) ⟨fullDisk, fault⟩ := by
  intro h
  have hroom := ((h none).1.of_ok (show findFreeCluster (fat32SetWriteSector (bootGeometry smallBoot) true)
    ⟨fullDisk, none⟩ = .ok 4 ⟨fullDisk, none⟩ from rfl)).1.room
  exact absurd hroom (by decide +kernel)

end Armonios
