import Armonios.Fat32.Volume
import Mathlib.Data.List.Perm.Subperm

/-!
# What the FAT functions do

The effect of the functions of `Table` on the entries of the clusters of the data area. A write goes
through the copies one after the other, and the driver reads only the first: a fault before the
first copy is written changes nothing, one after it leaves the chains as if the write had been done.

* `writeFatEntry_spec`: one entry in all copies (`FatUpd`);
* `findFreeCluster_spec`: with a free cluster in the data area, the search returns one;
* `allocateHead_spec`, `allocateNext_spec`: a new chain, a chain one cluster longer;
* `freeClusterChain_spec`: all entries of a chain (`FatZero`);
* `fileChainCapacity_spec`: the length of a chain.
-/

namespace Armonios

variable {fs : Fat32Fs} {disk disk' disk'' : Nat → Sector} {d : Dev} {c x v k : Nat} {site : Site}
  {use : FatUse}

/-! ## One entry -/

theorem readSector_any {lba : Nat} :
    ReadsTo (readSector fs site lba) {site} True d (fun s => s = d.disk lba) := by
  by_cases h : fs.mounted = true ∧ fs.totalSectors ≤ lba
  · unfold readSector
    simp only [h, and_self, if_true]
    exact ReadsTo.fail trivial
  · exact (readSector_spec fun hm => by by_contra hl; exact h ⟨hm, by omega⟩).mono
      (fun _ h => h) (fun h => h.elim) fun _ h => h

/-- An entry that may be anything, in the FAT or not. -/
theorem readFatEntry_any :
    ReadsTo (readFatEntry fs site c) {site} True d (fun v => 2 ≤ c ∧ v = nextOf fs d.disk c) := by
  unfold readFatEntry
  refine ReadsTo.guard (fun _ => trivial) fun hc => ?_
  refine ReadsTo.bind readSector_any fun s d1 h1 _ hs => ?_
  subst hs
  exact ReadsTo.guard (fun _ => trivial) fun _ => ReadsTo.pure ⟨by omega, rfl⟩

theorem Mounted.fatSector_lt (hm : Mounted fs) (h : InData fs c) (hk : k < fs.fatCount) :
    fatSector fs k c < fs.totalSectors := by
  have h1 := (h.fatSector hm hk).2
  have h2 := h.dataBase_le
  omega

theorem readFatEntry_spec (site : Site) (d : Dev) (hm : Mounted fs) (h : InData fs c)
    (hb : nextOf fs d.disk c ≠ clusterBad) :
    ReadsTo (readFatEntry fs site c) {site} False d (fun v => v = nextOf fs d.disk c) := by
  unfold readFatEntry
  refine ReadsTo.guard (fun h2 => absurd h.ge (by omega)) fun _ => ?_
  refine ReadsTo.bind (readSector_spec fun _ => hm.fatSector_lt h hm.fats_pos) fun s d1 h1 _ hs => ?_
  subst hs
  exact ReadsTo.guard (fun he => hb he) fun _ => ReadsTo.pure rfl

theorem fatAt_lt (fs : Fat32Fs) (disk : Nat → Sector) (k c : Nat) : fatAt fs disk k c < clusterRange :=
  Nat.mod_lt _ (by decide)

/-- The successor on a chain is never the bad mark. -/
theorem next_ne_bad {a : Nat} {l : List Nat} (hc : Chain (nextOf fs disk) Eoc a l)
    (hl : ∀ y ∈ l, InData fs y) (hx : x ∈ l) : nextOf fs disk x ≠ clusterBad := by
  intro he
  rcases hc.next_mem_or_stop hx with h | h
  · have := (hl _ h).lt
    rw [he] at this
    exact lt_irrefl _ this
  · rw [he] at h
    exact absurd h (by decide)

/-- Between two disks only the FAT entry of `c` changed, to `v`. -/
structure FatUpd (fs : Fat32Fs) (c v : Nat) (disk disk' : Nat → Sector) : Prop where
  data : ∀ lba, dataBase fs ≤ lba → disk' lba = disk lba
  entry : ∀ x, InData fs x → nextOf fs disk' x = if x = c then v else nextOf fs disk x

/-- The sites of `write_fat_entry` at its first copy. -/
def firstCopy (use : FatUse) : Set Site := {.fatRead use 0, .fatWrite use 0}

/-- The sites of `write_fat_entry` at its other copies. -/
def laterCopies (use : FatUse) : Set Site :=
  {s | ∃ k, 0 < k ∧ (s = .fatRead use k ∨ s = .fatWrite use k)}

/-- The disk after the entry of `c` is written in the first `j` copies. -/
def fatPatched (fs : Fat32Fs) (c v j : Nat) (disk : Nat → Sector) : Nat → Sector := fun lba =>
  if ∃ k < j, lba = fs.fatStartLba + k * fs.sectorsPerFat + c / 128 then
    (disk lba).patch (entryOffset c) (putLe32 v)
  else disk lba

theorem fatPatched_zero : fatPatched fs c v 0 disk = disk := by
  funext lba
  simp [fatPatched]

private theorem copy_sector_inj (hm : Mounted fs) {j k i : Nat}
    (h : fs.fatStartLba + j * fs.sectorsPerFat + i = fs.fatStartLba + k * fs.sectorsPerFat + i) :
    j = k :=
  Nat.eq_of_mul_eq_mul_right hm.fat_pos (by omega)

theorem fatPatched_succ (hm : Mounted fs) (h : InData fs c) {j : Nat} (hj : j < fs.fatCount) :
    putSector (fatPatched fs c v j disk) (fatSector fs j c)
        ((fatPatched fs c v j disk (fatSector fs j c)).patch (entryOffset c) (putLe32 v)) =
      fatPatched fs c v (j + 1) disk := by
  have hs := (h.fatSector hm hj).1
  have hold : fatPatched fs c v j disk (fatSector fs j c) = disk (fatSector fs j c) := by
    refine if_neg ?_
    rintro ⟨k, hk, he⟩
    rw [hs] at he
    have := copy_sector_inj hm he
    omega
  rw [hold]
  funext lba
  by_cases hl : lba = fatSector fs j c
  · subst hl
    rw [putSector_same, fatPatched, if_pos ⟨j, by omega, hs⟩]
  · rw [putSector_ne _ _ hl]
    unfold fatPatched
    congr 1
    apply propext
    constructor
    · rintro ⟨k, hk, he⟩
      exact ⟨k, by omega, he⟩
    · rintro ⟨k, hk, he⟩
      refine ⟨k, ?_, he⟩
      by_contra hkj
      have : k = j := by omega
      subst this
      exact hl (he.trans hs.symm)

theorem fatPatched_upd (hm : Mounted fs) (h : InData fs c) (hv : v < clusterRange) {j : Nat}
    (hj0 : 0 < j) (hj : j ≤ fs.fatCount) : FatUpd fs c v disk (fatPatched fs c v j disk) := by
  constructor
  · intro lba hlba
    refine if_neg ?_
    rintro ⟨k, hk, he⟩
    have := h.fatSector hm (k := k) (by omega)
    omega
  · intro x hx
    have hsx := (hx.fatSector hm hm.fats_pos).1
    rw [Nat.zero_mul, Nat.add_zero] at hsx
    -- the sector of an entry in the first copy is written only for `k = 0`
    have hiff : (∃ k < j, fatSector fs 0 x = fs.fatStartLba + k * fs.sectorsPerFat + c / 128) ↔
        x / 128 = c / 128 := by
      rw [hsx]
      constructor
      · rintro ⟨k, -, he⟩
        have hxe := hx.entry
        cases k with
        | zero => omega
        | succ k => rw [Nat.add_mul] at he; omega
      · intro he
        exact ⟨0, hj0, by rw [he]; omega⟩
    unfold nextOf fatAt fatPatched
    by_cases hd : x / 128 = c / 128
    · rw [if_pos (hiff.mpr hd)]
      by_cases hxc : x = c
      · subst hxc
        rw [if_pos rfl, le32_patch_putLe32 _ hx.entryOffset_le]
        simp only [clusterRange] at hv ⊢
        omega
      · rw [if_neg hxc, le32_patch_out]
        rw [hx.entryOffset, h.entryOffset, length_putLe32]
        omega
    · rw [if_neg (mt hiff.mp hd), if_neg (fun he => hd (by rw [he]))]

theorem fatPatched_sameCopies (hm : Mounted fs) (h : InData fs c) (hs : SameCopies fs disk) :
    SameCopies fs (fatPatched fs c v fs.fatCount disk) := by
  have hmem : ∀ k < fs.fatCount, ∀ i < fs.sectorsPerFat,
      (∃ k' < fs.fatCount, fs.fatStartLba + k * fs.sectorsPerFat + i =
        fs.fatStartLba + k' * fs.sectorsPerFat + c / 128) ↔ i = c / 128 := by
    intro k hk i hi
    constructor
    · rintro ⟨k', -, he⟩
      have he' : i + fs.sectorsPerFat * k = c / 128 + fs.sectorsPerFat * k' := by
        rw [Nat.mul_comm, Nat.mul_comm _ k']; omega
      have := congrArg (· % fs.sectorsPerFat) he'
      simpa [Nat.mod_eq_of_lt hi, Nat.mod_eq_of_lt h.entry] using this
    · rintro rfl
      exact ⟨k, hk, rfl⟩
  intro k hk i hi
  have h0 := hmem 0 hm.fats_pos i hi
  rw [Nat.zero_mul, Nat.add_zero] at h0
  unfold fatPatched
  rw [hs k hk i hi]
  by_cases hi' : i = c / 128
  · rw [if_pos ((hmem k hk i hi).mpr hi'), if_pos (h0.mpr hi')]
  · rw [if_neg (mt (hmem k hk i hi).mp hi'), if_neg (mt h0.mp hi')]

theorem writeFatCopies_wp (hm : Mounted fs) (hw : fs.writable) (h : InData fs c) {n j : Nat}
    (hj : j + n = fs.fatCount) (hd : d.disk = fatPatched fs c (v % clusterRange) j disk) :
    Wp (writeFatCopies fs use c v j n) d
      (fun _ d' => d'.disk = fatPatched fs c (v % clusterRange) fs.fatCount disk ∧ d'.armed = d.armed)
      (fun e d' => e = .fail ∧ ∃ k < fs.fatCount, j ≤ k ∧
        d'.disk = fatPatched fs c (v % clusterRange) k disk ∧
        Stopped {.fatRead use k, .fatWrite use k} False d.armed d') := by
  induction n generalizing j d with
  | zero =>
    obtain rfl : j = fs.fatCount := by omega
    exact ⟨hd, rfl⟩
  | succ n ih =>
    have hlt := hm.fatSector_lt h (k := j) (by omega)
    refine wp_bind.mpr (ReadsTo.wp_bind (readSector_spec fun _ => hlt) (fun s d1 h1 a1 hs => ?_) ?_)
    · refine wp_writeSector hw hm.mounted hlt (fun d2 h2 a2 => ?_) fun d2 h2 s2 => ?_
      · rw [hs, h1, hd, fatPatched_succ hm h (by omega)] at h2
        refine Wp.mono (ih (by omega) h2) (fun _ d' ⟨q1, q2⟩ => ⟨q1, by rw [q2, a2, a1]⟩) ?_
        rintro e d' ⟨he, k, hk, hjk, q1, q2⟩
        exact ⟨he, k, hk, by omega, q1, by rw [← a1, ← a2]; exact q2⟩
      · refine ⟨rfl, j, by omega, le_rfl, by rw [h2, h1, hd], ?_⟩
        rw [← a1]
        exact s2.mono (by simp) id
    · intro d' h1 s1
      exact ⟨rfl, j, by omega, le_rfl, by rw [h1, hd], s1.mono (by simp) id⟩

/-- Writing an entry: all copies, or a fault before the first copy, or one after it. -/
theorem writeFatEntry_spec (hm : Mounted fs) (hw : fs.writable) (h : InData fs c)
    (hv : v < clusterRange) :
    Wp (writeFatEntry fs use c v) d
      (fun _ d' => FatUpd fs c v d.disk d'.disk ∧ (SameCopies fs d.disk → SameCopies fs d'.disk) ∧
        d'.armed = d.armed)
      (fun e d' => e = .fail ∧
        ((d'.disk = d.disk ∧ Stopped (firstCopy use) False d.armed d') ∨
          (FatUpd fs c v d.disk d'.disk ∧ Stopped (laterCopies use) False d.armed d'))) := by
  unfold writeFatEntry
  have hstart : d.disk = fatPatched fs c (v % clusterRange) 0 d.disk := fatPatched_zero.symm
  refine wp_guard (fun hc => ?_) fun _ => Wp.mono (writeFatCopies_wp hm hw h (by omega) hstart) ?_ ?_
  · have := h.ge
    rw [hw] at hc
    simp at hc
    omega
  · rintro _ d' ⟨hd, ha⟩
    rw [Nat.mod_eq_of_lt hv] at hd
    rw [hd]
    exact ⟨fatPatched_upd hm h hv hm.fats_pos le_rfl, fatPatched_sameCopies hm h, ha⟩
  · rintro e d' ⟨he, k, hk, -, hd, hs⟩
    rw [Nat.mod_eq_of_lt hv] at hd
    refine ⟨he, ?_⟩
    rcases Nat.eq_zero_or_pos k with rfl | hk0
    · exact .inl ⟨by rw [hd, fatPatched_zero], hs⟩
    · refine .inr ⟨by rw [hd]; exact fatPatched_upd hm h hv hk0 hk.le, hs.mono ?_ id⟩
      rintro s (rfl | rfl)
      · exact ⟨k, hk0, .inl rfl⟩
      · exact ⟨k, hk0, .inr rfl⟩

/-! ## Allocation -/

/-- At least `n` clusters of the data area are free. -/
def FreeClusters (fs : Fat32Fs) (disk : Nat → Sector) (n : Nat) : Prop :=
  ∃ l : List Nat, l.Nodup ∧ l.length = n ∧ ∀ c ∈ l, InData fs c ∧ nextOf fs disk c = 0

/-- One of the free clusters is taken. -/
theorem FreeClusters.take {n : Nat} (h : FreeClusters fs disk (n + 1)) (b : Nat)
    (hn : ∀ x, InData fs x → x ≠ b → nextOf fs disk x = 0 → nextOf fs disk' x = 0) :
    FreeClusters fs disk' n := by
  obtain ⟨l, hnd, hlen, hl⟩ := h
  have hfree : ∀ m : List Nat, m ⊆ l → b ∉ m → ∀ c ∈ m, InData fs c ∧ nextOf fs disk' c = 0 := by
    intro m hml hb c hc
    have := hl c (hml hc)
    exact ⟨this.1, hn c this.1 (fun e => hb (e ▸ hc)) this.2⟩
  by_cases hb : b ∈ l
  · refine ⟨l.erase b, hnd.erase b, by rw [List.length_erase_of_mem hb]; omega, ?_⟩
    exact hfree _ List.erase_subset (by rw [hnd.mem_erase_iff]; simp)
  · refine ⟨l.tail, hnd.tail, by simp [hlen], ?_⟩
    exact hfree _ (fun _ => List.mem_of_mem_tail) fun h => hb (List.mem_of_mem_tail h)

theorem findFreeFrom_spec {n : Nat} :
    ReadsTo (findFreeFrom fs c n) {.lookup} True d (fun b => c ≤ b ∧ b < c + n ∧ 2 ≤ b ∧
      nextOf fs d.disk b = 0 ∧ ∀ x, c ≤ x → x < b → nextOf fs d.disk x ≠ 0) := by
  induction n generalizing c d with
  | zero => exact ReadsTo.fail trivial
  | succ n ih =>
    unfold findFreeFrom
    refine ReadsTo.bind readFatEntry_any fun v d1 h1 _ hv => ?_
    split
    · rename_i h0
      exact ReadsTo.pure ⟨le_rfl, by omega, hv.1, by rw [← hv.2, h0], fun x _ _ => by omega⟩
    · rename_i h0
      refine (ih (d := d1)).mono (fun _ h => h) id fun b ⟨hb1, hb2, hb3, hb4, hb5⟩ => ?_
      rw [h1] at hb4 hb5
      refine ⟨by omega, by omega, hb3, hb4, fun x hx hxb => ?_⟩
      rcases Nat.eq_or_lt_of_le hx with rfl | hx
      · rw [← hv.2]; exact h0
      · exact hb5 x hx hxb

/-- With a free cluster in the data area, the search does not leave it: it takes the first free
entry. -/
theorem findFreeCluster_spec {n : Nat} (hf : FreeClusters fs d.disk (n + 1)) :
    ReadsTo (findFreeCluster fs) {.lookup} True d
      (fun b => InData fs b ∧ nextOf fs d.disk b = 0) := by
  refine findFreeFrom_spec.mono (fun _ h => h) id fun b ⟨_, hb, hb2, hb0, hbf⟩ => ⟨?_, hb0⟩
  obtain ⟨l, -, hlen, hl⟩ := hf
  obtain ⟨c, hc⟩ := List.exists_mem_of_length_pos (l := l) (by omega)
  obtain ⟨hcd, hc0⟩ := hl c hc
  refine hcd.of_le hb2 ?_
  by_contra hlt
  exact hbf c hcd.ge (by omega) hc0

/-- What the search finds, if anything, is a cluster of the data area. -/
def FindsOwn (fs : Fat32Fs) (d : Dev) : Prop := ∀ b d', findFreeCluster fs d = .ok b d' → InData fs b

theorem FreeClusters.findsOwn {n : Nat} (hf : FreeClusters fs d.disk (n + 1)) : FindsOwn fs d := fun _ _ h =>
  ((findFreeCluster_spec hf).of_ok h).2.2.1

theorem FindsOwn.search (h : FindsOwn fs d) : ReadsTo (findFreeCluster fs) {.lookup} True d
    (fun b => InData fs b ∧ nextOf fs d.disk b = 0) := by
  refine Wp.mono (Wp.and findFreeFrom_spec wp_self) (fun b d' hb => ?_) fun _ _ he => he.1
  obtain ⟨⟨hdisk, ha, -, -, -, hb0, -⟩, hrun⟩ := hb
  exact ⟨hdisk, ha, h b d' hrun, hb0⟩

theorem InData.lt_range (h : InData fs c) : c < clusterRange := by
  have := h.lt
  simp only [clusterBad, clusterRange] at this ⊢
  omega

/-- The effect of `allocate_cluster` for a new chain `b`. -/
def NewHead (fs : Fat32Fs) (b : Nat) (disk disk' : Nat → Sector) : Prop :=
  InData fs b ∧ nextOf fs disk b = 0 ∧ FatUpd fs b clusterEoc disk disk'

/-- The sites of `allocate_cluster` for a new chain. -/
def headSites : Set Site := {.lookup} ∪ firstCopy .head ∪ laterCopies .head

theorem allocateHead_spec (hm : Mounted fs) (hw : fs.writable) (hf : FindsOwn fs d) :
    Wp (allocateCluster fs 0) d
      (fun b d' => NewHead fs b d.disk d'.disk ∧ (SameCopies fs d.disk → SameCopies fs d'.disk) ∧
        d'.armed = d.armed)
      (fun e d' => e = .fail ∧ Stopped headSites True d.armed d' ∧
        (d'.disk = d.disk ∨ (∃ b, NewHead fs b d.disk d'.disk) ∧
          Stopped headSites False d.armed d')) := by
  unfold allocateCluster
  refine hf.search.wp_bind (fun b d1 h1 a1 ⟨hb, hb0⟩ => ?_) fun d' h1 s1 => ?_
  · simp only [ne_eq, not_true_eq_false, if_false]
    refine wp_bind.mpr (Wp.mono (writeFatEntry_spec hm hw hb (by decide)) ?_ ?_)
    · rintro _ d2 ⟨hu, hs, ha⟩
      rw [h1] at hu hs
      exact ⟨⟨hb, hb0, hu⟩, hs, by rw [ha, a1]⟩
    · rintro e d2 ⟨he, ⟨hd, hs⟩ | ⟨hu, hs⟩⟩ <;> rw [a1] at hs
      · exact ⟨he, hs.mono (fun s h => .inl (.inr h)) fun h => h.elim, .inl (by rw [hd, h1])⟩
      · rw [h1] at hu
        exact ⟨he, hs.mono (fun s h => .inr h) fun h => h.elim,
          .inr ⟨⟨b, hb, hb0, hu⟩, hs.mono (fun s h => .inr h) id⟩⟩
  · exact ⟨rfl, s1.mono (fun s h => .inl (.inl h)) id, .inl h1⟩

/-- The effect of `allocate_cluster` after the last cluster `p` of a chain. -/
structure NewTail (fs : Fat32Fs) (p b : Nat) (disk disk' : Nat → Sector) : Prop where
  inData : InData fs b
  free : nextOf fs disk b = 0
  data : ∀ lba, dataBase fs ≤ lba → disk' lba = disk lba
  entry : ∀ x, InData fs x →
    nextOf fs disk' x = if x = b then clusterEoc else if x = p then b else nextOf fs disk x

/-- The link is written and the new last cluster is still free. -/
def TornLink (fs : Fat32Fs) (p b : Nat) (disk disk' : Nat → Sector) : Prop :=
  InData fs b ∧ nextOf fs disk b = 0 ∧ FatUpd fs p b disk disk'

/-- The sites at which `allocate_cluster` stops between the link and the mark. -/
def tornLinkSites : Set Site := laterCopies .link ∪ firstCopy .tail

/-- The other sites of `allocate_cluster` after a last cluster. -/
def linkSites : Set Site := {.lookup} ∪ firstCopy .link ∪ laterCopies .tail

theorem allocateNext_spec {p : Nat} (hm : Mounted fs) (hw : fs.writable) (hp : InData fs p)
    (he : Eoc (nextOf fs d.disk p)) (hf : FindsOwn fs d) :
    Wp (allocateCluster fs p) d
      (fun b d' => NewTail fs p b d.disk d'.disk ∧ (SameCopies fs d.disk → SameCopies fs d'.disk) ∧
        d'.armed = d.armed)
      (fun e d' => e = .fail ∧
        ((d'.disk = d.disk ∧ Stopped linkSites True d.armed d') ∨
          (∃ b, NewTail fs p b d.disk d'.disk) ∧ Stopped linkSites False d.armed d' ∨
          (∃ b, TornLink fs p b d.disk d'.disk) ∧ Stopped tornLinkSites False d.armed d')) := by
  have hpb : nextOf fs d.disk p ≠ clusterBad := by
    intro h
    rw [h] at he
    exact absurd he (by decide)
  unfold allocateCluster
  refine hf.search.wp_bind (fun b d1 h1 a1 ⟨hb, hb0⟩ => ?_) fun d' h1 s1 => ?_
  · have hp0 : p ≠ 0 := by have := hp.ge; omega
    have hpb' : p ≠ b := by
      rintro rfl
      rw [hb0] at he
      exact absurd he (by decide)
    simp only [ne_eq, hp0, not_false_eq_true, if_true]
    have hread := readFatEntry_spec .lookup d1 hm hp (by rw [h1]; exact hpb)
    refine hread.wp_bind (fun v d2 h2 a2 hv => ?_) fun d' h2 s2 => ?_
    · have hve : clusterIsEoc v = true := by
        rw [hv, h1]
        exact decide_eq_true he
      refine wp_guard (fun h => absurd hve (by simp [h])) fun _ => ?_
      have hd2 : d2.disk = d.disk := by rw [h2, h1]
      have ha2 : d2.armed = d.armed := by rw [a2, a1]
      refine wp_bind.mpr (Wp.mono (writeFatEntry_spec hm hw hp hb.lt_range) ?_ ?_)
      · rintro _ d3 ⟨hu3, hs3, a3⟩
        rw [hd2] at hu3 hs3
        refine wp_bind.mpr (Wp.mono (writeFatEntry_spec hm hw hb (by decide)) ?_ ?_)
        · rintro _ d4 ⟨hu4, hs4, a4⟩
          refine ⟨⟨hb, hb0, fun lba hl => ?_, fun x hx => ?_⟩, fun h => hs4 (hs3 h), ?_⟩
          · rw [hu4.data lba hl, hu3.data lba hl]
          · rw [hu4.entry x hx, hu3.entry x hx]
          · rw [a4, a3, ha2]
        · rintro e d4 ⟨he4, ⟨hd4, hs⟩ | ⟨hu4, hs⟩⟩ <;> rw [a3, ha2] at hs
          · exact ⟨he4, .inr (.inr ⟨⟨b, hb, hb0, by rw [hd4]; exact hu3⟩, hs.mono (fun s h => .inr h) id⟩)⟩
          · refine ⟨he4, .inr (.inl ⟨⟨b, hb, hb0, fun lba hl => ?_, fun x hx => ?_⟩,
              hs.mono (fun s h => .inr h) id⟩)⟩
            · rw [hu4.data lba hl, hu3.data lba hl]
            · rw [hu4.entry x hx, hu3.entry x hx]
      · rintro e d3 ⟨he3, ⟨hd3, hs⟩ | ⟨hu3, hs⟩⟩ <;> rw [ha2] at hs
        · exact ⟨he3, .inl ⟨by rw [hd3, hd2], hs.mono (fun s h => .inl (.inr h)) fun h => h.elim⟩⟩
        · rw [hd2] at hu3
          exact ⟨he3, .inr (.inr ⟨⟨b, hb, hb0, hu3⟩, hs.mono (fun s h => .inl h) id⟩)⟩
    · rw [a1] at s2
      exact ⟨rfl, .inl ⟨by rw [h2, h1], s2.mono (fun s h => .inl (.inl h)) fun h => h.elim⟩⟩
  · exact ⟨rfl, .inl ⟨h1, s1.mono (fun s h => .inl (.inl h)) id⟩⟩

/-! ## Walks -/

/-- A chain in the data area is shorter than any loop bound. -/
theorem chain_length_lt {a : Nat} {l : List Nat} (hc : Chain (nextOf fs disk) Eoc a l)
    (hl : ∀ y ∈ l, InData fs y) : l.length < walkFuel := by
  have hsub : l ⊆ List.range clusterBad := fun y hy => List.mem_range.mpr (hl y hy).lt
  have := (List.subperm_of_subset hc.nodup hsub).length_le
  rw [List.length_range] at this
  simp only [clusterBad, walkFuel] at this ⊢
  omega

theorem capacityLoop_spec (hm : Mounted fs) {l : List Nat} {a total fuel : Nat}
    (hc : Chain (nextOf fs d.disk) Eoc a l) (hl : ∀ y ∈ l, InData fs y) (hfuel : l.length < fuel)
    (ht : total ≤ 0xffffffff) :
    ReadsTo (capacityLoop fs fuel total a) {.lookup} (0xffffffff < total + l.length * clusterBytesOf fs)
      d (fun t => t = total + l.length * clusterBytesOf fs ∧ t ≤ 0xffffffff) := by
  induction l generalizing a total fuel d with
  | nil =>
    obtain ⟨fuel, rfl⟩ : ∃ f, fuel = f + 1 := ⟨fuel - 1, by simp at hfuel; omega⟩
    have : ¬(2 ≤ a ∧ clusterIsEoc a = false) := by
      have := hc.stop_of_nil
      simp [clusterIsEoc, this]
    unfold capacityLoop
    simp only [this, if_false]
    exact ReadsTo.pure ⟨by simp, ht⟩
  | cons b l ih =>
    obtain rfl := hc.head_eq
    obtain ⟨fuel, rfl⟩ : ∃ f, fuel = f + 1 := ⟨fuel - 1, by omega⟩
    have ha := hl a (by simp)
    unfold capacityLoop
    simp only [ha.ge, ha.clusterIsEoc, and_self, if_true, List.length_cons, Nat.add_mul, Nat.one_mul]
    refine ReadsTo.guard (fun h => by omega) fun _ => ?_
    have hread := readFatEntry_spec .lookup d hm ha (next_ne_bad hc hl (by simp))
    refine ReadsTo.bind (hread.mono (fun _ h => h) (fun h => h.elim) fun _ h => h)
      fun v d1 h1 _ hv => ?_
    rw [hv]
    have hc' : Chain (nextOf fs d1.disk) Eoc (nextOf fs d.disk a) l := by rw [h1]; exact hc.tail
    refine (ih hc' (fun y hy => hl y (by simp [hy])) (by simp at hfuel; omega) (by omega)).mono
      (fun _ h => h) (fun h => by omega) fun t ht => ⟨by omega, ht.2⟩

theorem fileChainCapacity_spec (hm : Mounted fs) {l : List Nat} {a : Nat}
    (hc : Chain (nextOf fs d.disk) Eoc a l) (hl : ∀ y ∈ l, InData fs y) (ha : 2 ≤ a) :
    ReadsTo (fileChainCapacity fs a) {.lookup} (0xffffffff < l.length * clusterBytesOf fs) d
      (fun t => t = l.length * clusterBytesOf fs ∧ t ≤ 0xffffffff) := by
  unfold fileChainCapacity
  refine ReadsTo.guard (fun h => absurd ha (by omega)) fun _ => ?_
  exact (capacityLoop_spec hm hc hl (chain_length_lt hc hl) (by omega)).mono
    (fun _ h => h) (fun h => by omega) fun t ht => ⟨by omega, ht.2⟩

/-- Between two disks only FAT entries changed: those of `Z` are free now. -/
structure FatZero (fs : Fat32Fs) (Z : List Nat) (disk disk' : Nat → Sector) : Prop where
  data : ∀ lba, dataBase fs ≤ lba → disk' lba = disk lba
  entry : ∀ x, InData fs x → nextOf fs disk' x = if x ∈ Z then 0 else nextOf fs disk x

theorem FatZero.refl : FatZero fs [] disk disk := ⟨fun _ _ => rfl, fun _ _ => by simp⟩

theorem FatUpd.zero_trans {Z : List Nat} (h : FatUpd fs c 0 disk disk') (h' : FatZero fs Z disk' disk'') :
    FatZero fs (c :: Z) disk disk'' := by
  refine ⟨fun lba hl => by rw [h'.data lba hl, h.data lba hl], fun x hx => ?_⟩
  rw [h'.entry x hx, h.entry x hx]
  by_cases hz : x ∈ Z <;> by_cases hc : x = c <;> simp [hz, hc]

/-- The sites of `free_cluster_chain` before it changes anything. -/
def freeFirstSites : Set Site := {.freeNext true} ∪ firstCopy (.free true)

/-- The sites of `free_cluster_chain` after its first change. -/
def freeLaterSites : Set Site :=
  laterCopies (.free true) ∪ {.freeNext false} ∪ firstCopy (.free false) ∪ laterCopies (.free false)

/-- The rounds of the loop after the first one. -/
theorem freeLoop_rest (hm : Mounted fs) (hw : fs.writable) {l : List Nat} {a fuel : Nat}
    (hc : Chain (nextOf fs d.disk) Eoc a l) (hl : ∀ y ∈ l, InData fs y) (hfuel : l.length < fuel) :
    Wp (freeLoop fs fuel false a) d
      (fun _ d' => FatZero fs l d.disk d'.disk ∧ (SameCopies fs d.disk → SameCopies fs d'.disk) ∧
        d'.armed = d.armed)
      (fun e d' => e = .fail ∧ (∃ Z, FatZero fs Z d.disk d'.disk) ∧
        Stopped freeLaterSites False d.armed d') := by
  induction l generalizing a fuel d with
  | nil =>
    obtain ⟨fuel, rfl⟩ : ∃ f, fuel = f + 1 := ⟨fuel - 1, by simp at hfuel; omega⟩
    have : ¬(2 ≤ a ∧ clusterIsEoc a = false) := by
      have := hc.stop_of_nil
      simp [clusterIsEoc, this]
    unfold freeLoop
    simp only [this, if_false]
    exact ⟨FatZero.refl, id, rfl⟩
  | cons b l ih =>
    obtain rfl := hc.head_eq
    obtain ⟨fuel, rfl⟩ : ∃ f, fuel = f + 1 := ⟨fuel - 1, by omega⟩
    have ha := hl a (by simp)
    unfold freeLoop
    simp only [ha.ge, ha.clusterIsEoc, and_self, if_true]
    have hread := readFatEntry_spec (.freeNext false) d hm ha (next_ne_bad hc hl (by simp))
    refine hread.wp_bind (fun v d1 h1 a1 hv => ?_) fun d' h1 s1 => ?_
    · refine wp_bind.mpr (Wp.mono (writeFatEntry_spec hm hw ha (by decide)) ?_ ?_)
      · rintro _ d2 ⟨hu, hs, a2⟩
        rw [h1] at hu hs
        have hal : a ∉ l := (List.nodup_cons.mp hc.nodup).1
        have hc' : Chain (nextOf fs d2.disk) Eoc v l := by
          rw [hv]
          refine hc.tail.congr fun y hy => ?_
          rw [hu.entry y (hl y (by simp [hy])), if_neg (ne_of_mem_of_not_mem hy hal)]
        refine Wp.mono (ih hc' (fun y hy => hl y (by simp [hy])) (by simp at hfuel; omega)) ?_ ?_
        · rintro _ d' ⟨hz, hs', a'⟩
          exact ⟨hu.zero_trans hz, fun h => hs' (hs h), by rw [a', a2, a1]⟩
        · rintro e d' ⟨he, ⟨Z, hz⟩, hs'⟩
          rw [a2, a1] at hs'
          exact ⟨he, ⟨_, hu.zero_trans hz⟩, hs'⟩
      · rintro e d2 ⟨he, ⟨hd, hs⟩ | ⟨hu, hs⟩⟩ <;> rw [a1] at hs
        · exact ⟨he, ⟨[], by rw [hd, h1]; exact FatZero.refl⟩, hs.mono (fun s h => .inl (.inr h)) id⟩
        · rw [h1] at hu
          exact ⟨he, ⟨[a], hu.zero_trans FatZero.refl⟩, hs.mono (fun s h => .inr h) id⟩
    · exact ⟨rfl, ⟨[], by rw [h1]; exact FatZero.refl⟩, s1.mono (fun s h => .inl (.inl (.inr h))) id⟩

/-- Freeing a chain: all of it, or nothing, or at least its first cluster. -/
theorem freeClusterChain_spec (hm : Mounted fs) (hw : fs.writable) {l : List Nat} {a : Nat}
    (hc : Chain (nextOf fs d.disk) Eoc a (a :: l)) (hl : ∀ y ∈ a :: l, InData fs y) :
    Wp (freeClusterChain fs a) d
      (fun _ d' => FatZero fs (a :: l) d.disk d'.disk ∧
        (SameCopies fs d.disk → SameCopies fs d'.disk) ∧ d'.armed = d.armed)
      (fun e d' => e = .fail ∧
        ((d'.disk = d.disk ∧ Stopped freeFirstSites False d.armed d') ∨
          ((∃ Z, a ∈ Z ∧ FatZero fs Z d.disk d'.disk) ∧ Stopped freeLaterSites False d.armed d'))) := by
  have ha := hl a (by simp)
  have hlen := chain_length_lt hc hl
  have hl' : ∀ y ∈ l, InData fs y := fun y hy => hl y (by simp [hy])
  unfold freeClusterChain
  refine wp_guard (fun h => absurd ha.ge (by omega)) fun _ => ?_
  obtain ⟨fuel, hfuel⟩ : ∃ f, walkFuel = f + 1 := ⟨2 ^ 32 - 1, rfl⟩
  rw [hfuel] at hlen ⊢
  unfold freeLoop
  simp only [ha.ge, ha.clusterIsEoc, and_self, if_true]
  have hread := readFatEntry_spec (.freeNext true) d hm ha (next_ne_bad hc hl (by simp))
  refine hread.wp_bind (fun v d1 h1 a1 hv => ?_) fun d' h1 s1 => ?_
  · refine wp_bind.mpr (Wp.mono (writeFatEntry_spec hm hw ha (by decide)) ?_ ?_)
    · rintro _ d2 ⟨hu, hs, a2⟩
      rw [h1] at hu hs
      have hal : a ∉ l := (List.nodup_cons.mp hc.nodup).1
      have hc' : Chain (nextOf fs d2.disk) Eoc v l := by
        rw [hv]
        refine hc.tail.congr fun y hy => ?_
        rw [hu.entry y (hl' y hy), if_neg (ne_of_mem_of_not_mem hy hal)]
      refine Wp.mono (freeLoop_rest hm hw hc' hl' (by simp at hlen; omega)) ?_ ?_
      · rintro _ d' ⟨hz, hs', a'⟩
        exact ⟨hu.zero_trans hz, fun h => hs' (hs h), by rw [a', a2, a1]⟩
      · rintro e d' ⟨he, ⟨Z, hz⟩, hs'⟩
        rw [a2, a1] at hs'
        exact ⟨he, .inr ⟨⟨_, by simp, hu.zero_trans hz⟩, hs'⟩⟩
    · rintro e d2 ⟨he, ⟨hd, hs⟩ | ⟨hu, hs⟩⟩ <;> rw [a1] at hs
      · exact ⟨he, .inl ⟨by rw [hd, h1], hs.mono (fun s h => .inr h) id⟩⟩
      · rw [h1] at hu
        exact ⟨he, .inr ⟨⟨[a], by simp, hu.zero_trans FatZero.refl⟩,
          hs.mono (fun s h => .inl (.inl (.inl h))) id⟩⟩
  · exact ⟨rfl, .inl ⟨h1, s1.mono (fun s h => .inl h) id⟩⟩

end Armonios
