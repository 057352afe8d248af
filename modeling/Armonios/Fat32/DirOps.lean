import Armonios.Fat32.WriteCall

/-!
# What creating, deleting and renaming do

The outcomes of the three operations that change the root directory, with and without a fault.
`fat32_create` marks the new cluster before an entry names it, so a fault can only lose a cluster.
`fat32_delete` frees the chain before it takes the entry away: between the two a live entry has a
chain of free clusters. A lookup that fails counts as "no such file" in create and rename, so a fault
in it is swallowed (`Stopped.trans`).

* `create_spec`, `Created`;
* `delete_spec`, `Deleted`;
* `rename_spec`, `Renamed`.
-/

namespace Armonios

variable {fs : Fat32Fs} {sel : UInt8 → Bool} {r : List Nat} {disk disk' disk'' : Nat → Sector} {d : Dev}
  {s : Slot} {l : List Nat} {b : Nat} {name short : List UInt8}

/-! ## Lookups that may fail -/

/-- What follows a lookup whose fault may have been swallowed. -/
theorem Stopped.trans {S₁ S₂ : Set Site} {F : Prop} {a : Option Site} {d₁ d₂ : Dev}
    (h₁ : Stopped S₁ True a d₁) (h₂ : Stopped S₂ F d₁.armed d₂) : Stopped (S₁ ∪ S₂) F a d₂ := by
  rcases h₁ with ⟨-, ha⟩ | ⟨hn, s, hs, ha⟩
  · rw [ha] at h₂
    exact h₂.mono Set.subset_union_right id
  · have hnone : d₁.armed = none := by simp [Dev.armed, hn]
    rw [hnone] at h₂
    refine .inr ⟨?_, s, .inl hs, ha⟩
    simpa [Dev.armed] using h₂.refused.2

/-- Whether a lookup found a file. On a reliable disk "no" means that there is none. -/
theorem attemptOpen_bind {β : Type} {f : Option Fat32File → Io β} {Q : β → Dev → Prop}
    {E : Err → Dev → Prop} (hv : Volume fs sel r d.disk) (hsel : SelectsFiles sel)
    (hq : ∀ o d₁, attempt Err.isFail (fat32OpenRoot fs name) d = .ok o d₁ → d₁.disk = d.disk →
      Stopped openSites True d.armed d₁ →
      (d.armed = none → o = none → ¬∃ s l, Openable fs r d.disk name s l) → Wp (f o) d₁ Q E) :
    Wp (attempt Err.isFail (fat32OpenRoot fs name) >>= f) d Q E := by
  have hlookup : Wp (attempt Err.isFail (fat32OpenRoot fs name)) d (fun o d₁ => d₁.disk = d.disk ∧
      Stopped openSites True d.armed d₁ ∧
      (d.armed = none → o = none → ¬∃ s l, Openable fs r d.disk name s l)) fun _ _ => False := by
    rw [wp_attempt]
    refine Wp.mono (openRoot_spec hv hsel name) ?_ ?_
    · intro file d₁ h
      exact ⟨h.1, .inl ⟨trivial, h.2.1⟩, by simp⟩
    · intro e d₁ h
      obtain ⟨rfl, hd, hst⟩ := h
      refine ⟨hd, hst.mono (fun _ h => h) fun _ => trivial, fun ha _ => ?_⟩
      rw [ha] at hst
      exact hst.refused.1
  refine hlookup.bind_run (fun o d₁ hrun h => ?_) fun _ _ => False.elim
  exact hq o d₁ hrun h.1 h.2.1 h.2.2

/-! ## Creating -/

/-- Between two disks the entry `s` was filled with a new empty file of the one cluster `b`. -/
structure Created (fs : Fat32Fs) (sel : UInt8 → Bool) (r : List Nat) (short : List UInt8) (s : Slot)
    (b : Nat) (disk disk' : Nat → Sector) : Prop where
  volume : Volume fs sel r disk'
  slot : FirstFree disk (slotsOf fs r) s
  inData : InData fs b
  free : nextOf fs disk b = 0
  last : Eoc (nextOf fs disk' b)
  others : ∀ t ∈ slotsOf fs r, t ≠ s → SameEntry disk disk' t
  name : entryName (disk' s.lba) s.offset = short
  mark : entryMark (disk' s.lba) s.offset = short.getD 0 0
  attr : entryAttr (disk' s.lba) s.offset = 0x20
  first : slotFirst disk' s = b
  size : slotSize disk' s = 0
  data : ∀ lba, dataBase fs ≤ lba → lba ∉ cellLbas fs b → lba ≠ s.lba → disk' lba = disk lba
  next : ∀ x, InData fs x → x ≠ b → nextOf fs disk' x = nextOf fs disk x

theorem zeroSectors_spec (hm : Mounted fs) (hw : fs.writable) (hb : InData fs b) {is : List Nat}
    (his : ∀ i ∈ is, i < fs.sectorsPerCluster) :
    Wp (zeroSectors fs (clusterToLba fs b) is) d
      (fun _ d' => (∀ lba, lba ∉ cellLbas fs b → d'.disk lba = d.disk lba) ∧ d'.armed = d.armed)
      (fun e d' => e = .fail ∧ (∀ lba, lba ∉ cellLbas fs b → d'.disk lba = d.disk lba) ∧
        Stopped {.zeroWrite} False d.armed d') := by
  induction is generalizing d with
  | nil => exact ⟨fun _ _ => rfl, rfl⟩
  | cons i is ih =>
    have hi := his i (by simp)
    unfold zeroSectors
    rw [hm.clusterToLba hb hi]
    refine wp_bind.mpr (wp_writeSector hw hm.mounted (hb.lba_lt hi) (fun d1 h1 a1 => ?_) fun d1 h1 s1 => ?_)
    · have hd1 : ∀ lba, lba ∉ cellLbas fs b → d1.disk lba = d.disk lba := fun lba hlba => by
        rw [h1, putSector_ne]
        rintro rfl
        exact hlba (mem_cellLbas.mpr ⟨i, hi, rfl⟩)
      refine Wp.mono (ih fun k hk => his k (by simp [hk])) ?_ ?_
      · intro _ d' h
        exact ⟨fun lba hlba => by rw [h.1 lba hlba, hd1 lba hlba], by rw [h.2, a1]⟩
      · intro e d' h
        refine ⟨h.1, fun lba hlba => by rw [h.2.1 lba hlba, hd1 lba hlba], ?_⟩
        rw [← a1]
        exact h.2.2
    · exact ⟨rfl, fun lba _ => by rw [h1], s1⟩

theorem isFile_archive : isFile 0x20 = true := by decide

/-- The entry is written: the volume has a new file, or none where the name hides it. -/
theorem created_of_edit (hv : Volume fs sel r disk) (hsel : SelectsFiles sel) (hfree : FirstFree disk (slotsOf fs r) s)
    (hb : NewHead fs b disk disk') (hlen : short.length = 11) (h0 : short.getD 0 0 ≠ 0)
    (hd : disk'' = editSlot disk' s [(0, dirEntryBytes short 0x20 b 0)]) :
    Created fs sel r short s b disk disk'' := by
  have hs := hfree.mem
  obtain ⟨hv1, -, hfresh⟩ := hv.of_newHead hb
  obtain ⟨hbd, hb0, hu⟩ := hb
  have hm := hv.geometry
  have hb32 : b < 2 ^ 32 := by
    have := hbd.lt_range
    simp only [clusterRange] at this
    omega
  have hu2 : SlotUpd fs r s disk' disk'' := by
    rw [hd]
    exact slotUpd_edit hs (by simp [length_dirEntryBytes hlen])
  obtain ⟨hname, hmark, hattr, hfirst, hsize⟩ :=
    createEdit_fields (disk' s.lba) (offset_le hs) hlen hb32 (show 0 < 2 ^ 32 by decide)
  have e := editSlot_at disk' s [(0, dirEntryBytes short 0x20 b 0)]
  rw [← hd] at e
  rw [← e] at hname hmark hattr hfirst hsize
  have heoc : Eoc (nextOf fs disk' b) := by rw [hu.entry b hbd, if_pos rfl]
  have hv2 : Volume fs sel r disk'' := by
    by_cases he5 : short.getD 0 0 = 0xe5
    · -- the name starts with the deleted mark: the new entry is not live
      refine hv1.drop_slot hs hu2 (if_neg ?_)
      intro h
      exact h.2.1.2.1 (by rw [hmark, he5])
    · refine hv1.add_head hfresh hbd heoc hs hu2 (heads_some.mpr ⟨hs, ?_, ?_, ?_, hfirst⟩)
      · refine ⟨by rw [hmark]; exact h0, by rw [hmark]; exact he5, ?_⟩
        rw [hattr]
        decide
      · rw [hattr]
        exact hsel _ isFile_archive
      · exact le_of_le_of_eq hbd.ge hfirst.symm
  refine ⟨hv2, hfree, hbd, hb0, by rw [hu2.next hm hs hbd]; exact heoc, ?_, hname, hmark, hattr, hfirst,
    hsize, ?_, ?_⟩
  · intro t ht hts
    exact (SameEntry.of_eq (hu.data _ (dataBase_le_of_mem (mem_slotsOf.mp ht).1))).trans
      (hu2.entries t ht hts)
  · intro lba hlba _ hne
    rw [hu2.other lba hne, hu.data lba hlba]
  · intro x hx hxb
    rw [hu2.next hm hs hx, hu.entry x hx, if_neg hxb]

/-- The zeroing of its cluster keeps the new file. -/
theorem Created.zero (h : Created fs sel r short s b disk disk') (hv : Volume fs sel r disk)
    (hz : ∀ lba, lba ∉ cellLbas fs b → disk'' lba = disk' lba) :
    Created fs sel r short s b disk disk'' := by
  have hbr : b ∉ r := hv.fresh_of_free h.free none _ _ heads_none hv.root
  have hcell : ∀ lba ∈ chainLbas fs r, lba ∉ cellLbas fs b := by
    intro lba hlba hmem
    refine chainLbas_disjoint (fun _ hc => hv.inData_root hc) (m := [b]) (by simpa using h.inData) ?_ hlba
      (mem_chainLbas.mpr ⟨b, by simp, hmem⟩)
    intro c hc hcb
    exact hbr (by rw [← List.mem_singleton.mp hcb]; exact hc)
  have hlow : ∀ lba, lba < dataBase fs → lba ∉ cellLbas fs b := by
    intro lba hlba hmem
    obtain ⟨i, -, rfl⟩ := mem_cellLbas.mp hmem
    have := dataBase_le_lbaOf fs b i
    omega
  have hkeep : ∀ lba, lba < dataBase fs ∨ lba ∈ chainLbas fs r → disk'' lba = disk' lba := by
    intro lba hlba
    refine hz lba ?_
    rcases hlba with hlba | hlba
    · exact hlow lba hlba
    · exact hcell lba hlba
  obtain ⟨hv2, hn⟩ := h.volume.of_data hkeep
  have hroot : ∀ t ∈ slotsOf fs r, disk'' t.lba = disk' t.lba := fun t ht =>
    hz _ (hcell _ (mem_slotsOf.mp ht).1)
  have hs := hroot s h.slot.mem
  refine ⟨hv2, h.slot, h.inData, h.free, by rw [hn b h.inData]; exact h.last, ?_,
    by rw [hs]; exact h.name, by rw [hs]; exact h.mark, by rw [hs]; exact h.attr, ?_, ?_, ?_, ?_⟩
  · intro t ht hts
    exact (h.others t ht hts).trans (SameEntry.of_eq (hroot t ht))
  · show entryFirst (disk'' s.lba) _ = b
    rw [hs]
    exact h.first
  · show entrySize (disk'' s.lba) _ = 0
    rw [hs]
    exact h.size
  · intro lba hlba hmem hne
    rw [hz lba hmem, h.data lba hlba hmem hne]
  · intro x hx hxb
    rw [hn x hx, h.next x hx hxb]

/-- The sites of `fat32_create`. -/
def createSites : Set Site := openSites ∪ (openSites ∪ headSites ∪ slotSites .create ∪ {.zeroWrite})

/-- The calls of `fat32_create` that come to the allocation; on a reliable disk the file is new. -/
structure CreateAllocates (fs : Fat32Fs) (r : List Nat) (d : Dev) (name : List UInt8) : Prop where
  new : d.armed = none → ¬∃ s l, Openable fs r d.disk name s l
  name : makeShortName name ≠ none
  slot : ∃ s ∈ slotsOf fs r, FreeSlot d.disk s

/-- The create comes as far as taking a cluster: it is to fill the entry `s`, and the search has found `b`. -/
structure CreateTakes (fs : Fat32Fs) (name : List UInt8) (d : Dev) (s : Slot) (b : Nat) : Prop where
  writable : fs.writable = true
  short : makeShortName name ≠ none
  found : ∃ d₁ d₂ d₃, attempt Err.isFail (fat32OpenRoot fs name) d = .ok none d₁ ∧
    findFreeDirEntry fs d₁ = .ok s d₂ ∧ findFreeCluster fs d₂ = .ok b d₃

/-- A create that takes a cluster comes to the allocation. -/
theorem CreateTakes.allocates (h : CreateTakes fs name d s b) (hv : Volume fs sel r d.disk) (hsel : SelectsFiles sel) :
    CreateAllocates fs r d name ∧ ∃ d₂ d₃ : Dev, d₂.disk = d.disk ∧ findFreeCluster fs d₂ = .ok b d₃ := by
  obtain ⟨d₁, d₂, d₃, hopen, hslot, hfind⟩ := h.found
  have hlookup := attemptOpen_bind (f := pure) (Q := fun o d₁ => d₁.disk = d.disk ∧
    (d.armed = none → o = none → ¬∃ s l, Openable fs r d.disk name s l)) (E := fun _ _ => False) hv hsel
    fun o d₁ _ hdisk _ hno => wp_pure.mpr ⟨hdisk, hno⟩
  rw [bind_pure] at hlookup
  obtain ⟨hdisk₁, hno⟩ := hlookup.of_ok hopen
  rw [← hdisk₁] at hv
  obtain ⟨hdisk₂, -, hfirst⟩ := (findFreeDirEntry_spec hv).of_ok hslot
  refine ⟨⟨fun ha => hno ha rfl, h.short, s, hfirst.mem, ?_⟩, d₂, d₃, hdisk₂.trans hdisk₁, hfind⟩
  rw [← hdisk₁]
  exact hfirst.1

theorem takesOwn_of_free (hv : Volume fs sel r d.disk) (hsel : SelectsFiles sel)
    (hfree : CreateAllocates fs r d name → FreeClusters fs d.disk 1) :
    ∀ s b, CreateTakes fs name d s b → InData fs b := by
  intro s b h
  obtain ⟨hallocates, d₂, d₃, hdisk, hfind⟩ := h.allocates hv hsel
  have hfree := hfree hallocates
  rw [← hdisk] at hfree
  exact FreeClusters.findsOwn (n := 0) hfree b d₃ hfind

theorem create_spec (hw : fs.writable) (hv : Volume fs sel r d.disk) (hsel : SelectsFiles sel)
    (hown : ∀ s b, CreateTakes fs name d s b → InData fs b) :
    Wp (fat32Create fs name) d
      (fun file d' => ∃ short s b, makeShortName name = some short ∧
        Created fs sel r short s b d.disk d'.disk ∧ file = ⟨b, s.lba, s.offset, clusterBytesOf fs, 0⟩ ∧
        (SameCopies fs d.disk → SameCopies fs d'.disk) ∧
        (d.armed = none → d'.armed = none ∧ ¬∃ s l, Openable fs r d.disk name s l))
      (fun e d' => e = .fail ∧ ((d'.disk = d.disk ∧ Stopped createSites True d.armed d') ∨
        (Volume fs sel r d'.disk ∧ Stopped createSites False d.armed d'))) := by
  have hm := hv.geometry
  unfold fat32Create
  refine wp_guard (fun h => ?_) fun _ => ?_
  · rw [hm.mounted, hw] at h
    simp at h
  cases hn : makeShortName name with
  | none => exact ⟨rfl, .inl ⟨rfl, .inl ⟨trivial, rfl⟩⟩⟩
  | some short =>
    obtain ⟨hlen, h0⟩ := makeShortName_ok hn
    refine attemptOpen_bind hv hsel fun o d1 hrun1 h1 s1 hno => ?_
    refine wp_guard (fun _ => ⟨rfl, .inl ⟨h1, s1.mono Set.subset_union_left id⟩⟩) fun ho => ?_
    have hnone : o = none := by simpa using ho
    -- a stop after the lookup
    have hstop : ∀ {S : Set Site} {F : Prop} {d' : Dev}, S ⊆ openSites ∪ headSites ∪ slotSites .create ∪
        {.zeroWrite} → Stopped S F d1.armed d' → Stopped createSites F d.armed d' := fun hS h =>
      (s1.trans h).mono (Set.union_subset_union_right _ hS) id
    rw [← h1] at hv
    refine Wp.bind_run (findFreeDirEntry_spec hv) (fun s d2 hrun2 h => ?_) fun e d' h => ?_
    swap
    · obtain ⟨he, h2, s2⟩ := h
      exact ⟨he, .inl ⟨by rw [h2, h1], hstop (fun x hx => .inl (.inl (.inl hx))) s2⟩⟩
    obtain ⟨h2, a2, hs⟩ := h
    have hd2 : d2.disk = d.disk := by rw [h2, h1]
    have hfinds : FindsOwn fs d2 := fun b d3 hrun3 =>
      hown s b ⟨hw, by rw [hn]; simp, d1, d2, d3, by rw [hrun1, hnone], hrun2, hrun3⟩
    rw [← h2] at hv hs
    refine wp_bind.mpr (Wp.mono (allocateHead_spec hm hw hfinds) ?_ ?_)
    · intro b d3 h
      obtain ⟨hnew, hcop3, a3⟩ := h
      refine wp_bind.mpr (Wp.mono (patchSlot_spec hm.mounted hw (hv.slot_lt hs.mem)) ?_ ?_)
      · intro _ d4 h
        obtain ⟨hd4, a4⟩ := h
        have hcr := created_of_edit hv hsel hs hnew hlen h0 hd4
        have hcop4 : SameCopies fs d2.disk → SameCopies fs d4.disk := fun hc => by
          rw [hd4]
          exact (slotUpd_edit hs.mem (by simp [length_dirEntryBytes hlen])).sameCopies hs.mem (hcop3 hc)
        refine wp_bind.mpr (Wp.mono (zeroSectors_spec hm hw hnew.1 fun i hi => List.mem_range.mp hi) ?_ ?_)
        · intro _ d5 h
          obtain ⟨hz, a5⟩ := h
          have hcr5 := hcr.zero hv hz
          rw [hd2] at hcr5
          refine ⟨short, s, b, rfl, hcr5, rfl, fun hc => ?_, fun ha => ⟨?_, hno ha hnone⟩⟩
          · rw [← hd2] at hc
            intro k hk i hi
            have hkm : (k + 1) * fs.sectorsPerFat ≤ fs.fatCount * fs.sectorsPerFat :=
              Nat.mul_le_mul_right _ hk
            rw [Nat.add_mul, Nat.one_mul] at hkm
            have hout : ∀ lba, lba < dataBase fs → d5.disk lba = d4.disk lba := fun lba hlt =>
              hz lba fun hmem => by
                obtain ⟨i, -, rfl⟩ := mem_cellLbas.mp hmem
                have := dataBase_le_lbaOf fs b i
                omega
            rw [hout _ (by unfold dataBase; omega), hout _ (by unfold dataBase; omega)]
            exact hcop4 hc k hk i hi
          · rw [a5, a4, a3, a2]
            rw [ha] at s1
            exact s1.refused.2
        · intro e d5 h
          obtain ⟨he, hz, hst⟩ := h
          rw [a4, a3, a2] at hst
          exact ⟨he, .inr ⟨(hcr.zero hv hz).volume, hstop (fun x hx => .inr hx) hst⟩⟩
      · intro e d4 h
        obtain ⟨he, hd4, hst⟩ := h
        rw [a3, a2] at hst
        refine ⟨he, .inr ⟨?_, hstop (fun x hx => .inl (.inr hx)) hst⟩⟩
        rw [hd4]
        exact (hv.of_newHead hnew).1
    · intro e d3 h
      obtain ⟨he, hst, hd3⟩ := h
      rw [a2] at hst hd3
      rcases hd3 with hd3 | ⟨⟨b, hnew⟩, hst'⟩
      · exact ⟨he, .inl ⟨by rw [hd3, hd2], hstop (fun x hx => .inl (.inl (.inr hx))) hst⟩⟩
      · exact ⟨he, .inr ⟨(hv.of_newHead hnew).1, hstop (fun x hx => .inl (.inl (.inr hx))) hst'⟩⟩

/-! ## Deleting -/

/-- Between two disks the file of the entry `s` with the chain `l` was deleted. -/
structure Deleted (fs : Fat32Fs) (sel : UInt8 → Bool) (r : List Nat) (s : Slot) (l : List Nat)
    (disk disk' : Nat → Sector) : Prop where
  volume : Volume fs sel r disk'
  others : ∀ t ∈ slotsOf fs r, t ≠ s → SameEntry disk disk' t
  mark : entryMark (disk' s.lba) s.offset = 0xe5
  data : ∀ lba, dataBase fs ≤ lba → lba ≠ s.lba → disk' lba = disk lba
  next : ∀ x, InData fs x → nextOf fs disk' x = if x ∈ l then 0 else nextOf fs disk x

/-- The entry of a freed chain is marked as deleted. -/
theorem deleted_of_edit (hv : Volume fs sel r disk) (hs : s ∈ slotsOf fs r) (hl : Live disk s)
    (hsel : sel (entryAttr (disk s.lba) s.offset) = true) (hc : FileChain fs disk s l)
    (hz : FatZero fs l disk disk') (hd : disk'' = editSlot disk' s [(0, [0xe5])]) :
    Deleted fs sel r s l disk disk'' := by
  have hm := hv.geometry
  have hu : SlotUpd fs r s disk' disk'' := by rw [hd]; exact slotUpd_edit hs (by simp)
  have hdata : ∀ t ∈ slotsOf fs r, disk' t.lba = disk t.lba := fun t ht =>
    hz.data _ (dataBase_le_of_mem (mem_slotsOf.mp ht).1)
  have hsame : ∀ t ∈ slotsOf fs r, t ≠ s → SameEntry disk disk'' t := fun t ht hts =>
    (SameEntry.of_eq (hdata t ht)).trans (hu.entries t ht hts)
  have hmark : entryMark (disk'' s.lba) s.offset = 0xe5 := by
    rw [hd, editSlot_at]
    exact markEdit_mark _ (offset_le hs) 0xe5
  have hnext : ∀ x, InData fs x → nextOf fs disk'' x = if x ∈ l then 0 else nextOf fs disk x :=
    fun x hx => by rw [hu.next hm hs hx, hz.entry x hx]
  refine ⟨?_, hsame, hmark, fun lba hlba hne => by rw [hu.other lba hne, hz.data lba hlba], hnext⟩
  -- the other chains do not meet the freed one
  have hhs : heads fs sel r disk'' (some s) = none := if_neg fun h => h.2.1.2.1 hmark
  have hsub : ∀ i a, heads fs sel r disk'' i = some a → heads fs sel r disk i = some a ∧ i ≠ some s := by
    intro i a hi
    rcases i with _ | t
    · exact ⟨hi, by simp⟩
    · by_cases hts : t = s
      · rw [hts, hhs] at hi
        cases hi
      · rw [heads_congr fun ht => hsame t ht hts] at hi
        exact ⟨hi, by simpa using hts⟩
  have hkeep : ∀ i a m x, heads fs sel r disk'' i = some a → Chain (nextOf fs disk) Eoc a m → x ∈ m →
      nextOf fs disk'' x = nextOf fs disk x := by
    intro i a m x hi hcm hx
    obtain ⟨hi', his⟩ := hsub i a hi
    rw [hnext x (hv.family.ok_of_mem hi' hcm hx), if_neg]
    intro hxl
    rcases hc with ⟨h2, hcl⟩ | ⟨-, rfl⟩
    · exact hv.family.disj his hi' (heads_some.mpr ⟨hs, hl, hsel, h2, rfl⟩) hcm hcl x hx hxl
    · cases hxl
  refine ⟨hm, hv.root.congr fun y hy => hkeep none _ r y heads_none hv.root hy, ?_⟩
  exact (hv.family.restrict fun i a hi => (hsub i a hi).1).congr_next hkeep

/-- A live entry whose first cluster is free. -/
theorem tornFile_of_free {Z : List Nat} (hs : s ∈ slotsOf fs r) (hl : Live disk s)
    (hf : InData fs (slotFirst disk s)) (hz : FatZero fs Z disk disk') (ha : slotFirst disk s ∈ Z) :
    TornFile fs r disk' s := by
  have hsec : disk' s.lba = disk s.lba := hz.data _ (dataBase_le_of_mem (mem_slotsOf.mp hs).1)
  have hfirst : slotFirst disk' s = slotFirst disk s := by
    unfold slotFirst
    rw [hsec]
  refine ⟨hs, ?_, slotFirst disk s, ?_, ?_⟩
  · unfold Live
    rw [hsec]
    exact hl
  · rw [hfirst]
    exact .here hf.not_walkEnd
  · rw [hz.entry _ hf, if_pos ha]

/-- The sites of `fat32_delete` before it changes anything. -/
def deleteEarlySites : Set Site := openSites ∪ freeFirstSites

/-- The sites of `fat32_delete` between its first and its last change. -/
def deleteLateSites : Set Site := freeLaterSites ∪ slotSites .unlink

theorem delete_spec (hw : fs.writable) (hv : Volume fs sel r d.disk) (hsel : SelectsFiles sel)
    (name : List UInt8) :
    Wp (fat32Delete fs name) d
      (fun _ d' => ∃ s l, Openable fs r d.disk name s l ∧ Deleted fs sel r s l d.disk d'.disk ∧
        (SameCopies fs d.disk → SameCopies fs d'.disk) ∧ d'.armed = d.armed)
      (fun e d' => e = .fail ∧
        ((d'.disk = d.disk ∧ Stopped deleteEarlySites (¬∃ s l, Openable fs r d.disk name s l)
            d.armed d') ∨
          (∃ s l, Openable fs r d.disk name s l ∧ slotFirst d.disk s < 2 ∧ d'.disk = d.disk ∧
            Stopped (slotSites .unlink) False d.armed d') ∨
          (∃ s l, Openable fs r d.disk name s l ∧ 2 ≤ slotFirst d.disk s ∧
            TornFile fs r d'.disk s ∧ Stopped deleteLateSites False d.armed d'))) := by
  have hm := hv.geometry
  unfold fat32Delete
  refine wp_guard (fun h => ?_) fun _ => ?_
  · rw [hm.mounted, hw] at h
    refine ⟨rfl, .inl ⟨rfl, .inl ⟨?_, rfl⟩⟩⟩
    rintro ⟨s, l, ho⟩
    obtain ⟨w, hw, -⟩ := ho.found
    simp [hw] at h
  refine (openRoot_spec hv hsel name).wp_bind (fun file d1 h1 a1 hf => ?_) fun d' h1 s1 => ?_
  swap
  · exact ⟨rfl, .inl ⟨h1, s1.mono Set.subset_union_left id⟩⟩
  obtain ⟨s, l, ho, hl, rfl⟩ := hf
  have hlt : s.lba < fs.totalSectors := hv.slot_lt ho.mem
  by_cases h2 : 2 ≤ slotFirst d.disk s
  · have hc : Chain (nextOf fs d.disk) Eoc (slotFirst d.disk s) l := by
      rcases ho.chain with ⟨-, hc⟩ | ⟨h, -⟩
      · exact hc
      · omega
    have hhead := heads_of_file hsel ho.mem ho.live ho.isFile h2
    obtain ⟨m, rfl⟩ := hc.eq_cons (hv.family.start hhead)
    have hfd : InData fs (slotFirst d.disk s) := hl _ (by simp)
    show Wp (if 2 ≤ slotFirst d.disk s then _ else _) d1 _ _
    rw [if_pos h2]
    refine wp_bind.mpr (Wp.mono (freeClusterChain_spec hm hw (by rw [h1]; exact hc) hl) ?_ ?_)
    · intro _ d2 h
      obtain ⟨hz, hcop, a2⟩ := h
      rw [h1] at hz hcop
      refine Wp.mono (patchSlot_spec hm.mounted hw hlt) ?_ ?_
      · intro _ d3 h
        obtain ⟨hd3, a3⟩ := h
        refine ⟨s, _, ho, deleted_of_edit hv ho.mem ho.live (hsel _ ho.isFile) ho.chain hz hd3,
          fun hsc => ?_, by rw [a3, a2, a1]⟩
        rw [hd3]
        exact (slotUpd_edit ho.mem (by simp)).sameCopies ho.mem (hcop hsc)
      · intro e d3 h
        obtain ⟨he, hd3, hst⟩ := h
        rw [a2, a1] at hst
        refine ⟨he, .inr (.inr ⟨s, _, ho, h2, ?_, hst.mono Set.subset_union_right id⟩)⟩
        rw [hd3]
        exact tornFile_of_free ho.mem ho.live hfd hz (List.mem_cons.mpr (.inl rfl))
    · intro e d2 h
      obtain ⟨he, h⟩ := h
      rw [a1] at h
      rcases h with ⟨hd2, hst⟩ | ⟨⟨Z, hZ, hz⟩, hst⟩
      · exact ⟨he, .inl ⟨by rw [hd2, h1], hst.mono Set.subset_union_right fun h => h.elim⟩⟩
      · rw [h1] at hz
        exact ⟨he, .inr (.inr ⟨s, _, ho, h2, tornFile_of_free ho.mem ho.live hfd hz hZ,
          hst.mono Set.subset_union_left id⟩)⟩
  · have hlnil : l = [] := by
      rcases ho.chain with ⟨h, -⟩ | ⟨-, h⟩
      · omega
      · exact h
    subst hlnil
    show Wp (if 2 ≤ slotFirst d.disk s then _ else _) d1 _ _
    rw [if_neg h2]
    refine Wp.mono (patchSlot_spec hm.mounted hw hlt) ?_ ?_
    · intro _ d3 h
      obtain ⟨hd3, a3⟩ := h
      rw [h1] at hd3
      refine ⟨s, [], ho, deleted_of_edit hv ho.mem ho.live (hsel _ ho.isFile) ho.chain FatZero.refl hd3,
        fun hsc => ?_, by rw [a3, a1]⟩
      rw [hd3]
      exact (slotUpd_edit ho.mem (by simp)).sameCopies ho.mem hsc
    · intro e d3 h
      obtain ⟨he, hd3, hst⟩ := h
      rw [a1] at hst
      exact ⟨he, .inr (.inl ⟨s, [], ho, by omega, by rw [hd3, h1], hst⟩)⟩

/-! ## Renaming -/

/-- Between two disks the entry `s` got the name `short`. -/
structure Renamed (fs : Fat32Fs) (sel : UInt8 → Bool) (r : List Nat) (short : List UInt8) (s : Slot)
    (disk disk' : Nat → Sector) : Prop where
  volume : Volume fs sel r disk'
  upd : SlotUpd fs r s disk disk'
  name : entryName (disk' s.lba) s.offset = short
  mark : entryMark (disk' s.lba) s.offset = short.getD 0 0
  attr : entryAttr (disk' s.lba) s.offset = entryAttr (disk s.lba) s.offset
  first : slotFirst disk' s = slotFirst disk s
  size : slotSize disk' s = slotSize disk s
  next : ∀ x, InData fs x → nextOf fs disk' x = nextOf fs disk x

theorem renamed_of_edit (hv : Volume fs sel r disk) (hs : s ∈ slotsOf fs r) (hl : Live disk s)
    (hlen : short.length = 11) (h0 : short.getD 0 0 ≠ 0) (hd : disk' = editSlot disk s [(0, short)]) :
    Renamed fs sel r short s disk disk' := by
  have hu : SlotUpd fs r s disk disk' := by rw [hd]; exact slotUpd_edit hs (by simp [hlen])
  obtain ⟨hname, hmark, hsize, hfirst, hattr⟩ := nameEdit_fields (disk s.lba) (offset_le hs) hlen
  have e := editSlot_at disk s [(0, short)]
  rw [← hd] at e
  rw [← e] at hname hmark hsize hfirst hattr
  refine ⟨?_, hu, hname, hmark, hattr, hfirst, hsize, fun x hx => hu.next hv.geometry hs hx⟩
  rw [hd]
  exact hv.of_nameEdit hs hl hlen h0

/-- The sites of `fat32_rename`. -/
def renameSites : Set Site := openSites ∪ slotSites .rename

theorem rename_spec (hw : fs.writable) (hv : Volume fs sel r d.disk) (hsel : SelectsFiles sel)
    (name newName : List UInt8) :
    Wp (fat32Rename fs name newName) d
      (fun _ d' => ∃ short s l, makeShortName newName = some short ∧ Openable fs r d.disk name s l ∧
        Renamed fs sel r short s d.disk d'.disk ∧ (SameCopies fs d.disk → SameCopies fs d'.disk) ∧
        (d.armed = none → d'.armed = none ∧ ¬∃ s l, Openable fs r d.disk newName s l))
      (fun e d' => e = .fail ∧ d'.disk = d.disk ∧ Stopped renameSites True d.armed d') := by
  have hm := hv.geometry
  unfold fat32Rename
  refine wp_guard (fun h => ?_) fun _ => ?_
  · rw [hm.mounted, hw] at h
    simp at h
  cases hn : makeShortName newName with
  | none => exact ⟨rfl, rfl, .inl ⟨trivial, rfl⟩⟩
  | some short =>
    obtain ⟨hlen, h0⟩ := makeShortName_ok hn
    refine (openRoot_spec hv hsel name).wp_bind (fun file d1 h1 a1 hf => ?_) fun d' h1 s1 => ?_
    swap
    · exact ⟨rfl, h1, s1.mono Set.subset_union_left fun _ => trivial⟩
    obtain ⟨s, l, ho, -, rfl⟩ := hf
    have hlt : s.lba < fs.totalSectors := hv.slot_lt ho.mem
    rw [← h1] at hv
    refine attemptOpen_bind hv hsel fun o d2 _ h2 s2 hno => ?_
    rw [a1] at s2
    refine wp_guard (fun _ => ⟨rfl, by rw [h2, h1], s2.mono Set.subset_union_left id⟩) fun hnot => ?_
    have hnone : o = none := by simpa using hnot
    refine Wp.mono (patchSlot_spec hm.mounted hw hlt) ?_ ?_
    · intro _ d3 h
      obtain ⟨hd3, a3⟩ := h
      rw [h2, h1] at hd3
      rw [h1] at hv hno
      refine ⟨short, s, l, rfl, ho, renamed_of_edit hv ho.mem ho.live hlen h0 hd3, fun hsc => ?_,
        fun ha => ⟨?_, hno (by rw [a1, ha]) hnone⟩⟩
      · rw [hd3]
        exact (slotUpd_edit ho.mem (by simp [hlen])).sameCopies ho.mem hsc
      · rw [a3]
        rw [ha] at s2
        exact s2.refused.2
    · intro e d3 h
      obtain ⟨he, hd3, hst⟩ := h
      refine ⟨he, by rw [hd3, h2, h1], (s2.trans hst).mono (fun _ h => h) fun h => h.elim⟩

end Armonios
