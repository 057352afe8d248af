import Armonios.Fat32.WriteSpec

/-!
# What `fat32_write` does

`Current` is a handle that agrees with its directory entry, `Touched` relates the disks before and
after a call, and `write_spec` has all outcomes of a call: the contents and the directory entry after
a success, and after a failure (`WriteFailed`) one of

* the chains are whole and the handle is current;
* the same, and a cluster is lost: it is marked but on no chain;
* a new cluster is linked and still free (`TornFile`);
* the handle has a first cluster that its entry does not have.
-/

namespace Armonios

variable {fs : Fat32Fs} {sel : UInt8 → Bool} {r : List Nat} {s : Slot} {disk disk' disk'' : Nat → Sector}
  {l l' l'' : List Nat} {t t' : OpenFile}

/-- The handle of a live entry, with its first cluster and its size. -/
structure Current (fs : Fat32Fs) (sel : UInt8 → Bool) (r : List Nat) (disk : Nat → Sector)
    (file : Fat32File) : Prop where
  mem : file.slot ∈ slotsOf fs r
  live : Live disk file.slot
  selected : sel (entryAttr (disk file.slot.lba) file.slot.offset) = true
  first : file.firstCluster = slotFirst disk file.slot
  size : file.size = slotSize disk file.slot
  bound : file.capacity ≤ 0xffffffff

/-- Between two disks the chain of the entry `s` has grown from `l` to `l'`, and besides its sectors
and FAT entries only the first cluster and the size of `s` have changed. -/
structure Touched (fs : Fat32Fs) (sel : UInt8 → Bool) (r : List Nat) (s : Slot) (l : List Nat)
    (disk : Nat → Sector) (l' : List Nat) (disk' : Nat → Sector) : Prop where
  volume : Volume fs sel r disk'
  chain : FileChain fs disk' s l'
  inData : ∀ x ∈ l', InData fs x
  grows : l <+: l'
  others : ∀ t ∈ slotsOf fs r, t ≠ s → SameEntry disk disk' t
  mark : entryMark (disk' s.lba) s.offset = entryMark (disk s.lba) s.offset
  attr : entryAttr (disk' s.lba) s.offset = entryAttr (disk s.lba) s.offset
  name : entryName (disk' s.lba) s.offset = entryName (disk s.lba) s.offset
  data : ∀ lba, dataBase fs ≤ lba → lba ∉ chainLbas fs l' → lba ≠ s.lba → disk' lba = disk lba
  next : ∀ x, InData fs x → x ∉ l' → nextOf fs disk' x = nextOf fs disk x
  fresh : ∀ x ∈ l', x ∉ l → nextOf fs disk x = 0
  empty : l' = [] → slotFirst disk' s = slotFirst disk s

namespace Touched

theorem refl (hv : Volume fs sel r disk) (hc : FileChain fs disk s l) (hl : ∀ x ∈ l, InData fs x) :
    Touched fs sel r s l disk l disk :=
  ⟨hv, hc, hl, List.prefix_refl l, fun _ _ _ _ _ => rfl, rfl, rfl, rfl, fun _ _ _ _ => rfl,
    fun _ _ _ => rfl, fun _ h h' => absurd h h', fun _ => rfl⟩

theorem live (h : Touched fs sel r s l disk l' disk') : Live disk' s ↔ Live disk s := by
  unfold Live
  rw [h.mark, h.attr]

/-- The loops of a write after what came before them. -/
theorem grown (h : Touched fs sel r s l disk l' disk') (hs : s ∈ slotsOf fs r)
    (hg : Grown fs sel r s l' disk' l'' disk'') : Touched fs sel r s l disk l'' disk'' := by
  have hentry := hg.entry hs
  have h2 := (heads_some.mp hg.head).2.2.2
  refine ⟨hg.volume, .inl ⟨h2.1, by rw [h2.2]; exact hg.chain⟩, fun x hx => hg.inData hx, h.grows.trans hg.grows, ?_,
    by rw [hentry]; exact h.mark, by rw [hentry]; exact h.attr, by rw [hentry]; exact h.name, ?_, ?_,
    ?_, ?_⟩
  · intro t ht hts
    exact (h.others t ht hts).trans (SameEntry.of_eq (hg.entry ht))
  · intro lba hlba hmem hne
    rw [hg.data lba hlba hmem, h.data lba hlba (fun hm => hmem ?_) hne]
    obtain ⟨x, hx, hx'⟩ := mem_chainLbas.mp hm
    exact mem_chainLbas.mpr ⟨x, hg.grows.subset hx, hx'⟩
  · intro x hx hxl
    rw [hg.next x hx hxl, h.next x hx fun hm => hxl (hg.grows.subset hm)]
  · intro x hx hxl
    by_cases hm : x ∈ l'
    · exact h.fresh x hm hxl
    · rw [← h.next x (hg.inData hx) hm]
      exact hg.fresh x hx hm
  · rintro rfl
    exact absurd hg.chain.stop_of_nil (hg.volume.family.start hg.head)

/-- The size field after what came before it. -/
theorem size (h : Touched fs sel r s l disk l' disk') (hs : s ∈ slotsOf fs r) {v : Nat}
    (hv : v < 2 ^ 32) : Touched fs sel r s l disk l' (editSlot disk' s [(28, putLe32 v)]) := by
  have hu : SlotUpd fs r s disk' (editSlot disk' s [(28, putLe32 v)]) := slotUpd_edit hs (by simp)
  have hm := h.volume.geometry
  obtain ⟨-, hf, hmark, hattr, hname⟩ := sizeEdit_fields (disk' s.lba) (offset_le hs) hv
  have e := editSlot_at disk' s [(28, putLe32 v)]
  have hfirst : slotFirst (editSlot disk' s [(28, putLe32 v)]) s = slotFirst disk' s := by
    unfold slotFirst
    rw [e]
    exact hf
  refine ⟨h.volume.of_sizeEdit hs hv, ?_, h.inData, h.grows, fun t ht hts => ?_, by rw [e, hmark, h.mark],
    by rw [e, hattr, h.attr], by rw [e, hname, h.name], fun lba hlba hl hne => ?_, fun x hx hxl => ?_,
    h.fresh, fun hnil => by rw [hfirst, h.empty hnil]⟩
  · rcases h.chain with ⟨h2, hc⟩ | ⟨h2, hl⟩
    · refine .inl ⟨by rw [hfirst]; exact h2, ?_⟩
      rw [hfirst]
      exact hc.congr fun y hy => hu.next hm hs (h.inData y hy)
    · exact .inr ⟨by rw [hfirst]; exact h2, hl⟩
  · exact (h.others t ht hts).trans (hu.entries t ht hts)
  · rw [hu.other lba hne, h.data lba hlba hl hne]
  · rw [hu.next hm hs hx, h.next x hx hxl]

/-- The directory is apart from the chain. -/
theorem root_apart (h : Touched fs sel r s l disk l' disk') (hs : s ∈ slotsOf fs r) (hl : Live disk s)
    (hsel : sel (entryAttr (disk s.lba) s.offset) = true) {lba : Nat} (hlba : lba ∈ chainLbas fs l') :
    lba ∉ chainLbas fs r := by
  rcases h.chain with ⟨h2, hc⟩ | ⟨-, rfl⟩
  · have hh : heads fs sel r disk' (some s) = some (slotFirst disk' s) :=
      heads_some.mpr ⟨hs, h.live.mpr hl, by rw [h.attr]; exact hsel, h2, rfl⟩
    exact h.volume.root_disjoint hh hc hlba
  · simp [chainLbas] at hlba

/-- The first cluster of an entry that had none: the FAT, then the entry. -/
theorem head {b : Nat} (hv : Volume fs sel r disk) (hs : s ∈ slotsOf fs r) (hl : Live disk s)
    (hsel : sel (entryAttr (disk s.lba) s.offset) = true) (hb : NewHead fs b disk disk')
    (hd : disk'' = editSlot disk' s [(20, putLe16 (b / 2 ^ 16)), (26, putLe16 b)]) :
    Touched fs sel r s [] disk [b] disk'' ∧ slotFirst disk'' s = b ∧ slotSize disk'' s = slotSize disk s ∧
      heads fs sel r disk'' (some s) = some b := by
  obtain ⟨hv1, -, hfresh⟩ := hv.of_newHead hb
  obtain ⟨hbd, hb0, hu⟩ := hb
  have hm := hv.geometry
  have hb32 : b < 2 ^ 32 := by
    have := hbd.lt_range
    simp only [clusterRange] at this
    omega
  have hsec : disk' s.lba = disk s.lba := hu.data _ (dataBase_le_of_mem (mem_slotsOf.mp hs).1)
  have hu2 : SlotUpd fs r s disk' disk'' := by rw [hd]; exact slotUpd_edit hs (by simp)
  obtain ⟨hf, hsz, hmark, hattr, hname⟩ := headEdit_fields (disk' s.lba) (offset_le hs) hb32
  have e := editSlot_at disk' s [(20, putLe16 (b / 2 ^ 16)), (26, putLe16 b)]
  rw [← hd] at e
  have hfirst : slotFirst disk'' s = b := by unfold slotFirst; rw [e]; exact hf
  have heoc : Eoc (nextOf fs disk' b) := by rw [hu.entry b hbd, if_pos rfl]
  have hheads : heads fs sel r disk'' (some s) = some b := by
    refine heads_some.mpr ⟨hs, ?_, ?_, by rw [hfirst]; exact hbd.ge, hfirst⟩
    · unfold Live
      rw [e, hmark, hattr, hsec]
      exact hl
    · rw [e, hattr, hsec]
      exact hsel
  have hv2 := hv1.add_head hfresh hbd heoc hs hu2 hheads
  refine ⟨⟨hv2, .inl ⟨by rw [hfirst]; exact hbd.ge, ?_⟩, by simpa using hbd, by simp, ?_, ?_, ?_, ?_, ?_,
    ?_, ?_, by simp⟩, hfirst, ?_, hheads⟩
  · rw [hfirst]
    exact .step hbd.not_eoc (.done (by rw [hu2.next hm hs hbd]; exact heoc))
  · intro u hu' hus
    exact (SameEntry.of_eq (hu.data _ (dataBase_le_of_mem (mem_slotsOf.mp hu').1))).trans
      (hu2.entries u hu' hus)
  · rw [e, hmark, hsec]
  · rw [e, hattr, hsec]
  · rw [e, hname, hsec]
  · intro lba hlba _ hne
    rw [hu2.other lba hne, hu.data lba hlba]
  · intro x hx hxl
    rw [hu2.next hm hs hx, hu.entry x hx, if_neg (by simpa using hxl)]
  · intro x hx _
    rw [List.mem_singleton.mp hx]
    exact hb0
  · unfold slotSize
    rw [e, hsz, hsec]

end Touched

/-! ## Outcomes -/

/-- Where a walk of the driver along a chain ends. -/
def WalkEnd (v : Nat) : Prop := v < 2 ∨ clusterEoc ≤ v

theorem InData.not_walkEnd {c : Nat} (h : InData fs c) : ¬WalkEnd c := by
  have h1 := h.ge
  have h2 := h.not_eoc
  unfold WalkEnd
  omega

/-- The chain of the live entry `s` reaches a cluster that is free. -/
def TornFile (fs : Fat32Fs) (r : List Nat) (disk : Nat → Sector) (s : Slot) : Prop :=
  s ∈ slotsOf fs r ∧ Live disk s ∧
    ∃ x, Reaches (nextOf fs disk) WalkEnd (slotFirst disk s) x ∧ nextOf fs disk x = 0

/-- A link to a free cluster after the last one of a chain. -/
theorem tornFile_of_link {q : List Nat} {p b : Nat} (hs : s ∈ slotsOf fs r)
    (hg : Grown fs sel r s l disk (q ++ [p]) disk') (ht : TornLink fs p b disk' disk'') :
    TornFile fs r disk'' s := by
  obtain ⟨hb, hb0, hu⟩ := ht
  have hhead := heads_some.mp hg.head
  have hentry : disk'' s.lba = disk' s.lba := hu.data _ (dataBase_le_of_mem (mem_slotsOf.mp hs).1)
  have hp : InData fs p := hg.inData (by simp)
  have hbq : b ∉ q ++ [p] := hg.volume.fresh_of_free hb0 _ _ _ hg.head hg.chain
  have hpb : b ≠ p := fun e => hbq (by simp [e])
  have hpq : p ∉ q := fun hm => by
    have := hg.chain.nodup
    rw [List.nodup_append] at this
    exact this.2.2 p hm p (by simp) rfl
  have hnb : nextOf fs disk'' b = 0 := by rw [hu.entry b hb, if_neg hpb, hb0]
  have hwalk : Chain (nextOf fs disk') WalkEnd (slotFirst disk s) (q ++ [p]) :=
    hg.chain.weaken (fun _ h => .inr h) fun y hy => (hg.inData hy).not_walkEnd
  have hext : Chain (nextOf fs disk'') WalkEnd (slotFirst disk s) (q ++ [p, b]) := by
    refine hwalk.extend (fun y hy => ?_) (by rw [hu.entry p hp, if_pos rfl]) hb.not_walkEnd
      (by rw [hnb]; exact .inl (by decide))
    rw [hu.entry y (hg.inData (by simp [hy])), if_neg (ne_of_mem_of_not_mem hy hpq)]
  refine ⟨hs, ?_, b, ?_, hnb⟩
  · have := hhead.2.1
    unfold Live at this ⊢
    rw [hentry]
    exact this
  · have hf : slotFirst disk'' s = slotFirst disk s := by
      rw [← hhead.2.2.2.2]
      unfold slotFirst
      rw [hentry]
    rw [hf]
    exact hext.reaches_of_mem (fun y hy => hext.not_stop hy) (by simp)

/-- The sites of `fat32_write` at which a fault leaves the chains whole. -/
def wholeWriteSites : Set Site := writeSites ∪ headSites ∪ slotSites .size ∪ slotSites .truncate

/-- The outcomes of a failed write that needs `want` clusters (module doc). -/
def WriteFailed (fs : Fat32Fs) (sel : UInt8 → Bool) (r : List Nat) (want : Nat) (t : OpenFile)
    (l : List Nat) (t' : OpenFile) : Prop :=
  t'.file.slot = t.file.slot ∧
    ((∃ l', Touched fs sel r t.file.slot l t.dev.disk l' t'.dev.disk ∧
        Current fs sel r t'.dev.disk t'.file ∧ l'.length ≤ max l.length want ∧
        Stopped wholeWriteSites ((SameCopies fs t.dev.disk → SameCopies fs t'.dev.disk) ∧
          (t.file.capacity = l.length * clusterBytesOf fs →
            t'.file.capacity = l'.length * clusterBytesOf fs) ∧
          slotSize t'.dev.disk t.file.slot = slotSize t.dev.disk t.file.slot) t.dev.armed t'.dev) ∨
      (Volume fs sel r t'.dev.disk ∧ Current fs sel r t'.dev.disk t'.file ∧
        Stopped wholeWriteSites False t.dev.armed t'.dev) ∨
      (TornFile fs r t'.dev.disk t.file.slot ∧ Stopped tornLinkSites False t.dev.armed t'.dev) ∨
      (t'.file.firstCluster ≠ slotFirst t'.dev.disk t.file.slot ∧
        Stopped (slotSites .head) False t.dev.armed t'.dev))

/-- The clusters that hold `n` bytes. -/
def clustersFor (fs : Fat32Fs) (n : Nat) : Nat := (n + clusterBytesOf fs - 1) / clusterBytesOf fs

theorem le_clustersFor (hm : Mounted fs) (n : Nat) : n ≤ clustersFor fs n * clusterBytesOf fs := by
  have hpos := clusterBytesOf_pos hm
  have hdiv := Nat.div_add_mod (n + clusterBytesOf fs - 1) (clusterBytesOf fs)
  have hlt := Nat.mod_lt (n + clusterBytesOf fs - 1) hpos
  unfold clustersFor
  rw [Nat.mul_comm] at hdiv
  omega

theorem FreeClusters.le {n : Nat} (h : FreeClusters fs disk n) : n ≤ clusterBad := by
  obtain ⟨m, hnd, hlen, hm⟩ := h
  have hsub : m ⊆ List.range clusterBad := fun y hy => List.mem_range.mpr (hm y hy).1.lt
  have := (List.subperm_of_subset hnd hsub).length_le
  rw [List.length_range] at this
  omega

/-- The size update of a write. -/
theorem updateSize_spec {use : SlotUse} {v : Nat} (hm : fs.mounted) (hw : fs.writable)
    (hlt : t.file.slot.lba < fs.totalSectors) :
    Wp (updateSize fs use v) t
      (fun _ t' => t'.dev.disk = editSlot t.dev.disk t.file.slot [(28, putLe32 v)] ∧
        t'.file = { t.file with size := v } ∧ t'.dev.armed = t.dev.armed)
      (fun e t' => e = .fail ∧ t'.dev.disk = t.dev.disk ∧ t'.file = t.file ∧
        Stopped (slotSites use) False t.dev.armed t'.dev) := by
  unfold updateSize
  refine wp_bind.mpr (wp_get.mpr ?_)
  rw [wp_onDev_bind]
  refine Wp.mono (patchSlot_spec hm hw hlt) ?_ ?_
  · rintro _ d1 ⟨h1, h2⟩
    exact ⟨h1, rfl, h2⟩
  · rintro e d1 ⟨h1, h2, h3⟩
    exact ⟨h1, h2, rfl, h3⟩

/-- The outcome of a successful write of `buf` at `off`. -/
structure Written (fs : Fat32Fs) (sel : UInt8 → Bool) (r : List Nat) (off : Nat) (buf : List UInt8)
    (t : OpenFile) (l : List Nat) (t' : OpenFile) (l' : List Nat) : Prop where
  touched : Touched fs sel r t.file.slot l t.dev.disk l' t'.dev.disk
  current : Current fs sel r t'.dev.disk t'.file
  slot : t'.file.slot = t.file.slot
  size : t'.file.size = (off + buf.length) % 2 ^ 32
  capacity : t.file.capacity = l.length * clusterBytesOf fs → t'.file.capacity = l'.length * clusterBytesOf fs
  needed : l'.length ≤ max l.length (clustersFor fs (off + buf.length))
  fits : off ≤ l.length * clusterBytesOf fs → off + buf.length ≤ l'.length * clusterBytesOf fs
  contents : off ≤ l.length * clusterBytesOf fs →
    (chainBytes fs t'.dev.disk l').take (off + buf.length) = (chainBytes fs t.dev.disk l).take off ++ buf
  copies : SameCopies fs t.dev.disk → SameCopies fs t'.dev.disk
  armed : t'.dev.armed = t.dev.armed

section Parts

variable {off : Nat} {buf : List UInt8}

theorem Current.of_touched {file : Fat32File} (hcur : Current fs sel r disk t.file)
    (h : Touched fs sel r t.file.slot l disk l' disk') (hslot : file.slot = t.file.slot)
    (hfirst : file.firstCluster = slotFirst disk' t.file.slot)
    (hsize : file.size = slotSize disk' t.file.slot) (hb : file.capacity ≤ 0xffffffff) :
    Current fs sel r disk' file := by
  refine ⟨by rw [hslot]; exact hcur.mem, ?_, ?_, by rw [hslot]; exact hfirst, by rw [hslot]; exact hsize,
    hb⟩
  · rw [hslot]
    exact h.live.mpr hcur.live
  · rw [hslot, h.attr]
    exact hcur.selected

/-- The loops start at the first cluster of the chain. -/
theorem Current.job_at {want : Nat} (hcur : Current fs sel r t.dev.disk t.file) (hv : Volume fs sel r t.dev.disk)
    (hc : FileChain fs t.dev.disk t.file.slot l) (h2 : 2 ≤ t.file.firstCluster)
    (hfree : FreeClusters fs t.dev.disk (want - l.length)) :
    ∃ q, l = t.file.firstCluster :: q ∧
      Job.At fs sel r ⟨t.file.slot, l, t.dev.disk, t.file, want, t.dev.armed⟩ (t.file.firstCluster :: q) t := by
  have hhead : heads fs sel r t.dev.disk (some t.file.slot) = some (slotFirst t.dev.disk t.file.slot) :=
    heads_some.mpr ⟨hcur.mem, hcur.live, hcur.selected, by rw [← hcur.first]; exact h2, rfl⟩
  have hchain : Chain (nextOf fs t.dev.disk) Eoc (slotFirst t.dev.disk t.file.slot) l := by
    rcases hc with ⟨-, hc⟩ | ⟨hlt, -⟩
    · exact hc
    · rw [← hcur.first] at hlt
      omega
  obtain ⟨q, hq⟩ := hchain.eq_cons (hv.family.start hhead)
  rw [← hcur.first] at hq
  refine ⟨q, hq, ?_⟩
  rw [← hq]
  exact ⟨⟨Grown.refl hv hhead hchain, rfl, hcur.bound, le_max_left _ _⟩, by simp [Job.Counted], hfree, id, rfl⟩

/-- The last part of a write, and all of a truncation: the size. -/
theorem finish_spec {use : SlotUse} {t₁ : OpenFile} (hw : fs.writable)
    (huse : slotSites use ⊆ wholeWriteSites) (hcur : Current fs sel r t.dev.disk t.file)
    (h : Touched fs sel r t.file.slot l t.dev.disk l' t₁.dev.disk)
    (hcur₁ : Current fs sel r t₁.dev.disk t₁.file) (hslot : t₁.file.slot = t.file.slot)
    (hcop : SameCopies fs t.dev.disk → SameCopies fs t₁.dev.disk) (harm : t₁.dev.armed = t.dev.armed)
    (hcap : t.file.capacity = l.length * clusterBytesOf fs → t₁.file.capacity = l'.length * clusterBytesOf fs)
    (hneed : l'.length ≤ max l.length (clustersFor fs (off + buf.length)))
    (hfit : off ≤ l.length * clusterBytesOf fs → off + buf.length ≤ l'.length * clusterBytesOf fs)
    (hbytes : off ≤ l.length * clusterBytesOf fs →
      (chainBytes fs t₁.dev.disk l').take (off + buf.length) =
        (chainBytes fs t.dev.disk l).take off ++ buf) :
    Wp (updateSize fs use ((off + buf.length) % 2 ^ 32)) t₁
      (fun _ t' => ∃ l', Written fs sel r off buf t l t' l')
      (fun e t' => e = .fail ∧ WriteFailed fs sel r (clustersFor fs (off + buf.length)) t l t') := by
  have hs := hcur.mem
  have hlt : t₁.file.slot.lba < fs.totalSectors := by rw [hslot]; exact h.volume.slot_lt hs
  have hv32 : (off + buf.length) % 2 ^ 32 < 2 ^ 32 := Nat.mod_lt _ (by decide)
  refine Wp.mono (updateSize_spec h.volume.geometry.mounted hw hlt) ?_ ?_
  · rintro _ t' ⟨hd, hf, ha⟩
    rw [hslot] at hd
    have ht := h.size hs hv32
    rw [← hd] at ht
    obtain ⟨hsz, hfst, -⟩ := sizeEdit_fields (t₁.dev.disk t.file.slot.lba) (offset_le hs) hv32
    have e := editSlot_at t₁.dev.disk t.file.slot [(28, putLe32 ((off + buf.length) % 2 ^ 32))]
    rw [← hd] at e
    have hu : SlotUpd fs r t.file.slot t₁.dev.disk t'.dev.disk := by rw [hd]; exact slotUpd_edit hs (by simp)
    have hslot' : t'.file.slot = t.file.slot := by rw [hf]; exact hslot
    refine ⟨l', ht, hcur.of_touched ht hslot' ?_ ?_ ?_, hslot', by rw [hf], ?_, hneed, hfit, fun ho => ?_,
      fun hc => hu.sameCopies hs (hcop hc), by rw [ha, harm]⟩
    · rw [hf]
      show t₁.file.firstCluster = _
      rw [hcur₁.first, hslot]
      unfold slotFirst
      rw [e, hfst]
    · rw [hf]
      show _ = entrySize _ _
      rw [e, hsz]
    · rw [hf]
      exact hcur₁.bound
    · rw [hf]
      exact hcap
    · have hsame : chainBytes fs t'.dev.disk l' = chainBytes fs t₁.dev.disk l' := by
        refine lbaBytes_congr fun lba hlba => hu.other lba fun he => ?_
        subst he
        exact h.root_apart hs hcur.live hcur.selected hlba (mem_slotsOf.mp hs).1
      rw [hsame, hbytes ho]
  · rintro e t' ⟨he, hd, hf, hst⟩
    rw [harm] at hst
    refine ⟨he, by rw [hf, hslot], .inl ⟨l', by rw [hd]; exact h, by rw [hd, hf]; exact hcur₁, hneed, ?_⟩⟩
    exact hst.mono huse fun h => h.elim

/-- The loops and the size update, from a state in which the file has a first cluster. -/
theorem body_spec {t₁ : OpenFile} {l₁ : List Nat} (hw : fs.writable) (hbuf : buf ≠ [])
    (hcur : Current fs sel r t.dev.disk t.file)
    (h : Touched fs sel r t.file.slot l t.dev.disk l₁ t₁.dev.disk)
    (hcur₁ : Current fs sel r t₁.dev.disk t₁.file) (hslot : t₁.file.slot = t.file.slot)
    (h2 : 2 ≤ t₁.file.firstCluster)
    (hfree : FreeClusters fs t₁.dev.disk (clustersFor fs (off + buf.length) - l₁.length))
    (hcop : SameCopies fs t.dev.disk → SameCopies fs t₁.dev.disk) (harm : t₁.dev.armed = t.dev.armed)
    (hcap : t.file.capacity = l.length * clusterBytesOf fs → t₁.file.capacity = l₁.length * clusterBytesOf fs)
    (hneed : l₁.length ≤ max l.length (clustersFor fs (off + buf.length)))
    (hsame : slotSize t₁.dev.disk t.file.slot = slotSize t.dev.disk t.file.slot)
    (hbytes : chainBytes fs t₁.dev.disk l = chainBytes fs t.dev.disk l) :
    Wp (do
        let (skip, cluster) ← writeSkip fs walkFuel off t₁.file.firstCluster
        writeLoop fs walkFuel skip buf cluster
        updateSize fs .size ((off + buf.length) % 2 ^ 32)
        return buf.length) t₁
      (fun n t' => n = buf.length ∧ ∃ l', Written fs sel r off buf t l t' l')
      (fun e t' => e = .fail ∧ WriteFailed fs sel r (clustersFor fs (off + buf.length)) t l t') := by
  have hm := h.volume.geometry
  have hs := hcur.mem
  have hfirst : t₁.file.firstCluster = slotFirst t₁.dev.disk t.file.slot := by rw [hcur₁.first, hslot]
  obtain ⟨q, hq, hat⟩ := hcur₁.job_at h.volume (by rw [hslot]; exact h.chain) h2 hfree
  let j : Job := ⟨t.file.slot, l₁, t₁.dev.disk, t₁.file, clustersFor fs (off + buf.length), t.dev.armed⟩
  have hat : j.At fs sel r ([] ++ t₁.file.firstCluster :: q) t₁ := by
    rw [hslot, harm] at hat
    exact hat
  -- what the loops may have added is what the write needs
  have hmax : ∀ n, n ≤ max l₁.length (clustersFor fs (off + buf.length)) →
      n ≤ max l.length (clustersFor fs (off + buf.length)) := fun n hn =>
    hn.trans (max_le hneed (le_max_right _ _))
  have hcount : ∀ {l' : List Nat} {t' : OpenFile}, l₁.length ≤ l'.length → j.Counted fs l' t' →
      t.file.capacity = l.length * clusterBytesOf fs →
        t'.file.capacity = l'.length * clusterBytesOf fs := by
    intro l' t' hgrow hk hc
    have hk : t'.file.capacity = t₁.file.capacity + (l'.length - l₁.length) * clusterBytesOf fs := hk
    have hsum : l₁.length + (l'.length - l₁.length) = l'.length := Nat.add_sub_of_le hgrow
    rw [hk, hcap hc, ← Nat.add_mul, hsum]
  have hpos := List.length_pos_iff.mpr hbuf
  have hle := le_clustersFor hm (off + buf.length)
  -- the write needs fewer clusters than a loop may take rounds
  have hwant : j.want < walkFuel := by
    have h1 := hfree.le
    have h3 : l₁.length ≤ clusterBad := by
      have hsub : l₁ ⊆ List.range clusterBad := fun y hy => List.mem_range.mpr (h.inData y hy).lt
      have hnodup := hat.grown.chain.nodup
      rw [List.nil_append, ← hq] at hnodup
      have := (List.subperm_of_subset hnodup hsub).length_le
      rwa [List.length_range] at this
    show clustersFor fs (off + buf.length) < walkFuel
    simp only [clusterBad, walkFuel] at *
    omega
  -- a failure of the loops is a failure of the write
  have hfail : ∀ t', j.Failed fs sel r t' → WriteFailed fs sel r (clustersFor fs (off + buf.length)) t l t' := by
    rintro t' (⟨l', hk, hst⟩ | ⟨⟨q, p, b, disk, hg, htorn⟩, hf, hst⟩)
    · have ht := h.grown hs hk.grown
      have hslot' : t'.file.slot = t.file.slot := by
        rw [hk.file]
        exact hslot
      have hent := hk.grown.entry hs
      refine ⟨hslot', .inl ⟨l', ht, hcur.of_touched ht hslot' ?_ ?_ hk.bound, hmax _ hk.needed,
        hst.mono (fun x hx => .inl (.inl (.inl hx))) fun hc =>
          ⟨fun hc' => hc.1 (hcop hc'), hcount hk.grown.grows.length_le hc.2, ?_⟩⟩⟩
      · rw [hk.file]
        show t₁.file.firstCluster = entryFirst _ _
        rw [hent]
        exact hfirst
      · rw [hk.file]
        show t₁.file.size = entrySize _ _
        rw [hent, hcur₁.size, hslot]
      · rw [← hsame]
        show entrySize _ _ = entrySize _ _
        rw [hent]
    · refine ⟨?_, .inr (.inr (.inl ⟨tornFile_of_link hs hg htorn, hst⟩))⟩
      rw [hf]
      exact hslot
  refine wp_bind.mpr (Wp.mono (writeSkip_spec hw hat ?_ ?_) ?_ ?_)
  · show [].length * _ + off < clustersFor fs (off + buf.length) * _
    simp only [List.length_nil, Nat.zero_mul]
    omega
  · show j.want ≤ 0 + walkFuel
    omega
  · rintro ⟨skip, cluster⟩ t₂ ⟨p, q', hat₂, hpre, hposn, hskip, hdata⟩
    rw [List.length_nil, Nat.zero_mul, Nat.zero_add] at hposn
    simp only at hposn hskip hat₂ hpre
    refine wp_bind.mpr (Wp.mono (writeLoop_spec hw hat₂ hskip hbuf ?_ ?_) ?_ ?_)
    · rw [hposn]
      exact hle
    · omega
    · rintro _ t₃ ⟨l', hat₃, hpre₃, hfit₃, hcont₃⟩
      rw [hposn] at hfit₃ hcont₃
      rw [List.nil_append, ← hq] at hpre
      have ht₃ := h.grown hs hat₃.grown
      have hslot₃ : t₃.file.slot = t.file.slot := by
        rw [hat₃.file]
        exact hslot
      have hent := hat₃.grown.entry hs
      have hcur₃ : Current fs sel r t₃.dev.disk t₃.file := by
        refine hcur.of_touched ht₃ hslot₃ ?_ ?_ hat₃.bound
        · rw [hat₃.file]
          show t₁.file.firstCluster = entryFirst _ _
          rw [hent]
          exact hfirst
        · rw [hat₃.file]
          show t₁.file.size = entrySize _ _
          rw [hent, hcur₁.size, hslot]
      refine wp_bind.mpr (Wp.mono (finish_spec hw (fun x hx => .inl (.inr hx)) hcur ht₃ hcur₃ hslot₃
        (fun hc => hat₃.copies (hcop hc)) hat₃.armed (hcount hat₃.grown.grows.length_le hat₃.capacity)
        (hmax _ hat₃.needed) (fun _ => hfit₃) fun ho => ?_) ?_
        fun _ _ h => h)
      · obtain ⟨u, hu⟩ := h.grows.trans hpre
        rw [hcont₃, ← hu, chainBytes_append,
          List.take_append_of_le_length (by rw [length_chainBytes]; exact ho),
          chainBytes_of_data hdata, hbytes]
      · rintro _ t' hwr
        exact ⟨rfl, hwr⟩
    · rintro e t' ⟨he, hf⟩
      exact ⟨he, hfail t' hf⟩
  · rintro e t' ⟨he, hf⟩
    exact ⟨he, hfail t' hf⟩

/-- The first cluster of a file that has none. -/
theorem bootstrapHead_spec (want : Nat) (hw : fs.writable) (hv : Volume fs sel r t.dev.disk)
    (hcur : Current fs sel r t.dev.disk t.file) (hc : FileChain fs t.dev.disk t.file.slot [])
    (h2 : t.file.firstCluster < 2) (hown : FindsOwn fs t.dev) :
    Wp (bootstrapHead fs) t
      (fun _ t₁ => ∃ b, Touched fs sel r t.file.slot [] t.dev.disk [b] t₁.dev.disk ∧
        Current fs sel r t₁.dev.disk t₁.file ∧ t₁.file.slot = t.file.slot ∧ 2 ≤ t₁.file.firstCluster ∧
        t₁.file.capacity = clusterBytesOf fs ∧
        (∀ n, FreeClusters fs t.dev.disk (n + 1) → FreeClusters fs t₁.dev.disk n) ∧
        (SameCopies fs t.dev.disk → SameCopies fs t₁.dev.disk) ∧ t₁.dev.armed = t.dev.armed ∧
        slotSize t₁.dev.disk t.file.slot = slotSize t.dev.disk t.file.slot)
      (fun e t' => e = .fail ∧ WriteFailed fs sel r want t [] t') := by
  have hm := hv.geometry
  have hs := hcur.mem
  have hrefl := Touched.refl hv hc (by simp)
  unfold bootstrapHead
  rw [wp_onDev_bind]
  refine Wp.mono (allocateHead_spec hm hw hown) ?_ ?_
  · rintro b d1 ⟨hnew, hcop, ha⟩
    refine wp_bind.mpr (wp_modify.mpr (wp_bind.mpr (wp_get.mpr ?_)))
    refine wp_onPart.mpr (Wp.mono (patchSlot_spec hm.mounted hw (hv.slot_lt hs)) ?_ ?_)
    · rintro _ d2 ⟨hd2, ha2⟩
      obtain ⟨ht, hf, hsz, -⟩ := Touched.head hv hs hcur.live hcur.selected hnew hd2
      have hu : SlotUpd fs r t.file.slot d1.disk d2.disk := by
        rw [hd2]
        exact slotUpd_edit hs (by simp)
      have hcs : clusterBytesOf fs ≤ 0xffffffff := by
        have := hm.cluster_lt
        unfold clusterBytesOf
        omega
      have hcur₁ : Current fs sel r d2.disk { t.file with firstCluster := b, capacity := clusterBytesOf fs } :=
        hcur.of_touched ht rfl hf.symm (hcur.size.trans hsz.symm) hcs
      refine ⟨b, ht, hcur₁, rfl, hnew.1.ge, rfl, ?_, fun hc => hu.sameCopies hs (hcop hc), ha2.trans ha, hsz⟩
      refine fun n hfree => hfree.take b fun x hx hxb hx0 => ?_
      show nextOf fs d2.disk x = 0
      rw [hu.next hm hs hx, hnew.2.2.entry x hx, if_neg hxb, hx0]
    · rintro e d2 ⟨he, hd2, hst⟩
      refine ⟨he, rfl, .inr (.inr (.inr ⟨?_, ?_⟩))⟩
      · show b ≠ entryFirst (d2.disk _) _
        rw [hd2, show ({ t with dev := d1 } : OpenFile).dev.disk = d1.disk from rfl,
          hnew.2.2.data _ (dataBase_le_of_mem (mem_slotsOf.mp hs).1)]
        intro hbe
        have := hnew.1.ge
        rw [hcur.first] at h2
        exact absurd h2 (by show ¬entryFirst _ _ < 2; rw [← hbe]; omega)
      · have ha' : ({ t with dev := d1 } : OpenFile).dev.armed = t.dev.armed := ha
        rw [← ha]
        exact hst
  · rintro e d1 ⟨he, hst, hd1 | ⟨⟨b, hnew⟩, hst'⟩⟩
    · have hdk : ({ t with dev := d1 } : OpenFile).dev.disk = t.dev.disk := hd1
      refine ⟨he, rfl, .inl ⟨[], by rw [hdk]; exact hrefl, by rw [hdk]; exact hcur, le_max_left _ _, ?_⟩⟩
      exact hst.mono (fun x hx => .inl (.inl (.inr hx))) fun _ => by rw [hdk]; exact ⟨id, id, rfl⟩
    · obtain ⟨hv1, -, -⟩ := hv.of_newHead hnew
      have hsec : d1.disk t.file.slot.lba = t.dev.disk t.file.slot.lba :=
        hnew.2.2.data _ (dataBase_le_of_mem (mem_slotsOf.mp hs).1)
      refine ⟨he, rfl, .inr (.inl ⟨hv1, ⟨hs, ?_, ?_, ?_, ?_, hcur.bound⟩, ?_⟩)⟩
      · show Live d1.disk _
        unfold Live
        rw [hsec]
        exact hcur.live
      · show sel (entryAttr (d1.disk _) _) = true
        rw [hsec]
        exact hcur.selected
      · show _ = entryFirst (d1.disk _) _
        rw [hsec]
        exact hcur.first
      · show _ = entrySize (d1.disk _) _
        rw [hsec]
        exact hcur.size
      · exact hst'.mono (fun x hx => .inl (.inl (.inr hx))) id

/-- A write that returns found the write callback set. -/
theorem write_writable :
    Wp (fat32Write fs off buf) t (fun _ _ => fs.writable = true) fun _ _ => True := by
  unfold fat32Write
  refine wp_bind.mpr (wp_get.mpr (wp_guard (fun _ => trivial) fun h => wp_const ?_))
  by_contra hw
  exact h (.inr (.inl (by simpa using hw)))

/-- Every outcome of a write through a current handle, with free clusters for what it needs. -/
theorem write_spec (hw : fs.writable) (hv : Volume fs sel r t.dev.disk)
    (hcur : Current fs sel r t.dev.disk t.file) (hc : FileChain fs t.dev.disk t.file.slot l)
    (hfree : buf ≠ [] → off ≤ t.file.size → off ≤ t.file.capacity →
      FreeClusters fs t.dev.disk (clustersFor fs (off + buf.length) - l.length)) :
    Wp (fat32Write fs off buf) t
      (fun n t' => n = buf.length ∧ ∃ l', Written fs sel r off buf t l t' l')
      (fun e t' => e = .fail ∧ WriteFailed fs sel r (clustersFor fs (off + buf.length)) t l t') := by
  have hm := hv.geometry
  have hs := hcur.mem
  have hl : ∀ x ∈ l, InData fs x := by
    rcases hc with ⟨h2, hc⟩ | ⟨-, rfl⟩
    · exact fun x hx => hv.family.ok_of_mem
        (heads_some.mpr ⟨hs, hcur.live, hcur.selected, h2, rfl⟩) hc hx
    · simp
  have hrefl := Touched.refl hv hc hl
  unfold fat32Write
  refine wp_bind.mpr (wp_get.mpr (wp_guard (fun _ => ?_) fun hguard => ?_))
  · exact ⟨rfl, rfl, .inl ⟨l, hrefl, hcur, le_max_left _ _, .inl ⟨⟨id, id, rfl⟩, rfl⟩⟩⟩
  simp only [not_or, not_lt] at hguard
  refine wp_ite (fun hb => ?_) fun hb => ?_
  · -- the truncate path
    subst hb
    have hoff : off % 2 ^ 32 = (off + ([] : List UInt8).length) % 2 ^ 32 := rfl
    rw [hoff]
    refine wp_bind.mpr (Wp.mono (finish_spec hw (fun x hx => .inr hx) hcur hrefl hcur rfl id rfl id
      (le_max_left _ _) (fun ho => by simpa using ho) fun _ => by simp) (fun _ t' h => ⟨rfl, h⟩) fun _ _ h => h)
  · have hfree := hfree hb hguard.2.2.1 hguard.2.2.2.1
    by_cases h2 : t.file.firstCluster < 2
    · -- the first cluster bootstrap
      have hlnil : l = [] := by
        rcases hc with ⟨h, -⟩ | ⟨-, h⟩
        · rw [← hcur.first] at h
          omega
        · exact h
      subst hlnil
      rw [if_pos h2]
      have hpos := List.length_pos_iff.mpr hb
      have hone : 1 ≤ clustersFor fs (off + buf.length) := by
        have := le_clustersFor hm (off + buf.length)
        by_contra h0
        have h0 : clustersFor fs (off + buf.length) = 0 := by omega
        rw [h0] at this
        omega
      rw [List.length_nil, Nat.sub_zero] at hfree
      obtain ⟨n, hn⟩ : ∃ n, clustersFor fs (off + buf.length) = n + 1 := ⟨_, (Nat.sub_add_cancel hone).symm⟩
      rw [hn] at hfree
      refine wp_bind.mpr (Wp.mono (bootstrapHead_spec _ hw hv hcur hc h2 hfree.findsOwn) ?_ fun _ _ h => h)
      intro _ t₁ h
      obtain ⟨b, ht, hcur₁, hslot, hb2, hcap, hfree₁, hcop, harm, hsz⟩ := h
      refine wp_bind.mpr (wp_get.mpr (body_spec hw hb hcur ht hcur₁ hslot hb2 ?_ hcop harm ?_ ?_ hsz ?_))
      · rw [hn]
        exact hfree₁ n hfree
      · intro _
        rw [hcap]
        simp
      · rw [hn]
        simp
      · simp [chainBytes, chainLbas, lbaBytes]
    · rw [if_neg h2]
      exact body_spec hw hb hcur hrefl hcur rfl (by omega) hfree id rfl id (le_max_left _ _) rfl rfl

end Parts

end Armonios
