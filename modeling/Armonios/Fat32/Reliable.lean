import Armonios.Fat32.Tidy

/-!
# The driver on a reliable disk

The specifications of the calls for a device without a planned fault, with or without a write
callback: a call that fails leaves the device as it is, except that a write may have made the chain
of its file longer. A read leaves it as it is whatever its handle (`fat32Read_quiet`).
-/

namespace Armonios

variable {fs : Fat32Fs} {r : List Nat} {d d' : Dev} {name : List UInt8}

theorem Dev.eq_of_disk (hdisk : d'.disk = d.disk) (ha : d'.armed = none) (hd : d.fault = none) : d' = d := by
  have hf := fault_none.mp ha
  rcases d with ⟨disk, fault⟩
  rcases d' with ⟨disk', fault'⟩
  simp only at hdisk hf hd
  rw [hdisk, hf, hd]

/-! ## Reads -/

/-- A program that leaves every reliable device as it is, also if it fails or does not end. -/
def Quiet {α : Type} (m : Io α) : Prop :=
  ∀ d, d.fault = none → Wp m d (fun _ d' => d' = d) fun _ d' => d' = d

section Quiet

variable {α β : Type} {m m₁ m₂ : Io α} {f : α → Io β}

theorem Quiet.pure (a : α) : Quiet (pure a : Io α) := fun _ _ => rfl

theorem Quiet.error (e : Err) : Quiet (throw e : Io α) := fun _ _ => rfl

theorem Quiet.bind (h : Quiet m) (hf : ∀ a, Quiet (f a)) : Quiet (m >>= f) := by
  intro d hd
  refine wp_bind.mpr (Wp.mono (h d hd) (fun a d' h' => ?_) fun _ _ h' => h')
  rw [h']
  exact hf a d hd

theorem Quiet.guard {c : Prop} [Decidable c] {e : Err} {k : Unit → Io α} (h : Quiet (k ())) :
    Quiet (if c then throw e >>= k else k ()) := fun d hd => wp_guard (fun _ => rfl) fun _ => h d hd

theorem Quiet.ite {c : Prop} [Decidable c] (h₁ : Quiet m₁) (h₂ : Quiet m₂) :
    Quiet (if c then m₁ else m₂) := fun d hd => wp_ite (fun _ => h₁ d hd) fun _ => h₂ d hd

theorem readSector_quiet (site : Site) (lba : Nat) : Quiet (readSector fs site lba) := by
  intro d hd
  have hnone : d.armed = none := fault_none.mpr hd
  have hread : ReadsTo (readSector fs site lba) {site} True d fun s => s = d.disk lba := readSector_any
  refine Wp.mono hread ?_ ?_
  · intro s d' h
    exact Dev.eq_of_disk h.1 (h.2.1.trans hnone) hd
  · intro e d' h
    have hst := h.2.2
    rw [hnone] at hst
    exact Dev.eq_of_disk h.2.1 hst.refused.2 hd

theorem readFatEntry_quiet (site : Site) (c : Nat) : Quiet (readFatEntry fs site c) := by
  unfold readFatEntry
  refine Quiet.guard ?_
  refine Quiet.bind (readSector_quiet _ _) fun s => ?_
  refine Quiet.guard ?_
  exact Quiet.pure _

theorem readSkip_quiet (fuel skip c : Nat) : Quiet (readSkip fs fuel skip c) := by
  induction fuel generalizing skip c with
  | zero => exact Quiet.error _
  | succ fuel ih =>
    unfold readSkip
    refine Quiet.ite (Quiet.bind (readFatEntry_quiet _ _) fun next => ?_) (Quiet.pure _)
    refine Quiet.guard ?_
    exact ih _ _

theorem readSectors_quiet (c : Nat) (is : List Nat) (off rem : Nat) :
    Quiet (readSectors fs c is off rem) := by
  induction is generalizing off rem with
  | nil => exact Quiet.pure _
  | cons i is ih =>
    unfold readSectors
    refine Quiet.ite (Quiet.pure _) (Quiet.ite (ih _ _) ?_)
    exact Quiet.bind (readSector_quiet _ _) fun s => Quiet.bind (ih _ _) fun rest => Quiet.pure _

theorem readLoop_quiet (fuel skip rem c : Nat) : Quiet (readLoop fs fuel skip rem c) := by
  induction fuel generalizing skip rem c with
  | zero => exact Quiet.error _
  | succ fuel ih =>
    unfold readLoop
    refine Quiet.ite (Quiet.pure _) (Quiet.bind (readSectors_quiet _ _ _ _) fun part => ?_)
    refine Quiet.ite (Quiet.pure _) (Quiet.bind (readFatEntry_quiet _ _) fun next => ?_)
    refine Quiet.guard ?_
    exact Quiet.bind (ih _ _ _) fun rest => Quiet.pure _

theorem fat32Read_quiet (file : Fat32File) (off cap : Nat) : Quiet (fat32Read fs file off cap) := by
  unfold fat32Read
  refine Quiet.guard ?_
  refine Quiet.ite (Quiet.pure _) ?_
  refine Quiet.guard ?_
  exact Quiet.bind (readSkip_quiet _ _ _) fun p => readLoop_quiet _ _ _ _

end Quiet

/-! ## Calls -/

theorem openRoot_reliable (hv : Volume fs allLive r d.disk) (hd : d.fault = none) (name : List UInt8) :
    Wp (fat32OpenRoot fs name) d
      (fun file d' => d' = d ∧ ∃ s l, Openable fs r d.disk name s l ∧ (∀ x ∈ l, InData fs x) ∧
        file = handleOf fs d.disk s l)
      (fun e d' => e = .fail ∧ d' = d ∧ ¬∃ s l, Openable fs r d.disk name s l) := by
  have hnone : d.armed = none := fault_none.mpr hd
  refine Wp.mono (openRoot_spec hv allLive_selectsFiles name) ?_ ?_
  · intro file d' h
    exact ⟨Dev.eq_of_disk h.1 (h.2.1.trans hnone) hd, h.2.2⟩
  · intro e d' h
    obtain ⟨he, hdisk, hst⟩ := h
    rw [hnone] at hst
    exact ⟨he, Dev.eq_of_disk hdisk hst.refused.2 hd, hst.refused.1⟩

theorem create_reliable (hv : Volume fs allLive r d.disk) (hd : d.fault = none)
    (hfree : CreateAllocates fs r d name → FreeClusters fs d.disk 1) :
    Wp (fat32Create fs name) d
      (fun _ d' => d'.fault = none ∧ (∃ w s b, makeShortName name = some w ∧
        Created fs allLive r w s b d.disk d'.disk) ∧ ¬∃ s l, Openable fs r d.disk name s l)
      (fun e d' => e = .fail ∧ d' = d) := by
  have hnone : d.armed = none := fault_none.mpr hd
  by_cases hw : fs.writable = true
  · refine Wp.mono (create_spec hw hv allLive_selectsFiles (takesOwn_of_free hv allLive_selectsFiles hfree)) ?_ ?_
    · intro file d' h
      obtain ⟨w, s, b, hw, hcr, -, -, harm⟩ := h
      exact ⟨fault_none.mp (harm hnone).1, ⟨w, s, b, hw, hcr⟩, (harm hnone).2⟩
    · intro e d' h
      obtain ⟨he, h⟩ := h
      rw [hnone] at h
      rcases h with ⟨hdisk, hst⟩ | ⟨-, hst⟩
      · exact ⟨he, Dev.eq_of_disk hdisk hst.refused.2 hd⟩
      · exact hst.refused.1.elim
  · unfold fat32Create
    exact wp_guard (fun _ => ⟨rfl, rfl⟩) fun h => absurd (Or.inr (by simpa using hw)) h

theorem delete_reliable (hv : Volume fs allLive r d.disk) (hd : d.fault = none) (name : List UInt8) :
    Wp (fat32Delete fs name) d
      (fun _ d' => d'.fault = none ∧ ∃ s l, Openable fs r d.disk name s l ∧
        Deleted fs allLive r s l d.disk d'.disk)
      (fun e d' => e = .fail ∧ d' = d) := by
  have hnone : d.armed = none := fault_none.mpr hd
  by_cases hw : fs.writable = true
  · refine Wp.mono (delete_spec hw hv allLive_selectsFiles name) ?_ ?_
    · intro _ d' h
      obtain ⟨s, l, ho, hdel, -, ha⟩ := h
      exact ⟨fault_none.mp (ha.trans hnone), s, l, ho, hdel⟩
    · intro e d' h
      obtain ⟨he, h⟩ := h
      rw [hnone] at h
      rcases h with ⟨hdisk, hst⟩ | ⟨s, l, -, -, -, hst⟩ | ⟨s, l, -, -, -, hst⟩
      · exact ⟨he, Dev.eq_of_disk hdisk hst.refused.2 hd⟩
      · exact hst.refused.1.elim
      · exact hst.refused.1.elim
  · unfold fat32Delete
    exact wp_guard (fun _ => ⟨rfl, rfl⟩) fun h => absurd (Or.inr (Or.inl (by simpa using hw))) h

theorem rename_reliable (hv : Volume fs allLive r d.disk) (hd : d.fault = none)
    (name newName : List UInt8) :
    Wp (fat32Rename fs name newName) d
      (fun _ d' => d'.fault = none ∧ ∃ w s l, makeShortName newName = some w ∧
        Openable fs r d.disk name s l ∧ Renamed fs allLive r w s d.disk d'.disk ∧
        ¬∃ s l, Openable fs r d.disk newName s l)
      (fun e d' => e = .fail ∧ d' = d) := by
  have hnone : d.armed = none := fault_none.mpr hd
  by_cases hw : fs.writable = true
  · refine Wp.mono (rename_spec hw hv allLive_selectsFiles name newName) ?_ ?_
    · intro _ d' h
      obtain ⟨w, s, l, hn, ho, hren, -, harm⟩ := h
      exact ⟨fault_none.mp (harm hnone).1, w, s, l, hn, ho, hren, (harm hnone).2⟩
    · intro e d' h
      obtain ⟨he, hdisk, hst⟩ := h
      rw [hnone] at hst
      exact ⟨he, Dev.eq_of_disk hdisk hst.refused.2 hd⟩
  · unfold fat32Rename
    exact wp_guard (fun _ => ⟨rfl, rfl⟩) fun h => absurd (Or.inr (by simpa using hw)) h

/-- What a write that failed on a reliable disk leaves: a chain that may be longer. -/
structure WriteRefused (fs : Fat32Fs) (r : List Nat) (want : Nat) (t : OpenFile) (l : List Nat)
    (t' : OpenFile) (l' : List Nat) : Prop where
  touched : Touched fs allLive r t.file.slot l t.dev.disk l' t'.dev.disk
  current : Current fs allLive r t'.dev.disk t'.file
  slot : t'.file.slot = t.file.slot
  needed : l'.length ≤ max l.length want
  capacity : t.file.capacity = l.length * clusterBytesOf fs → t'.file.capacity = l'.length * clusterBytesOf fs
  size : slotSize t'.dev.disk t.file.slot = slotSize t.dev.disk t.file.slot

theorem write_reliable {t : OpenFile} {l : List Nat} (off : Nat) (buf : List UInt8)
    (hv : Volume fs allLive r t.dev.disk) (hd : t.dev.fault = none)
    (hcur : Current fs allLive r t.dev.disk t.file) (hc : FileChain fs t.dev.disk t.file.slot l)
    (hfree : buf ≠ [] → off ≤ t.file.size → off ≤ t.file.capacity →
      FreeClusters fs t.dev.disk (clustersFor fs (off + buf.length) - l.length)) :
    Wp (fat32Write fs off buf) t
      (fun n t' => t'.dev.fault = none ∧ n = buf.length ∧ off ≤ t.file.size ∧
        ∃ l', Written fs allLive r off buf t l t' l')
      (fun e t' => t'.dev.fault = none ∧ e = .fail ∧
        ∃ l', WriteRefused fs r (clustersFor fs (off + buf.length)) t l t' l') := by
  have hnone : t.dev.armed = none := fault_none.mpr hd
  have hl : ∀ x ∈ l, InData fs x := by
    rcases hc with ⟨h2, hc⟩ | ⟨-, rfl⟩
    · exact fun x hx => hv.family.ok_of_mem
        (heads_some.mpr ⟨hcur.mem, hcur.live, hcur.selected, h2, rfl⟩) hc hx
    · simp
  have hrefl : ∃ l', WriteRefused fs r (clustersFor fs (off + buf.length)) t l t l' :=
    ⟨l, Touched.refl hv hc hl, hcur, rfl, le_max_left _ _, id, rfl⟩
  have hoff : Wp (fat32Write fs off buf) t (fun _ _ => off ≤ t.file.size) fun _ _ => True := by
    unfold fat32Write
    refine wp_bind.mpr (wp_get.mpr (wp_guard (fun _ => trivial) fun h => wp_const ?_))
    by_contra hlt
    exact h (.inr (.inr (.inl (by omega))))
  by_cases hw : fs.writable = true
  · refine Wp.mono ((write_spec hw hv hcur hc hfree).and hoff) ?_ ?_
    · intro n t' h
      obtain ⟨⟨hn, l', hwr⟩, ho⟩ := h
      exact ⟨fault_none.mp (hwr.armed.trans hnone), hn, ho, l', hwr⟩
    · intro e t' h
      obtain ⟨⟨he, hslot, hfail⟩, -⟩ := h
      rw [hnone] at hfail
      rcases hfail with ⟨l', ht, hcur', hneed, hst⟩ | ⟨-, -, hst⟩ | ⟨-, hst⟩ | ⟨-, hst⟩
      · obtain ⟨⟨-, hcap, hsize⟩, ha⟩ := hst.refused
        exact ⟨fault_none.mp ha, he, l', ht, hcur', hslot, hneed, hcap, hsize⟩
      · exact hst.refused.1.elim
      · exact hst.refused.1.elim
      · exact hst.refused.1.elim
  · unfold fat32Write
    refine wp_bind.mpr (wp_get.mpr (wp_guard (fun _ => ⟨hd, rfl, hrefl⟩) fun h => ?_))
    exact absurd (Or.inr (Or.inl (by simpa using hw))) h

end Armonios
