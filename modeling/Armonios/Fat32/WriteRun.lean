import Armonios.Fat32.Runs

/-!
# The run of a write

`fat32_write` searches for a free cluster in three places: for the first cluster of an empty file, on the way to the
offset, and behind the last cluster written. `WriteTakes` follows its loops to these places. A write whose searches find
clusters of the data area, if any, leaves the same behind as one that has enough free clusters (`write_spec`).

* `Job.Along`: the invariant of the loops, without the free clusters;
* `write_broke`: what a failed write leaves behind.
-/

namespace Armonios

variable {fs : Fat32Fs} {sel : UInt8 → Bool} {r : List Nat} {j : Job} {t t₀ t₁ t' : OpenFile} {l p q : List Nat}
  {c skip fuel off : Nat} {buf rest : List UInt8}

/-! ## Where a write comes by -/

/-- The guards of a write. -/
structure WriteAccepted (fs : Fat32Fs) (file : Fat32File) (off : Nat) : Prop where
  writable : fs.writable = true
  size : off ≤ file.size
  capacity : off ≤ file.capacity
  slot : file.dirLba < fs.totalSectors ∧ (file.dirOffset + 32) % 2 ^ 32 ≤ 512

/-- The loops of the write start with `t₁`. -/
def LoopsFrom (fs : Fat32Fs) (t t₁ : OpenFile) : Prop :=
  if t.file.firstCluster < 2 then bootstrapHead fs t = .ok () t₁ else t₁ = t

/-- The first loop comes to the cluster `c`, with `skip` bytes to go. -/
inductive SkipAt (fs : Fat32Fs) (off : Nat) (t₁ : OpenFile) : Nat → Nat → OpenFile → Prop
  | start : SkipAt fs off t₁ off t₁.file.firstCluster t₁
  | next {skip c c' : Nat} {t t' : OpenFile} (before : SkipAt fs off t₁ skip c t) (more : clusterBytesOf fs ≤ skip)
      (step : advanceOrAllocateCluster fs (clusterBytesOf fs) c t = .ok c' t') :
      SkipAt fs off t₁ (skip - clusterBytesOf fs) c' t'

/-- The second loop has written to the cluster `c`, and `rest` is left. -/
inductive LoopAt (fs : Fat32Fs) (off : Nat) (buf : List UInt8) (t₁ : OpenFile) : List UInt8 → Nat → OpenFile → Prop
  | start {skip c : Nat} {t : OpenFile} {rest : List UInt8} {d : Dev} (before : SkipAt fs off t₁ skip c t)
      (enough : skip < clusterBytesOf fs)
      (write : writeSectors fs c (List.range fs.sectorsPerCluster) skip buf t.dev = .ok rest d) :
      LoopAt fs off buf t₁ rest c { t with dev := d }
  | next {c c' : Nat} {t t' : OpenFile} {rest rest' : List UInt8} {d : Dev} (before : LoopAt fs off buf t₁ rest c t)
      (more : rest ≠ []) (step : advanceOrAllocateCluster fs (clusterBytesOf fs) c t = .ok c' t')
      (write : writeSectors fs c' (List.range fs.sectorsPerCluster) 0 rest t'.dev = .ok rest' d) :
      LoopAt fs off buf t₁ rest' c' { t' with dev := d }

/-- The write comes to take the cluster `b`. -/
inductive WriteTakes (fs : Fat32Fs) (off : Nat) (buf : List UInt8) (t : OpenFile) (b : Nat) : Prop
  | head (empty : t.file.firstCluster < 2) (found : ∃ d, findFreeCluster fs t.dev = .ok b d)
  | skip {t₁ t₂ : OpenFile} {skip c : Nat} (start : LoopsFrom fs t t₁) (here : SkipAt fs off t₁ skip c t₂)
      (more : clusterBytesOf fs ≤ skip) (takes : AdvanceTakes fs c t₂ b)
  | loop {t₁ t₂ : OpenFile} {rest : List UInt8} {c : Nat} (start : LoopsFrom fs t t₁)
      (here : LoopAt fs off buf t₁ rest c t₂) (more : rest ≠ []) (takes : AdvanceTakes fs c t₂ b)

/-! ## The loops -/

/-- The chain has grown to `l`; of the handle only the capacity may have changed. -/
structure Job.Along (fs : Fat32Fs) (sel : UInt8 → Bool) (r : List Nat) (j : Job) (l : List Nat)
    (t : OpenFile) : Prop where
  grown : Grown fs sel r j.slot j.chain j.disk l t.dev.disk
  file : t.file = { j.file with capacity := t.file.capacity }
  bound : t.file.capacity ≤ 0xffffffff
  armed : t.dev.armed = j.armed

/-- The loops stopped with a whole chain, or with a link to a free cluster. -/
def Job.Broke (fs : Fat32Fs) (sel : UInt8 → Bool) (r : List Nat) (j : Job) (t : OpenFile) : Prop :=
  t.file = { j.file with capacity := t.file.capacity } ∧
    ((∃ l, Grown fs sel r j.slot j.chain j.disk l t.dev.disk) ∧ t.file.capacity ≤ 0xffffffff ∧
        Stopped writeSites True j.armed t.dev ∨
      (∃ q p b disk, Grown fs sel r j.slot j.chain j.disk (q ++ [p]) disk ∧ TornLink fs p b disk t.dev.disk) ∧
        Stopped tornLinkSites False j.armed t.dev)

theorem advance_along (hw : fs.writable) (h : j.Along fs sel r (p ++ c :: q) t)
    (hown : ∀ b, AdvanceTakes fs c t b → InData fs b) :
    Wp (advanceOrAllocateCluster fs (clusterBytesOf fs) c) t
      (fun c' t' => ∃ q', j.Along fs sel r ((p ++ [c]) ++ c' :: q') t') (fun _ t' => j.Broke fs sel r t') := by
  have hl : ∀ y ∈ p ++ c :: q, InData fs y := fun y hy => h.grown.inData hy
  have htail := h.grown.chain.suffix.tail
  refine Wp.mono (advance_step h.grown.volume.geometry hw (hl c (by simp))
    (next_ne_bad h.grown.chain hl (by simp)) hown) ?_ ?_
  · rintro c' t' ⟨harm, ⟨hnext, hne, hdisk, hfile⟩ | ⟨heoc, hnew, -, hfile, hcap⟩⟩
    · obtain ⟨q', rfl⟩ := htail.eq_cons (by rw [← hnext]; exact hne)
      rw [← hnext] at h
      refine ⟨q', ?_, by rw [hfile]; exact h.file, by rw [hfile]; exact h.bound, harm.trans h.armed⟩
      rw [hdisk, List.append_assoc, List.singleton_append]
      exact h.grown
    · obtain rfl := htail.nil_of_stop heoc
      refine ⟨[], ?_, by rw [hfile, h.file], by rw [hfile]; exact hcap, harm.trans h.armed⟩
      rw [List.append_assoc, List.singleton_append]
      exact h.grown.alloc hnew
  · rintro e t' ⟨-, hfile, hfail⟩
    rw [h.armed] at hfail
    refine ⟨by rw [hfile]; exact h.file, ?_⟩
    rcases hfail with ⟨hdisk, hst⟩ | ⟨heoc, ⟨⟨b, hnew⟩, hst⟩ | ⟨⟨b, htorn⟩, hst⟩⟩
    · refine .inl ⟨⟨_, by rw [hdisk]; exact h.grown⟩, by rw [hfile]; exact h.bound, ?_⟩
      exact hst.mono (fun x hx => .inl hx) id
    · obtain rfl := htail.nil_of_stop heoc
      refine .inl ⟨⟨_, h.grown.alloc hnew⟩, by rw [hfile]; exact h.bound, ?_⟩
      exact hst.mono (fun x hx => .inl hx) False.elim
    · obtain rfl := htail.nil_of_stop heoc
      exact .inr ⟨⟨p, c, b, t.dev.disk, h.grown, htorn⟩, hst⟩

theorem writeCluster_along (hw : fs.writable) (h : j.Along fs sel r (p ++ c :: q) t) :
    Wp (writeSectors fs c (List.range fs.sectorsPerCluster) skip rest) t.dev
      (fun _ d' => j.Along fs sel r (p ++ c :: q) { t with dev := d' })
      (fun _ d' => j.Broke fs sel r { t with dev := d' }) := by
  have hc : InData fs c := h.grown.inData (by simp)
  have hcell : ∀ lba, lba ∉ chainLbas fs (p ++ c :: q) →
      lba ∉ (List.range fs.sectorsPerCluster).map (lbaOf fs c + ·) := fun lba hlba hmem =>
    hlba (mem_chainLbas.mpr ⟨c, by simp, hmem⟩)
  refine Wp.mono (writeSectors_spec h.grown.volume.geometry hw hc (fun i hi => List.mem_range.mp hi)
    List.nodup_range) ?_ ?_
  · rintro rest' d' ⟨-, -, hdisk, harm⟩
    exact ⟨h.grown.write fun lba hlba => hdisk lba (hcell lba hlba), h.file, h.bound, harm.trans h.armed⟩
  · rintro e d' ⟨-, hdisk, hst⟩
    rw [h.armed] at hst
    exact ⟨h.file, .inl ⟨⟨_, h.grown.write fun lba hlba => hdisk lba (hcell lba hlba)⟩, h.bound,
      hst.mono (fun x hx => .inr hx) False.elim⟩⟩

section Loops

variable (hw : fs.writable) (hstart : LoopsFrom fs t₀ t₁)
  (hown : ∀ b, WriteTakes fs off buf t₀ b → InData fs b)

include hw hstart hown

/-- The first loop. It ends, since the chain that it follows does not come back. -/
theorem writeSkip_along (hat : SkipAt fs off t₁ skip c t) (h : j.Along fs sel r (p ++ c :: q) t)
    (hfuel : walkFuel ≤ p.length + fuel) :
    Wp (writeSkip fs fuel skip c) t
      (fun res t' => SkipAt fs off t₁ res.1 res.2 t' ∧ res.1 < clusterBytesOf fs ∧
        ∃ p' q', j.Along fs sel r (p' ++ res.2 :: q') t')
      (fun _ t' => j.Broke fs sel r t') := by
  induction fuel generalizing p q c skip t with
  | zero =>
    have hlt := chain_length_lt h.grown.chain fun y hy => h.grown.inData hy
    rw [List.length_append] at hlt
    omega
  | succ fuel ih =>
    unfold writeSkip
    refine wp_ite (fun hge => ?_) fun hlt => ⟨hat, by omega, p, q, h⟩
    refine Wp.bind_run (advance_along hw h fun b htakes => hown b (.skip hstart hat hge htakes))
      (fun c' t' hrun h' => ?_) fun _ _ h' => h'
    obtain ⟨q', h'⟩ := h'
    refine ih (.next hat hge hrun) h' ?_
    rw [List.length_append, List.length_singleton]
    omega

/-- The second loop, behind a cluster that it has written to. -/
theorem writeRest_along (hat : LoopAt fs off buf t₁ rest c t) (h : j.Along fs sel r (p ++ c :: q) t)
    (hfuel : walkFuel ≤ p.length + 1 + fuel) :
    Wp (if rest = [] then pure () else do
        let next ← advanceOrAllocateCluster fs (clusterBytesOf fs) c
        writeLoop fs fuel 0 rest next) t
      (fun _ t' => ∃ l, j.Along fs sel r l t') (fun _ t' => j.Broke fs sel r t') := by
  induction fuel generalizing p q c rest t with
  | zero =>
    have hlt := chain_length_lt h.grown.chain fun y hy => h.grown.inData hy
    rw [List.length_append, List.length_cons] at hlt
    omega
  | succ fuel ih =>
    refine wp_ite (fun _ => ⟨_, h⟩) fun hmore => ?_
    refine Wp.bind_run (advance_along hw h fun b htakes => hown b (.loop hstart hat hmore htakes))
      (fun c' t' hrun h' => ?_) fun _ _ h' => h'
    obtain ⟨q', h'⟩ := h'
    have hc' : InData fs c' := h'.grown.inData (by simp)
    unfold writeLoop
    rw [if_neg hmore, if_neg (by rw [hc'.clusterIsEoc]; have := hc'.ge; simp; omega), wp_onDev_bind]
    refine Wp.mono (Wp.and (writeCluster_along hw h') wp_self) (fun rest' d' h'' => ?_) fun _ _ h'' => h''.1
    refine ih (.next hat hmore hrun h''.2) h''.1 ?_
    rw [List.length_append, List.length_singleton]
    omega

theorem writeLoop_along (hbuf : buf ≠ []) (hat : SkipAt fs off t₁ skip c t) (hskip : skip < clusterBytesOf fs)
    (h : j.Along fs sel r (p ++ c :: q) t) (hfuel : walkFuel ≤ p.length + fuel) :
    Wp (writeLoop fs fuel skip buf c) t
      (fun _ t' => ∃ l, j.Along fs sel r l t') (fun _ t' => j.Broke fs sel r t') := by
  have hc : InData fs c := h.grown.inData (by simp)
  have hlt := chain_length_lt h.grown.chain fun y hy => h.grown.inData hy
  rw [List.length_append] at hlt
  obtain ⟨fuel, rfl⟩ : ∃ n, fuel = n + 1 := ⟨fuel - 1, by omega⟩
  unfold writeLoop
  rw [if_neg hbuf, if_neg (by rw [hc.clusterIsEoc]; have := hc.ge; simp; omega), wp_onDev_bind]
  refine Wp.mono (Wp.and (writeCluster_along hw h) wp_self) (fun rest d' h' => ?_) fun _ _ h' => h'.1
  exact writeRest_along hw hstart hown (.start hat hskip h'.2) h'.1 (by omega)

end Loops

/-! ## The call -/

/-- What a failed write leaves behind: whole chains and a current handle, a link to a free cluster, or a handle with a
first cluster that its entry does not have. -/
def WriteBroke (fs : Fat32Fs) (sel : UInt8 → Bool) (r : List Nat) (t t' : OpenFile) : Prop :=
  t'.file.slot = t.file.slot ∧
    ((Volume fs sel r t'.dev.disk ∧ Current fs sel r t'.dev.disk t'.file ∧
        Stopped wholeWriteSites True t.dev.armed t'.dev) ∨
      (TornFile fs r t'.dev.disk t.file.slot ∧ Stopped tornLinkSites False t.dev.armed t'.dev) ∨
      (t'.file.firstCluster ≠ slotFirst t'.dev.disk t.file.slot ∧
        Stopped (slotSites .head) False t.dev.armed t'.dev))

theorem WriteFailed.broke {want : Nat} (h : WriteFailed fs sel r want t l t') : WriteBroke fs sel r t t' := by
  obtain ⟨hslot, ⟨l', ht, hcur, -, hst⟩ | ⟨hv, hcur, hst⟩ | htorn | hhead⟩ := h
  · exact ⟨hslot, .inl ⟨ht.volume, hcur, hst.mono (fun _ h => h) fun _ => trivial⟩⟩
  · exact ⟨hslot, .inl ⟨hv, hcur, hst.mono (fun _ h => h) fun _ => trivial⟩⟩
  · exact ⟨hslot, .inr (.inl htorn)⟩
  · exact ⟨hslot, .inr (.inr hhead)⟩

/-- A handle of the file with its first cluster and its size. -/
theorem Current.along {disk : Nat → Sector} {s : Slot} {file file' : Fat32File} (hcur : Current fs sel r disk file)
    (hs : file.slot = s) {l₀ l : List Nat} {disk' : Nat → Sector} (hg : Grown fs sel r s l₀ disk l disk')
    (hfile : file' = { file with capacity := file'.capacity }) (hbound : file'.capacity ≤ 0xffffffff) :
    Current fs sel r disk' file' := by
  subst hs
  have hent := hg.entry hcur.mem
  have hslot : file'.slot = file.slot := by rw [hfile]; rfl
  refine ⟨by rw [hslot]; exact hcur.mem, ?_, ?_, ?_, ?_, hbound⟩
  · rw [hslot]
    unfold Live
    rw [hent]
    exact hcur.live
  · rw [hslot, hent]
    exact hcur.selected
  · rw [hslot]
    unfold slotFirst
    rw [hent, hfile]
    exact hcur.first
  · rw [hslot]
    unfold slotSize
    rw [hent, hfile]
    exact hcur.size

/-- The loops and the size update. -/
theorem writeBody_broke (hw : fs.writable) (hbuf : buf ≠ []) (hstart : LoopsFrom fs t₀ t₁)
    (hown : ∀ b, WriteTakes fs off buf t₀ b → InData fs b) (hv : Volume fs sel r t₁.dev.disk)
    (hcur : Current fs sel r t₁.dev.disk t₁.file) (hc : FileChain fs t₁.dev.disk t₁.file.slot l)
    (h2 : 2 ≤ t₁.file.firstCluster) :
    Wp (do
        let (skip, cluster) ← writeSkip fs walkFuel off t₁.file.firstCluster
        writeLoop fs walkFuel skip buf cluster
        updateSize fs .size ((off + buf.length) % 2 ^ 32)
        return buf.length) t₁
      (fun _ _ => True) (fun _ t' => WriteBroke fs sel r t₁ t') := by
  have hm := hv.geometry
  have hnone : FreeClusters fs t₁.dev.disk (0 - l.length) := ⟨[], List.nodup_nil, by simp, by simp⟩
  obtain ⟨q, rfl, hat⟩ := hcur.job_at hv hc h2 hnone
  let j : Job := ⟨t₁.file.slot, t₁.file.firstCluster :: q, t₁.dev.disk, t₁.file, 0, t₁.dev.armed⟩
  have halong : j.Along fs sel r ([] ++ t₁.file.firstCluster :: q) t₁ := ⟨hat.grown, hat.file, hat.bound, hat.armed⟩
  have hslot : ∀ {file : Fat32File}, file = { t₁.file with capacity := file.capacity } → file.slot = t₁.file.slot :=
    fun h => by rw [h]; rfl
  have hfail : ∀ t', j.Broke fs sel r t' → WriteBroke fs sel r t₁ t' := by
    rintro t' ⟨hfile, ⟨⟨l', hg⟩, hbound, hst⟩ | ⟨⟨q', p, b, disk, hg, htorn⟩, hst⟩⟩
    · refine ⟨hslot hfile, .inl ⟨hg.volume, hcur.along rfl hg hfile hbound, ?_⟩⟩
      exact hst.mono (fun x hx => .inl (.inl (.inl hx))) id
    · exact ⟨hslot hfile, .inr (.inl ⟨tornFile_of_link hcur.mem hg htorn, hst⟩)⟩
  refine wp_bind.mpr (Wp.mono (writeSkip_along hw hstart hown .start halong (by simp)) ?_ fun _ t' h => hfail t' h)
  rintro ⟨skip, cluster⟩ t₂ ⟨hpoint, hskip, p, q', h₂⟩
  refine wp_bind.mpr (Wp.mono (writeLoop_along hw hstart hown hbuf hpoint hskip h₂ (by omega)) ?_
    fun _ t' h => hfail t' h)
  rintro _ t₃ ⟨l₃, h₃⟩
  have hlba : t₃.file.slot.lba < fs.totalSectors := by
    rw [hslot h₃.file]
    exact hv.slot_lt hcur.mem
  refine wp_bind.mpr (Wp.mono (updateSize_spec hm.mounted hw hlba) (fun _ _ _ => trivial) ?_)
  rintro e t' ⟨-, hdisk, hfile, hst⟩
  rw [h₃.armed] at hst
  refine ⟨by rw [hfile, hslot h₃.file], .inl ⟨?_, ?_, hst.mono (fun x hx => .inl (.inr hx)) False.elim⟩⟩
  · rw [hdisk]
    exact h₃.grown.volume
  · rw [hdisk, hfile]
    exact hcur.along rfl h₃.grown h₃.file h₃.bound

/-- A write through a current handle that takes no cluster outside the data area. -/
theorem write_broke (hw : fs.writable) (hv : Volume fs sel r t.dev.disk) (hcur : Current fs sel r t.dev.disk t.file)
    (hc : FileChain fs t.dev.disk t.file.slot l)
    (hown : WriteAccepted fs t.file off → buf ≠ [] → ∀ b, WriteTakes fs off buf t b → InData fs b) :
    Wp (fat32Write fs off buf) t (fun _ _ => True) (fun _ t' => WriteBroke fs sel r t t') := by
  have hm := hv.geometry
  unfold fat32Write
  refine wp_bind.mpr (wp_get.mpr (wp_guard (fun _ => ?_) fun hguard => ?_))
  · exact ⟨rfl, .inl ⟨hv, hcur, .inl ⟨trivial, rfl⟩⟩⟩
  simp only [not_or, not_lt, not_le] at hguard
  obtain ⟨-, -, hsize, hcap, hlba, hoffset⟩ := hguard
  have hown := hown ⟨hw, hsize, hcap, hlba, hoffset⟩
  refine wp_ite (fun _ => ?_) fun hbuf => ?_
  · refine wp_bind.mpr (Wp.mono (updateSize_spec hm.mounted hw hlba) (fun _ _ _ => trivial) ?_)
    rintro e t' ⟨-, hdisk, hfile, hst⟩
    refine ⟨by rw [hfile], .inl ⟨by rw [hdisk]; exact hv, by rw [hdisk, hfile]; exact hcur, ?_⟩⟩
    exact hst.mono (fun x hx => .inr hx) False.elim
  have hown := hown hbuf
  by_cases h2 : t.file.firstCluster < 2
  · -- the first cluster bootstrap
    rw [if_pos h2]
    obtain rfl : l = [] := by
      rcases hc with ⟨h, -⟩ | ⟨-, h⟩
      · rw [← hcur.first] at h
        omega
      · exact h
    have hfinds : FindsOwn fs t.dev := fun b d hfind => hown b (.head h2 ⟨d, hfind⟩)
    refine Wp.bind_run (bootstrapHead_spec 0 hw hv hcur hc h2 hfinds) ?_ fun _ _ h => h.2.broke
    rintro _ t₁ hrun ⟨b, ht, hcur₁, hslot, hb2, -, -, -, harm, -⟩
    have hstart : LoopsFrom fs t t₁ := by
      unfold LoopsFrom
      rw [if_pos h2]
      exact hrun
    refine wp_bind.mpr (wp_get.mpr ?_)
    refine Wp.mono (writeBody_broke hw hbuf hstart hown ht.volume hcur₁ (by rw [hslot]; exact ht.chain) hb2)
      (fun _ _ h => h) fun _ t' h => ?_
    unfold WriteBroke at h ⊢
    rwa [hslot, harm] at h
  · rw [if_neg h2]
    have hstart : LoopsFrom fs t t := by
      unfold LoopsFrom
      rw [if_neg h2]
    exact wp_bind.mpr (wp_get.mpr (writeBody_broke hw hbuf hstart hown hv hcur hc (by omega)))

end Armonios
