import Armonios.Fat32.WriteCall

/-!
# Writes that return

`write_spec` lets a write be refused. Here is when it is not: the disk is reliable, the handle counts
its chain, the free clusters are there, no cluster is marked bad (`read_fat_entry` refuses the mark,
and with it the search for a free cluster that comes across it) and the bytes that
`find_free_cluster` counts for one FAT are fewer than `2^32` (`Roomy`).

`Returns m s` is kept apart from the specifications: `Returns.bind` takes the state between two steps
from the specification of the first one.
-/

namespace Armonios

section Returns

variable {ε σ α β : Type} {m : EStateM ε σ α} {s : σ} {f : α → EStateM ε σ β} {Q : α → σ → Prop}
  {E : ε → σ → Prop}

/-- `m` from `s` returns a value. -/
def Returns (m : EStateM ε σ α) (s : σ) : Prop := Wp m s (fun _ _ => True) fun _ _ => False

theorem Returns.bind (h : Returns m s) (hq : Wp m s Q E) (hf : ∀ a s', Q a s' → Returns (f a) s') :
    Returns (m >>= f) s :=
  wp_bind.mpr (Wp.mono (Wp.and h hq) (fun a s' h => hf a s' h.2) fun _ _ h => h.1)

theorem Returns.of_wp (h : Wp m s Q E) (he : ∀ e s', ¬E e s') : Returns m s :=
  Wp.mono h (fun _ _ _ => trivial) he

end Returns

variable {fs : Fat32Fs} {sel : UInt8 → Bool} {r l : List Nat} {d : Dev} {disk : Nat → Sector} {j : Job}
  {t : OpenFile} {c : Nat}

/-- What the search for a free cluster needs besides a free cluster. -/
structure Roomy (fs : Fat32Fs) (disk : Nat → Sector) : Prop where
  fat : fs.sectorsPerFat < 2 ^ 23
  good : ∀ x, InData fs x → nextOf fs disk x ≠ clusterBad

theorem not_stopped {S : Set Site} {d : Dev} (h : Stopped S False none d) : False := h.refused.1

/-! ## Allocation -/

theorem findFreeFrom_returns (hm : Mounted fs) (hr : Roomy fs d.disk) {b n : Nat} (hb : InData fs b)
    (hb0 : nextOf fs d.disk b = 0) (hc : 2 ≤ c) (hcb : c ≤ b) (hbn : b < c + n) :
    ReadsTo (findFreeFrom fs c n) {.lookup} False d fun _ => True := by
  induction n generalizing c d with
  | zero => omega
  | succ n ih =>
    have hcd := hb.of_le hc hcb
    unfold findFreeFrom
    refine ReadsTo.bind (readFatEntry_spec .lookup d hm hcd (hr.good c hcd)) fun v d₁ h₁ _ hv => ?_
    split
    · exact ReadsTo.pure trivial
    · rename_i hne
      refine ih (by rw [h₁]; exact hr) (by rw [h₁]; exact hb0) (by omega) ?_ (by omega)
      by_contra hlt
      obtain rfl : c = b := by omega
      exact hne (hv.trans hb0)

theorem findFreeCluster_returns (hm : Mounted fs) (hr : Roomy fs d.disk) {n : Nat}
    (hf : FreeClusters fs d.disk (n + 1)) (hd : d.armed = none) : Returns (findFreeCluster fs) d := by
  obtain ⟨l, -, hlen, hl⟩ := hf
  obtain ⟨b, hb⟩ := List.exists_mem_of_length_pos (l := l) (by omega)
  obtain ⟨hbd, hb0⟩ := hl b hb
  have hentry := hbd.entry
  have hfat := hr.fat
  have h := findFreeFrom_returns (c := 2) (n := fs.sectorsPerFat * 512 % 2 ^ 32 / 4) hm hr hbd hb0 le_rfl hbd.ge
    (by omega)
  refine Returns.of_wp h fun e d' hfail => ?_
  rw [hd] at hfail
  exact not_stopped hfail.2.2

theorem allocateHead_returns (hm : Mounted fs) (hw : fs.writable) (hr : Roomy fs d.disk) {n : Nat}
    (hf : FreeClusters fs d.disk (n + 1)) (hd : d.armed = none) : Returns (allocateCluster fs 0) d := by
  unfold allocateCluster
  refine (findFreeCluster_returns hm hr hf hd).bind (findFreeCluster_spec hf) fun b d₁ h => ?_
  obtain ⟨-, ha, hb, -⟩ := h
  rw [hd] at ha
  simp only [ne_eq, not_true_eq_false, if_false]
  refine wp_bind.mpr (Wp.mono (writeFatEntry_spec hm hw hb (by decide)) (fun _ _ _ => trivial) fun e d₂ h => ?_)
  rw [ha] at h
  rcases h.2 with h | h
  · exact not_stopped h.2
  · exact not_stopped h.2

theorem allocateNext_returns {p : Nat} (hm : Mounted fs) (hw : fs.writable) (hp : InData fs p)
    (he : Eoc (nextOf fs d.disk p)) (hr : Roomy fs d.disk) {n : Nat} (hf : FreeClusters fs d.disk (n + 1))
    (hd : d.armed = none) : Returns (allocateCluster fs p) d := by
  have hp0 : p ≠ 0 := by
    have := hp.ge
    omega
  unfold allocateCluster
  refine (findFreeCluster_returns hm hr hf hd).bind (findFreeCluster_spec hf) fun b d₁ h => ?_
  obtain ⟨h₁, ha, hb, -⟩ := h
  rw [hd] at ha
  simp only [ne_eq, hp0, not_false_eq_true, if_true]
  have hread := readFatEntry_spec .lookup d₁ hm hp (by rw [h₁]; exact hr.good p hp)
  refine hread.wp_bind (fun v d₂ h₂ a₂ hv => ?_) fun d' _ hst => ?_
  swap
  · rw [ha] at hst
    exact not_stopped hst
  have hve : clusterIsEoc v = true := by
    rw [hv, h₁]
    exact decide_eq_true he
  have ha₂ : d₂.armed = none := a₂.trans ha
  refine wp_guard (fun h => absurd hve (by simp [h])) fun _ => ?_
  refine wp_bind.mpr (Wp.mono (writeFatEntry_spec hm hw hp hb.lt_range) ?_ fun e d₃ h => ?_)
  swap
  · rw [ha₂] at h
    rcases h.2 with h | h
    · exact not_stopped h.2
    · exact not_stopped h.2
  intro _ d₃ h
  have ha₃ : d₃.armed = none := h.2.2.trans ha₂
  refine wp_bind.mpr (Wp.mono (writeFatEntry_spec hm hw hb (by decide)) (fun _ _ _ => trivial) fun e d₄ h => ?_)
  rw [ha₃] at h
  rcases h.2 with h | h
  · exact not_stopped h.2
  · exact not_stopped h.2

/-! ## The loops -/

/-- The write has room: nothing is marked bad, and the capacity of the handle counts the chain and can
count what the write needs. -/
structure Job.Roomy (fs : Fat32Fs) (j : Job) : Prop where
  disk : Armonios.Roomy fs j.disk
  counts : j.file.capacity = j.chain.length * clusterBytesOf fs
  bound : j.want * clusterBytesOf fs ≤ 0xffffffff
  armed : j.armed = none

/-- A link of the chain is no bad mark, and the rest of the FAT has not changed. -/
theorem Job.At.roomy (h : j.At fs sel r l t) (hj : j.Roomy fs) : Armonios.Roomy fs t.dev.disk := by
  refine ⟨hj.disk.fat, fun x hx => ?_⟩
  by_cases hmem : x ∈ l
  · exact next_ne_bad h.grown.chain (fun y hy => h.inData hy) hmem
  · rw [h.grown.next x hx hmem]
    exact hj.disk.good x hx

theorem Job.At.counts (h : j.At fs sel r l t) (hj : j.Roomy fs) :
    t.file.capacity = l.length * clusterBytesOf fs := by
  have hle := h.grown.grows.length_le
  rw [h.capacity, hj.counts, ← Nat.add_mul, Nat.add_sub_of_le hle]

theorem advance_returns {p q : List Nat} (hw : fs.writable) (h : j.At fs sel r (p ++ c :: q) t)
    (hwant : p.length + 1 < j.want) (hj : j.Roomy fs) :
    Returns (advanceOrAllocateCluster fs (clusterBytesOf fs) c) t := by
  have hm := h.grown.volume.geometry
  have hc : InData fs c := h.inData (by simp)
  have harm : t.dev.armed = none := h.armed.trans hj.armed
  unfold advanceOrAllocateCluster
  refine wp_guard (fun h2 => absurd hc.ge (by omega)) fun _ => ?_
  refine (readFatEntry_spec _ _ hm hc (next_ne_bad h.grown.chain (fun y hy => h.inData hy) (by simp))).onDev_bind
    (fun v d₁ h₁ a₁ hv => ?_) fun d₁ _ hst => ?_
  swap
  · rw [harm] at hst
    exact not_stopped hst
  have htail := h.grown.chain.suffix.tail
  rw [← hv] at htail
  rcases q with _ | ⟨c', q'⟩
  · -- the end of the chain
    have heoc := htail.stop_of_nil
    have hv' : clusterIsEoc v = true := decide_eq_true heoc
    simp only [hv', if_true]
    have hcap := h.counts hj
    have hroom := Nat.mul_le_mul_right (clusterBytesOf fs) (show p.length + 2 ≤ j.want by omega)
    have hbound := hj.bound
    rw [List.length_append, List.length_singleton, Nat.add_mul, Nat.one_mul] at hcap
    rw [Nat.add_mul] at hroom
    refine wp_bind.mpr (wp_get.mpr (wp_guard (fun hg => ?_) fun _ => ?_))
    · show False
      simp only at hg
      omega
    · have hfree := h.free
      rw [List.length_append, List.length_singleton] at hfree
      obtain ⟨n, hn⟩ : ∃ n, j.want - (p.length + 1) = n + 1 := ⟨j.want - (p.length + 1) - 1, by omega⟩
      rw [hn, ← h₁] at hfree
      have hroomy := h.roomy hj
      rw [← h₁] at hroomy
      have hlast : Eoc (nextOf fs d₁.disk c) := by
        rw [h₁, ← hv]
        exact heoc
      rw [wp_onDev_bind]
      refine Wp.mono (allocateNext_returns hm hw hc hlast hroomy hfree (a₁.trans harm)) ?_ fun _ _ h => h
      intro b d₂ _
      exact trivial
  · -- the next cluster of the chain
    obtain rfl := htail.head_eq
    have hc' : InData fs v := h.inData (by simp)
    simp only [hc'.clusterIsEoc, Bool.false_eq_true, if_false]
    rw [if_neg (by have := hc'.ge; omega)]
    exact trivial

theorem writeSkip_returns {p q : List Nat} {skip fuel : Nat} (hw : fs.writable)
    (h : j.At fs sel r (p ++ c :: q) t) (hj : j.Roomy fs)
    (hneed : p.length * clusterBytesOf fs + skip < j.want * clusterBytesOf fs)
    (hfuel : j.want ≤ p.length + fuel) : Returns (writeSkip fs fuel skip c) t := by
  have hlt : p.length < j.want := Nat.lt_of_mul_lt_mul_right (a := clusterBytesOf fs) (by omega)
  induction fuel generalizing p q c skip t with
  | zero => omega
  | succ fuel ih =>
    unfold writeSkip
    refine wp_ite (fun hge => ?_) fun _ => trivial
    have hwant : p.length + 1 < j.want := by
      refine Nat.lt_of_mul_lt_mul_right (a := clusterBytesOf fs) ?_
      rw [Nat.add_mul, Nat.one_mul]
      omega
    refine (advance_returns hw h hwant hj).bind (advance_spec hw h hwant) fun c' t₁ h => ?_
    obtain ⟨q', h₁, -, -⟩ := h
    have e : p ++ c :: (c' :: q') = (p ++ [c]) ++ c' :: q' := by simp
    have hlen : (p ++ [c]).length = p.length + 1 := by simp
    rw [e] at h₁
    refine ih h₁ ?_ (by rw [hlen]; omega) (by rw [hlen]; exact hwant)
    rw [hlen, Nat.add_mul, Nat.one_mul]
    omega

theorem writeCluster_returns {p q : List Nat} {skip : Nat} {rest : List UInt8} (hw : fs.writable)
    (h : j.At fs sel r (p ++ c :: q) t) (hj : j.Roomy fs) :
    Returns (writeSectors fs c (List.range fs.sectorsPerCluster) skip rest) t.dev := by
  have hc : InData fs c := h.inData (by simp)
  refine Returns.of_wp (writeSectors_spec h.grown.volume.geometry hw hc (fun i hi => List.mem_range.mp hi)
    List.nodup_range) fun e d' hfail => ?_
  rw [h.armed, hj.armed] at hfail
  exact not_stopped hfail.2.2

theorem writeLoop_returns {p q : List Nat} {skip fuel : Nat} {rest : List UInt8} (hw : fs.writable)
    (h : j.At fs sel r (p ++ c :: q) t) (hj : j.Roomy fs)
    (hneed : p.length * clusterBytesOf fs + skip + rest.length ≤ j.want * clusterBytesOf fs)
    (hlt : p.length < j.want) (hfuel : j.want ≤ p.length + fuel) : Returns (writeLoop fs fuel skip rest c) t := by
  induction fuel generalizing p q c skip rest t with
  | zero => omega
  | succ fuel ih =>
    have hc : InData fs c := h.inData (by simp)
    unfold writeLoop
    refine wp_ite (fun _ => trivial) fun hrest => ?_
    rw [if_neg (by rw [hc.clusterIsEoc]; have := hc.ge; simp; omega), wp_onDev_bind]
    refine Wp.mono ((writeCluster_returns hw h hj).and (writeCluster_spec hw h)) ?_ fun _ _ h => h.1
    intro rest' d₁ h
    obtain ⟨-, hr', h₁, -, -⟩ := h
    refine wp_ite (fun _ => trivial) fun h0 => ?_
    have hlen' : rest'.length = rest.length - (clusterBytesOf fs - skip) := by rw [hr', List.length_drop]
    have hpos := List.length_pos_iff.mpr h0
    have hwant : p.length + 1 < j.want := by
      refine Nat.lt_of_mul_lt_mul_right (a := clusterBytesOf fs) ?_
      rw [Nat.add_mul, Nat.one_mul]
      omega
    refine (advance_returns hw h₁ hwant hj).bind (advance_spec hw h₁ hwant) fun c' t₂ h => ?_
    obtain ⟨q', h₂, -, -⟩ := h
    have e : p ++ c :: (c' :: q') = (p ++ [c]) ++ c' :: q' := by simp
    have hlen : (p ++ [c]).length = p.length + 1 := by simp
    rw [e] at h₂
    refine ih h₂ ?_ (by rw [hlen]; exact hwant) (by rw [hlen]; omega)
    rw [hlen, Nat.add_mul, Nat.one_mul]
    omega

theorem updateSize_returns {use : SlotUse} {v : Nat} (hm : fs.mounted) (hw : fs.writable)
    (hlt : t.file.slot.lba < fs.totalSectors) (hd : t.dev.armed = none) : Returns (updateSize fs use v) t := by
  refine Returns.of_wp (updateSize_spec hm hw hlt) fun e t' hfail => ?_
  rw [hd] at hfail
  exact not_stopped hfail.2.2.2

/-! ## The call -/

/-- The write of `n` bytes in all finds room, on a reliable disk. -/
structure HasRoom (fs : Fat32Fs) (t : OpenFile) (l : List Nat) (n : Nat) : Prop where
  writable : fs.writable = true
  reliable : t.dev.fault = none
  roomy : Roomy fs t.dev.disk
  counts : t.file.capacity = l.length * clusterBytesOf fs
  free : FreeClusters fs t.dev.disk (clustersFor fs n - l.length)
  bound : clustersFor fs n * clusterBytesOf fs ≤ 0xffffffff

theorem body_returns {off : Nat} {buf : List UInt8} (hbuf : buf ≠ []) (hv : Volume fs sel r t.dev.disk)
    (hcur : Current fs sel r t.dev.disk t.file) (hc : FileChain fs t.dev.disk t.file.slot l)
    (h2 : 2 ≤ t.file.firstCluster) (hroom : HasRoom fs t l (off + buf.length)) :
    Returns (do
      let (skip, cluster) ← writeSkip fs walkFuel off t.file.firstCluster
      writeLoop fs walkFuel skip buf cluster
      updateSize fs .size ((off + buf.length) % 2 ^ 32)
      return buf.length) t := by
  have hw := hroom.writable
  have hm := hv.geometry
  have hnone : t.dev.armed = none := fault_none.mpr hroom.reliable
  obtain ⟨q, -, hat⟩ := hcur.job_at hv hc h2 hroom.free
  generalize hjob : (⟨t.file.slot, l, t.dev.disk, t.file, clustersFor fs (off + buf.length), t.dev.armed⟩ : Job) = j
    at hat
  have hwant : j.want = clustersFor fs (off + buf.length) := by rw [← hjob]
  have hj : j.Roomy fs := by
    rw [← hjob]
    exact ⟨hroom.roomy, hroom.counts, hroom.bound, hnone⟩
  have hfuel : j.want ≤ walkFuel := by
    have hpos := clusterBytesOf_pos hm
    have hle := hj.bound
    have := Nat.le_mul_of_pos_right j.want hpos
    unfold walkFuel
    omega
  have hpos := List.length_pos_iff.mpr hbuf
  have hle := le_clustersFor hm (off + buf.length)
  have hskip : ([] : List Nat).length * clusterBytesOf fs + off < j.want * clusterBytesOf fs := by
    rw [List.length_nil, Nat.zero_mul, hwant]
    omega
  have hat : j.At fs sel r ([] ++ t.file.firstCluster :: q) t := hat
  refine (writeSkip_returns hw hat hj hskip (by rw [List.length_nil]; omega)).bind
    (writeSkip_spec hw hat hskip (by rw [List.length_nil]; omega)) fun res t₂ h => ?_
  obtain ⟨p, q', hat₂, -, hposn, hlt, -⟩ := h
  rw [List.length_nil, Nat.zero_mul, Nat.zero_add] at hposn
  have hneed : p.length * clusterBytesOf fs + res.1 + buf.length ≤ j.want * clusterBytesOf fs := by
    rw [hposn, hwant]
    exact hle
  have hplt : p.length < j.want := Nat.lt_of_mul_lt_mul_right (a := clusterBytesOf fs) (by omega)
  refine (writeLoop_returns hw hat₂ hj hneed hplt (by omega)).bind
    (writeLoop_spec hw hat₂ hlt hbuf hneed (by omega)) fun _ t₃ h => ?_
  obtain ⟨l', hat₃, -, -, -⟩ := h
  have hslot : t₃.file.slot = t.file.slot := by
    rw [hat₃.file, ← hjob]
    rfl
  have hsec : t₃.file.slot.lba < fs.totalSectors := by
    rw [hslot]
    exact hat₃.grown.volume.slot_lt hcur.mem
  refine (updateSize_returns hm.mounted hw hsec (hat₃.armed.trans hj.armed)).bind
    (updateSize_spec hm.mounted hw hsec) fun _ _ _ => ?_
  exact trivial

theorem bootstrapHead_returns {n k : Nat} (hroom : HasRoom fs t l k) (hv : Volume fs sel r t.dev.disk)
    (hcur : Current fs sel r t.dev.disk t.file) (hfree : FreeClusters fs t.dev.disk (n + 1)) :
    Returns (bootstrapHead fs) t := by
  have hw := hroom.writable
  have hm := hv.geometry
  have hnone : t.dev.armed = none := fault_none.mpr hroom.reliable
  unfold bootstrapHead
  rw [Returns, wp_onDev_bind]
  refine Wp.mono ((allocateHead_returns hm hw hroom.roomy hfree hnone).and (allocateHead_spec hm hw hfree.findsOwn)) ?_
    fun _ _ h => h.1
  intro b d₁ h
  have ha : d₁.armed = none := h.2.2.2.trans hnone
  refine wp_bind.mpr (wp_modify.mpr (wp_bind.mpr (wp_get.mpr ?_)))
  refine wp_onPart.mpr (Wp.mono (patchSlot_spec hm.mounted hw (hv.slot_lt hcur.mem)) (fun _ _ _ => trivial) ?_)
  intro e d₂ h
  have hst := h.2.2
  rw [show ({ t with dev := d₁ } : OpenFile).dev.armed = d₁.armed from rfl, ha] at hst
  exact not_stopped hst

/-- A write with room, through a current handle of a file that is not shorter than its chain, returns. -/
theorem write_returns {off : Nat} {buf : List UInt8} (hv : Volume fs sel r t.dev.disk)
    (hcur : Current fs sel r t.dev.disk t.file) (hc : FileChain fs t.dev.disk t.file.slot l)
    (hlong : t.file.size ≤ l.length * clusterBytesOf fs) (hoff : off ≤ t.file.size)
    (hroom : HasRoom fs t l (off + buf.length)) : Returns (fat32Write fs off buf) t := by
  have hw := hroom.writable
  have hm := hv.geometry
  have hs := hcur.mem
  have hnone : t.dev.armed = none := fault_none.mpr hroom.reliable
  have hsec : t.file.slot.lba < fs.totalSectors := hv.slot_lt hs
  have hofs : t.file.slot.offset + 32 ≤ 512 := offset_le hs
  unfold fat32Write
  refine wp_bind.mpr (wp_get.mpr (wp_guard (fun hg => ?_) fun _ => ?_))
  · -- nothing is refused
    have hmounted := hm.mounted
    have hcap := hroom.counts
    simp only [hmounted, hw, Bool.true_eq_false, false_or] at hg
    have hlba : t.file.dirLba < fs.totalSectors := hsec
    have hdir : t.file.dirOffset + 32 ≤ 512 := hofs
    omega
  refine wp_ite (fun _ => ?_) fun hbuf => ?_
  · exact (updateSize_returns hm.mounted hw hsec hnone).bind (updateSize_spec hm.mounted hw hsec) fun _ _ _ => trivial
  · by_cases h2 : t.file.firstCluster < 2
    · -- the first cluster
      have hlnil : l = [] := by
        rcases hc with ⟨h, -⟩ | ⟨-, h⟩
        · rw [← hcur.first] at h
          omega
        · exact h
      subst hlnil
      have hone : 1 ≤ clustersFor fs (off + buf.length) := by
        have hpos := List.length_pos_iff.mpr hbuf
        refine Nat.pos_of_mul_pos_right (b := clusterBytesOf fs) ?_
        have := le_clustersFor hm (off + buf.length)
        omega
      obtain ⟨n, hn⟩ : ∃ n, clustersFor fs (off + buf.length) = n + 1 := ⟨_, (Nat.sub_add_cancel hone).symm⟩
      have hfree := hroom.free
      rw [List.length_nil, Nat.sub_zero, hn] at hfree
      rw [if_pos h2]
      refine (bootstrapHead_returns hroom hv hcur hfree).bind
        (bootstrapHead_spec (clustersFor fs (off + buf.length)) hw hv hcur hc h2 hfree.findsOwn) fun _ t₁ h => ?_
      obtain ⟨b, ht, hcur₁, hslot, hb2, hcap, hfree₁, -, harm, -⟩ := h
      refine wp_bind.mpr (wp_get.mpr (body_returns hbuf ht.volume hcur₁ (by rw [hslot]; exact ht.chain) hb2 ?_))
      refine ⟨hw, fault_none.mp (harm.trans hnone), ⟨hroom.roomy.fat, fun x hx => ?_⟩, ?_, ?_, hroom.bound⟩
      · by_cases hmem : x ∈ [b]
        · rcases ht.chain with ⟨-, hch⟩ | ⟨-, hnil⟩
          · exact next_ne_bad hch ht.inData hmem
          · cases hnil
        · rw [ht.next x hx hmem]
          exact hroom.roomy.good x hx
      · rw [hcap, List.length_singleton, Nat.one_mul]
      · rw [hn]
        exact hfree₁ n hfree
    · rw [if_neg h2]
      exact body_returns hbuf hv hcur hc (by omega) hroom

end Armonios
