import Armonios.Vfs.Effect

/-!
# Handles that agree with the disk

A mounted FAT file has a handle with a copy of its directory entry and of the length of its chain.
`FreshHandle`: the copy is what `fat32_open_root` would fill in now. A write through a fresh handle
does what it should and leaves the handle fresh (`freshWrite`); it does not touch the other handles.
-/

namespace Armonios

variable {τ ρ : Type} {fs : Fat32Fs} {r : List Nat}

/-- The handle of a live file, as `fat32_open_root` would fill it now. -/
structure FreshHandle (fs : Fat32Fs) (r : List Nat) (disk : Nat → Sector) (file : Fat32File)
    (l : List Nat) : Prop where
  mem : file.slot ∈ slotsOf fs r
  live : LiveFile disk file.slot
  chain : FileChain fs disk file.slot l
  agrees : file = handleOf fs disk file.slot l

/-- A call finds the free clusters that it needs, and a file is mounted under a path of its name. -/
def Supplied (fs : Fat32Fs) (r : List Nat) (v : FatVfs τ ρ) (op : VfsOp) : Prop :=
  match op with
  | .openFlags path flags => ∀ name, vfsFat32RootName path = some name → vfsFind v.nodes path = none →
      flags &&& vfsOCreat ≠ 0 → CreateAllocates fs r v.world.dev name → FreeClusters fs v.world.dev.disk 1
  | .mountFile path name => ∃ n, vfsFat32RootName path = some n ∧ makeShortName n = makeShortName name
  | op => ∀ i off buf file l, op.fatWrite v = some (i, off, buf) → v.world.files[i]? = some file →
      FreshHandle fs r v.world.dev.disk file l →
      FreeClusters fs v.world.dev.disk (clustersFor fs (off + buf.length) - l.length)

theorem FreshHandle.current {disk : Nat → Sector} {file : Fat32File} {l : List Nat}
    (h : FreshHandle fs r disk file l) (ht : Tidy fs r disk) : Current fs allLive r disk file := by
  have hb := (ht.fits _ h.mem h.live l h.chain).2
  refine ⟨h.mem, h.live.1, rfl, ?_, ?_, ?_⟩
  · rw [h.agrees]
    rfl
  · rw [h.agrees]
    rfl
  · rw [h.agrees]
    exact hb

theorem FreshHandle.capacity {disk : Nat → Sector} {file : Fat32File} {l : List Nat}
    (h : FreshHandle fs r disk file l) : file.capacity = l.length * clusterBytesOf fs := by
  rw [h.agrees]
  rfl

theorem FreshHandle.size {disk : Nat → Sector} {file : Fat32File} {l : List Nat}
    (h : FreshHandle fs r disk file l) : file.size = slotSize disk file.slot := by
  rw [h.agrees]
  rfl

/-- A handle that agrees with its entry and counts its chain is fresh. -/
theorem FreshHandle.of_current {disk : Nat → Sector} {file : Fat32File} {l : List Nat}
    (hcur : Current fs allLive r disk file) (hl : LiveFile disk file.slot)
    (hc : FileChain fs disk file.slot l) (hcap : file.capacity = l.length * clusterBytesOf fs) :
    FreshHandle fs r disk file l := by
  refine ⟨hcur.mem, hl, hc, ?_⟩
  have h1 := hcur.first
  have h2 := hcur.size
  unfold handleOf
  rw [← h1, ← h2, ← hcap]
  rfl

/-- The outcome of a write through a fresh handle: the handle is fresh again, the volume well-formed
and tidy. -/
structure FreshWrite (fs : Fat32Fs) (r : List Nat) (off : Nat) (buf : List UInt8) (t : OpenFile)
    (l : List Nat) (ok : Bool) (t' : OpenFile) (l' : List Nat) : Prop where
  fat : FatOk fs r t'.dev
  fresh : FreshHandle fs r t'.dev.disk t'.file l'
  slot : t'.file.slot = t.file.slot
  touched : Touched fs allLive r t.file.slot l t.dev.disk l' t'.dev.disk
  needed : l'.length ≤ max l.length (clustersFor fs (off + buf.length))
  done : ok = true → off ≤ t.file.size ∧ t'.file.size = off + buf.length ∧
    (chainBytes fs t'.dev.disk l').take (off + buf.length) = (chainBytes fs t.dev.disk l).take off ++ buf
  undone : ok = false → t'.file.size = t.file.size

theorem freshWrite {t t' : OpenFile} {l : List Nat} {off : Nat} {buf : List UInt8} {ok : Bool}
    (hok : FatOk fs r t.dev) (hf : FreshHandle fs r t.dev.disk t.file l)
    (hfree : FreeClusters fs t.dev.disk (clustersFor fs (off + buf.length) - l.length))
    (hran : Ran (fat32Write fs off buf) t ok t') : ∃ l', FreshWrite fs r off buf t l ok t' l' := by
  have hspec := write_reliable off buf hok.volume hok.reliable (hf.current hok.tidy) hf.chain
    fun _ _ _ => hfree
  have hlong := (hok.tidy.fits _ hf.mem hf.live l hf.chain).1
  rcases hran with ⟨rfl, n, hres⟩ | ⟨rfl, e, hres⟩
  · obtain ⟨hd, -, hoff, l', hwr⟩ := hspec.of_ok hres
    have ht := hwr.touched
    have hcap := hwr.capacity hf.capacity
    have hoff' : off ≤ l.length * clusterBytesOf fs := hoff.trans (by rw [hf.size]; exact hlong)
    have hfits := hwr.fits hoff'
    have hbound := hwr.current.bound
    have hsize : t'.file.size = off + buf.length := by
      rw [hwr.size, Nat.mod_eq_of_lt (by omega)]
    have hlive : LiveFile t'.dev.disk t'.file.slot := by
      rw [hwr.slot]
      exact ⟨ht.live.mpr hf.live.1, by rw [ht.attr]; exact hf.live.2⟩
    have hchain : FileChain fs t'.dev.disk t'.file.slot l' := by rw [hwr.slot]; exact ht.chain
    have hslotSize : slotSize t'.dev.disk t.file.slot = off + buf.length := by
      rw [← hsize, hwr.current.size, hwr.slot]
    have hstart : slotSize t'.dev.disk t.file.slot = 0 ∨ 2 ≤ slotFirst t'.dev.disk t.file.slot := by
      rcases ht.chain with ⟨h2, -⟩ | ⟨-, rfl⟩
      · exact .inr h2
      · simp only [List.length_nil, Nat.zero_mul] at hfits
        exact .inl (by omega)
    have htidy := hok.tidy.touched hok.volume hf.mem hf.live hf.chain ht hstart (by omega) (by omega)
    exact ⟨l', ⟨ht.volume, htidy, hd⟩, .of_current hwr.current hlive hchain hcap, hwr.slot, ht, hwr.needed,
      fun _ => ⟨hoff, hsize, hwr.contents hoff'⟩, by simp⟩
  · obtain ⟨hd, -, l', hwr⟩ := hspec.of_error hres
    have ht := hwr.touched
    have hcap := hwr.capacity hf.capacity
    have hbound := hwr.current.bound
    have hlive : LiveFile t'.dev.disk t'.file.slot := by
      rw [hwr.slot]
      exact ⟨ht.live.mpr hf.live.1, by rw [ht.attr]; exact hf.live.2⟩
    have hchain : FileChain fs t'.dev.disk t'.file.slot l' := by rw [hwr.slot]; exact ht.chain
    have hgrow := Nat.mul_le_mul_right (clusterBytesOf fs) ht.grows.length_le
    have hstart : slotSize t'.dev.disk t.file.slot = 0 ∨ 2 ≤ slotFirst t'.dev.disk t.file.slot := by
      rcases ht.chain with ⟨h2, -⟩ | ⟨-, rfl⟩
      · exact .inr h2
      · simp only [List.length_nil, Nat.zero_mul] at hgrow
        exact .inl (by rw [hwr.size]; omega)
    have htidy := hok.tidy.touched hok.volume hf.mem hf.live hf.chain ht hstart
      (by rw [hwr.size]; omega) (by omega)
    have hsize : t'.file.size = t.file.size := by
      rw [hwr.current.size, hwr.slot, hwr.size, hf.size]
    exact ⟨l', ⟨ht.volume, htidy, hd⟩, .of_current hwr.current hlive hchain hcap, hwr.slot, ht, hwr.needed,
      by simp, fun _ => hsize⟩

/-- A write changes no name. -/
theorem Touched.hit {s t : Slot} {l l' : List Nat} {disk disk' : Nat → Sector} {w : List UInt8}
    (h : Touched fs allLive r s l disk l' disk') (ht : t ∈ slotsOf fs r) : Hit w disk' t ↔ Hit w disk t := by
  by_cases hts : t = s
  · subst hts
    unfold Hit
    rw [h.live, h.attr, h.name]
  · exact (h.others t ht hts).hit

/-! ## Other handles -/

theorem FreshHandle.of_fields {disk disk' : Nat → Sector} {file : Fat32File} {l : List Nat}
    (h : FreshHandle fs r disk file l) (hlive : LiveFile disk' file.slot)
    (hfirst : slotFirst disk' file.slot = slotFirst disk file.slot)
    (hsize : slotSize disk' file.slot = slotSize disk file.slot) (hc : FileChain fs disk' file.slot l) :
    FreshHandle fs r disk' file l := by
  refine ⟨h.mem, hlive, hc, ?_⟩
  have hsame : handleOf fs disk' file.slot l = handleOf fs disk file.slot l := by
    unfold handleOf
    rw [hfirst, hsize]
  rw [hsame]
  exact h.agrees

theorem clustersFor_le (hm : Mounted fs) {n k : Nat} (h : n ≤ k * clusterBytesOf fs) :
    clustersFor fs n ≤ k := by
  have hpos := clusterBytesOf_pos hm
  have hlt : (n + clusterBytesOf fs - 1) / clusterBytesOf fs < k + 1 := by
    rw [Nat.div_lt_iff_lt_mul hpos, Nat.add_mul, Nat.one_mul]
    omega
  exact Nat.le_of_lt_succ hlt

/-- A write behind the end of the file is refused at once. -/
theorem write_behind {t t' : OpenFile} {off : Nat} {buf : List UInt8} {ok : Bool} (h : t.file.size < off)
    (hran : Ran (fat32Write fs off buf) t ok t') : t' = t := by
  have hspec : Wp (fat32Write fs off buf) t (fun _ _ => False) fun _ t' => t' = t := by
    unfold fat32Write
    exact wp_bind.mpr (wp_get.mpr (wp_guard (fun _ => rfl) fun hno => absurd (.inr (.inr (.inl h))) hno))
  rcases hran with ⟨-, n, hres⟩ | ⟨-, e, hres⟩
  · exact (hspec.of_ok hres).elim
  · exact hspec.of_error hres

/-- The file has kept its size and its chain, so its other handles are as fresh as before. -/
theorem FreshWrite.same_chain {t t' : OpenFile} {l l' : List Nat} {off : Nat} {buf : List UInt8} {ok : Bool}
    (hfw : FreshWrite fs r off buf t l ok t' l') (hok : FatOk fs r t.dev)
    (hf : FreshHandle fs r t.dev.disk t.file l) (hend : off + buf.length = t.file.size) :
    l' = l ∧ slotFirst t'.dev.disk t.file.slot = slotFirst t.dev.disk t.file.slot ∧
      slotSize t'.dev.disk t.file.slot = slotSize t.dev.disk t.file.slot := by
  have hlong := (hok.tidy.fits _ hf.mem hf.live l hf.chain).1
  have hneed := hfw.needed
  rw [hend, hf.size, max_eq_left (clustersFor_le hok.volume.geometry hlong)] at hneed
  have hl : l' = l := (hfw.touched.grows.eq_of_length_le hneed).symm
  subst hl
  refine ⟨rfl, ?_, ?_⟩
  · rcases hfw.touched.chain with ⟨h2, hc⟩ | ⟨-, hnil⟩
    · rcases hf.chain with ⟨-, hc'⟩ | ⟨-, hnil⟩
      · obtain ⟨q, rfl⟩ := hc.eq_cons (hfw.fat.volume.family.start
          (heads_of_file allLive_selectsFiles hf.mem (hfw.touched.live.mpr hf.live.1)
            (by rw [hfw.touched.attr]; exact hf.live.2) h2))
        exact hc'.head_eq.symm
      · exact hfw.touched.empty hnil
    · exact hfw.touched.empty hnil
  · have hsize : t'.file.size = t.file.size := by
      cases ok with
      | true => rw [(hfw.done rfl).2.1, hend]
      | false => exact hfw.undone rfl
    rw [← hf.size, ← hsize, hfw.fresh.size, hfw.slot]

/-- A handle of another file, or of the same file where the write ends at its end, stays fresh. -/
theorem FreshWrite.other {t t' : OpenFile} {l l' m : List Nat} {off : Nat} {buf : List UInt8} {ok : Bool}
    {file : Fat32File} (hfw : FreshWrite fs r off buf t l ok t' l') (hok : FatOk fs r t.dev)
    (hf : FreshHandle fs r t.dev.disk t.file l) (hm : FreshHandle fs r t.dev.disk file m)
    (hcond : file.slot ≠ t.file.slot ∨ off + buf.length = t.file.size) :
    FreshHandle fs r t'.dev.disk file m := by
  have ht := hfw.touched
  by_cases hne : file.slot = t.file.slot
  · obtain ⟨rfl, hfirst, hsize⟩ := hfw.same_chain hok hf (hcond.resolve_left fun h => h hne)
    have hchain := hm.chain
    rw [hne] at hchain
    obtain rfl := hf.chain.unique hchain
    refine hm.of_fields ?_ (by rw [hne]; exact hfirst) (by rw [hne]; exact hsize) (by rw [hne]; exact ht.chain)
    rw [hne]
    exact ⟨ht.live.mpr hf.live.1, by rw [ht.attr]; exact hf.live.2⟩
  · have hsame := ht.others file.slot hm.mem hne
    exact hm.of_fields (hsame.liveFile.mpr hm.live) hsame.first hsame.size
      (ht.other_file hok.volume hf.mem hf.live.1 rfl hf.chain hm.mem hne hm.live.1 rfl hm.chain).1

/-! ## The small volume in the VFS -/

/-- No other filesystem. -/
def noOther : Callbacks Unit Unit where
  read _ _ _ := throw .fail
  write _ _ _ := throw .fail
  stat _ := throw .fail

/-- The VFS over the small volume before any call. -/
def sampleVfs : FatVfs Unit Unit := vfsReset ⟨[], ⟨sampleDisk, none⟩, ()⟩

/-- The path `/fat/a`. -/
def samplePath : Path := fatRoot ++ [97]

theorem sample_tidy : Tidy sampleFs [2] sampleDisk := by
  have hall : ∀ s ∈ slotsOf sampleFs [2], Live sampleDisk s → s = ⟨3, 0⟩ := by decide
  have hc := sample_openable.chain
  refine ⟨fun s hs hl => ?_, fun s hs hl => ?_, fun s hs hl l hlc => ?_⟩ <;> obtain rfl := hall s hs hl.1
  · decide
  · exact .inr (by decide)
  · rw [hc.unique hlc]
    decide

theorem sample_fatOk : FatOk sampleFs [2] sampleVfs.world.dev := ⟨sample_volume allLive, sample_tidy, rfl⟩

end Armonios
