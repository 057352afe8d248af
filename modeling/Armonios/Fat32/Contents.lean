import Armonios.Fat32.WriteCall

/-!
# Writing a file and reading it back

A successful `fat32_write` of a buffer at an offset leaves the file with the old contents up to the
offset and then the buffer; a write truncates at its end. The entry and the contents of every other
file are as before.

* `fat32Write_then_read`: through `fat32_open_root` and `fat32_read`.
-/

namespace Armonios

variable {fs : Fat32Fs} {sel : UInt8 → Bool} {r : List Nat} {s : Slot} {disk disk' : Nat → Sector}
  {l l' m : List Nat} {d d' : Dev} {name : List UInt8}

/-- Opening on a reliable disk finds exactly the entry that is openable. -/
theorem openRoot_returns (hv : Volume fs sel r d.disk) (hsel : SelectsFiles sel) (hd : d.fault = none)
    (ho : Openable fs r d.disk name s l) : fat32OpenRoot fs name d = .ok (handleOf fs d.disk s l) d := by
  obtain ⟨file, hf, s', l', ho', -, rfl⟩ :=
    ((openRoot_spec hv hsel name).not_refused fun h => h ⟨s, l, ho⟩).returns hd
  obtain ⟨rfl, rfl⟩ := ho.unique ho'
  exact hf

/-- What opening returned. -/
theorem openRoot_ok (hv : Volume fs sel r d.disk) (hsel : SelectsFiles sel) (hd : d.fault = none)
    {file : Fat32File} (h : fat32OpenRoot fs name d = .ok file d') :
    d' = d ∧ ∃ s l, Openable fs r d.disk name s l ∧ (∀ x ∈ l, InData fs x) ∧
      file = handleOf fs d.disk s l := by
  obtain ⟨-, -, s, l, ho, hl, hf⟩ := (openRoot_spec hv hsel name).of_ok h
  rw [openRoot_returns hv hsel hd ho] at h
  cases h
  exact ⟨rfl, s, l, ho, hl, hf⟩

/-- Reading on a reliable disk through a handle that has the first cluster and the size of an entry
with a chain long enough. -/
theorem read_returns {file : Fat32File} {o cap : Nat} (hm : Mounted fs) (hd : d.fault = none)
    (hfirst : file.firstCluster = slotFirst d.disk s) (hsize : file.size = slotSize d.disk s)
    (hc : FileChain fs d.disk s l) (hl : ∀ x ∈ l, InData fs x)
    (hlong : slotSize d.disk s ≤ l.length * clusterBytesOf fs) (ho : o ≤ slotSize d.disk s) :
    fat32Read fs file o cap d = .ok (((fileBytes fs d.disk s l).drop o).take cap) d := by
  have hspec : ReadsTo (fat32Read fs file o cap) readSites (file.size < o) d
      (fun bs => bs = (((chainBytes fs d.disk l).take file.size).drop o).take cap) := by
    refine read_spec hm (l := l) (fun h2 => ?_) (fun h2 => ?_) hl (by rw [hsize]; exact hlong) <;>
      rw [hfirst] at h2 <;> rcases hc with ⟨h2', hc⟩ | ⟨h2', hc⟩
    · rw [hfirst]
      exact hc
    · omega
    · omega
    · exact hc
  obtain ⟨bs, hbs, rfl⟩ := (hspec.not_refused (by omega)).returns hd
  rw [hbs, hsize]
  rfl

/-- Another file keeps its chain and its bytes while the file of `s` is written. -/
theorem Touched.other_file {u : Slot} (h : Touched fs sel r s l disk l' disk')
    (hv : Volume fs sel r disk) (hs : s ∈ slotsOf fs r) (hlive : Live disk s)
    (hsel : sel (entryAttr (disk s.lba) s.offset) = true) (hl : FileChain fs disk s l)
    (hu : u ∈ slotsOf fs r) (hus : u ≠ s) (hulive : Live disk u)
    (husel : sel (entryAttr (disk u.lba) u.offset) = true) (hm : FileChain fs disk u m) :
    FileChain fs disk' u m ∧ fileBytes fs disk' u m = fileBytes fs disk u m := by
  have hsame := h.others u hu hus
  rcases hm with ⟨h2, hm⟩ | ⟨h2, rfl⟩
  · have hhu : heads fs sel r disk (some u) = some (slotFirst disk u) :=
      heads_some.mpr ⟨hu, hulive, husel, h2, rfl⟩
    have hmd : ∀ x ∈ m, InData fs x := fun x hx => hv.family.ok_of_mem hhu hm hx
    -- a cluster of the other chain is not on the written one, old or new
    have hapart : ∀ x ∈ m, x ∉ l' := by
      intro x hx hxl'
      by_cases hxl : x ∈ l
      · rcases hl with ⟨h2', hl⟩ | ⟨-, rfl⟩
        · exact hv.family.disj (i := some u) (by simpa using hus) hhu
            (heads_some.mpr ⟨hs, hlive, hsel, h2', rfl⟩) hm hl x hx hxl
        · cases hxl
      · exact hv.fresh_of_free (h.fresh x hxl' hxl) _ _ _ hhu hm hx
    refine ⟨.inl ⟨by rw [hsame.first]; exact h2, ?_⟩, ?_⟩
    · rw [hsame.first]
      exact hm.congr fun y hy => h.next y (hmd y hy) (hapart y hy)
    · have hbytes : chainBytes fs disk' m = chainBytes fs disk m := by
        refine lbaBytes_congr fun lba hlba => h.data lba (dataBase_le_of_mem hlba) ?_ fun he => ?_
        · exact chainLbas_disjoint hmd h.inData hapart hlba
        · exact hv.root_disjoint hhu hm hlba (by rw [he]; exact (mem_slotsOf.mp hs).1)
      unfold fileBytes
      rw [hbytes, hsame.size]
  · refine ⟨.inr ⟨by rw [hsame.first]; exact h2, rfl⟩, ?_⟩
    simp [fileBytes, chainBytes, chainLbas, lbaBytes]

theorem Current.of_openable (ho : Openable fs r disk name s l) (hsel : SelectsFiles sel) :
    Current fs sel r disk (handleOf fs disk s l) :=
  ⟨ho.mem, ho.live, hsel _ ho.isFile, rfl, rfl, ho.fits⟩

theorem isFile_selectsFiles : SelectsFiles isFile := fun _ h => h

/-- The name of a written file still finds it. -/
theorem Touched.openable (h : Touched fs sel r s l disk l' disk') (ho : Openable fs r disk name s l)
    (hstart : slotSize disk' s = 0 ∨ 2 ≤ slotFirst disk' s)
    (hfits : l'.length * clusterBytesOf fs ≤ 0xffffffff) : Openable fs r disk' name s l' := by
  obtain ⟨w, hw, hf⟩ := ho.found
  refine ⟨⟨w, hw, ?_⟩, h.chain, hstart, hfits⟩
  rw [← hf]
  refine findEntry_congr fun u hu => ?_
  by_cases hus : u = s
  · subst hus
    exact ⟨h.mark, h.attr, h.name⟩
  · exact ⟨(h.others u hu hus).mark, (h.others u hu hus).attr, (h.others u hu hus).name⟩

/-- A file with the contents `(chainBytes ...).take size`, opened, written at `off ≤ size` and opened
again: every read returns the slice of `take off old ++ buf` that was asked for, and no other file
has changed. The volume's root directory and files have disjoint chains in the data area, the disk is
reliable, and there are free clusters for the part of the write that the chain `l` does not hold. -/
theorem fat32Write_then_read {file file' : Fat32File} {d₁ d₂ : Dev} {off n : Nat} {buf : List UInt8}
    (hv : Volume fs isFile r d.disk) (hd : d.fault = none)
    (hopen : fat32OpenRoot fs name d = .ok file d₁)
    (hchain : FileChain fs d.disk file.slot l)
    (hlong : file.size ≤ l.length * clusterBytesOf fs) (hoff : off ≤ file.size)
    (hfree : FreeClusters fs d.disk (clustersFor fs (off + buf.length) - l.length))
    (hwrite : fat32Write fs off buf ⟨file, d₁⟩ = .ok n ⟨file', d₂⟩) :
    (∃ file'', fat32OpenRoot fs name d₂ = .ok file'' d₂ ∧ file''.slot = file.slot ∧
      file''.size = off + buf.length ∧
      ∀ o cap, o ≤ file''.size → fat32Read fs file'' o cap d₂ =
        .ok ((((fileBytes fs d.disk file.slot l).take off ++ buf).drop o).take cap) d₂) ∧
    ∀ s ∈ slotsOf fs r, s ≠ file.slot → SameEntry d.disk d₂.disk s ∧
      (Live d.disk s → isFile (entryAttr (d.disk s.lba) s.offset) = true →
        ∀ m, FileChain fs d.disk s m →
          FileChain fs d₂.disk s m ∧ fileBytes fs d₂.disk s m = fileBytes fs d.disk s m) := by
  obtain ⟨rfl, s, l₁, ho, hl, rfl⟩ := openRoot_ok hv isFile_selectsFiles hd hopen
  have hslot := handleOf_slot fs d₁.disk s l₁
  obtain rfl := ho.chain.unique hchain
  have hcur := Current.of_openable ho isFile_selectsFiles
  have hw := write_writable.of_ok hwrite
  obtain ⟨-, l', hwr⟩ := (write_spec (t := ⟨handleOf fs d₁.disk s l, d₁⟩) hw hv hcur ho.chain
    fun _ _ _ => hfree).of_ok hwrite
  have ht := hwr.touched
  simp only [hslot] at ht
  have hoff' : off ≤ l.length * clusterBytesOf fs := le_trans hoff hlong
  have hfits := hwr.fits hoff'
  have hcap : l'.length * clusterBytesOf fs ≤ 0xffffffff := by
    rw [← hwr.capacity rfl]
    exact hwr.current.bound
  have hsize : slotSize d₂.disk s = off + buf.length := by
    have h1 := hwr.current.size
    rw [hwr.slot, hwr.size, Nat.mod_eq_of_lt (by omega)] at h1
    exact h1.symm
  have hd₂ : d₂.fault = none := by
    have := hwr.armed
    simpa [Dev.armed, hd] using this
  have ho' : Openable fs r d₂.disk name s l' := by
    refine ht.openable ho ?_ hcap
    rcases ht.chain with ⟨h2, -⟩ | ⟨-, rfl⟩
    · exact .inr h2
    · rw [List.length_nil, Nat.zero_mul] at hfits
      exact .inl (by omega)
  refine ⟨⟨_, openRoot_returns ht.volume isFile_selectsFiles hd₂ ho', by simp, hsize, fun o cap hoc => ?_⟩,
    fun u hu hus => ⟨ht.others u hu hus, fun hulive hufile m hm => ?_⟩⟩
  · rw [read_returns hv.geometry hd₂ rfl rfl ht.chain ht.inData (by omega) hoc]
    have hcont := hwr.contents hoff'
    simp only at hcont
    have hold : (fileBytes fs d₁.disk s l).take off = (chainBytes fs d₁.disk l).take off := by
      unfold fileBytes
      rw [List.take_take, Nat.min_eq_left (show off ≤ slotSize d₁.disk s from hoff)]
    have hnew : fileBytes fs d₂.disk s l' = (chainBytes fs d₁.disk l).take off ++ buf := by
      unfold fileBytes
      rw [hsize, hcont]
    rw [hnew, hslot, hold]
  · exact ht.other_file hv ho.mem ho.live ho.isFile ho.chain hu hus hulive hufile hm

/-! ## A small volume -/

/-- One sector a cluster, two FAT copies of one sector, the clusters 2 to 6. -/
def sampleFs : Fat32Fs where
  bytesPerSector := 512
  sectorsPerCluster := 1
  reservedSectors := 1
  fatCount := 2
  sectorsPerFat := 1
  totalSectors := 8
  fatStartLba := 1
  dataStartLba := 3
  rootCluster := 2
  mounted := true
  writable := true

/-- The root directory in the cluster 2 and the file `A` of five bytes in the cluster 3. -/
def sampleDisk : Nat → Sector := fun lba =>
  if lba = 1 ∨ lba = 2 then Sector.zero.patch 8 (putLe32 clusterEoc ++ putLe32 clusterEoc)
  else if lba = 3 then
    Sector.zero.patch 0 (dirEntryBytes [65, 32, 32, 32, 32, 32, 32, 32, 32, 32, 32] 0x20 3 5)
  else Sector.zero

theorem sample_mounted : Mounted sampleFs := by
  constructor <;> decide

theorem sample_chain {c : Nat} (hc : c = 2 ∨ c = 3) :
    Chain (nextOf sampleFs sampleDisk) Eoc c [c] := by
  rcases hc with rfl | rfl <;> exact .step (by decide) (.done (by decide))

theorem sample_heads {sel : UInt8 → Bool} {i : Option Slot} {a : Nat}
    (h : heads sampleFs sel [2] sampleDisk i = some a) :
    (i = none ∧ a = 2) ∨ (i = some ⟨3, 0⟩ ∧ a = 3) := by
  rcases i with _ | s
  · cases h
    exact .inl ⟨rfl, rfl⟩
  · obtain ⟨hs, hl, -, -, ha⟩ := heads_some.mp h
    have hall : ∀ s ∈ slotsOf sampleFs [2], Live sampleDisk s → s = ⟨3, 0⟩ := by decide
    obtain rfl := hall s hs hl
    exact .inr ⟨rfl, by rw [← ha]; decide⟩

theorem sample_volume (sel : UInt8 → Bool) : Volume sampleFs sel [2] sampleDisk := by
  refine ⟨sample_mounted, sample_chain (.inl rfl), fun {i a} hi => ?_, fun {i a} hi => ?_,
    fun {i k a b l m} hik hi hk hl hm x hx hx' => ?_⟩
  · rcases sample_heads hi with ⟨-, rfl⟩ | ⟨-, rfl⟩ <;> decide
  · rcases sample_heads hi with ⟨-, rfl⟩ | ⟨-, rfl⟩
    · exact ⟨_, sample_chain (.inl rfl), by simp; decide⟩
    · exact ⟨_, sample_chain (.inr rfl), by simp; decide⟩
  · have hc : ∀ {i a}, heads sampleFs sel [2] sampleDisk i = some a → a = 2 ∨ a = 3 := fun h => by
      rcases sample_heads h with ⟨-, h⟩ | ⟨-, h⟩ <;> simp [h]
    rw [hl.unique (sample_chain (hc hi)), List.mem_singleton] at hx
    rw [hm.unique (sample_chain (hc hk)), List.mem_singleton] at hx'
    rcases sample_heads hi with ⟨rfl, rfl⟩ | ⟨rfl, rfl⟩ <;>
      rcases sample_heads hk with ⟨rfl, rfl⟩ | ⟨rfl, rfl⟩ <;> first | exact hik rfl | omega

theorem sample_openable : Openable sampleFs [2] sampleDisk [97] ⟨3, 0⟩ [3] where
  found := ⟨[65, 32, 32, 32, 32, 32, 32, 32, 32, 32, 32], by decide, by decide⟩
  chain := .inl ⟨by decide, sample_chain (.inr (by decide))⟩
  start := .inr (by decide)
  fits := by decide

/-- Writing one byte at the offset 2 of the file and reading it back. -/
theorem fat32Write_then_read_sample : ∃ file d, fat32OpenRoot sampleFs [97] d = .ok file d ∧
    fat32Read sampleFs file 0 10 d = .ok [0, 0, 66] d := by
  have hopen := openRoot_returns (d := ⟨sampleDisk, none⟩) (sample_volume isFile) isFile_selectsFiles rfl
    sample_openable
  have hok : isOk (fat32Write sampleFs 2 [66])
      ⟨handleOf sampleFs sampleDisk ⟨3, 0⟩ [3], ⟨sampleDisk, none⟩⟩ = true := by decide +kernel
  obtain ⟨n, ⟨file', d₂⟩, hwrite⟩ := exists_of_isOk hok
  obtain ⟨⟨file'', h1, -, h3, h4⟩, -⟩ := fat32Write_then_read (sample_volume isFile) rfl hopen
    (sample_openable.chain) (by decide) (by decide) ⟨[], by simp, by decide, by simp⟩ hwrite
  refine ⟨file'', d₂, h1, ?_⟩
  rw [h4 0 10 (by omega)]
  have hbytes : ((((fileBytes sampleFs sampleDisk ⟨3, 0⟩ [3]).take 2 ++ [66]).drop 0).take 10) =
      [0, 0, 66] := by decide +kernel
  exact congrArg (fun bs => EStateM.Result.ok bs d₂) hbytes

end Armonios
