import Armonios.Process.UserVm

/-!
# Flat user images

The header of an image is checked in two places: `kernel/boot_program.c` looks at all entries of a program
before it lists it, `kernel/user_image.c` at the one that is started.

* `userImageLoadFlatCopy`: the loader with the addresses that it computes and the bytes that it copies;
* `userImageLoadFlat_eq`: what the process code uses of it;
* `imageLaws`: a program that is listed can be loaded, and what is loaded is an image.
-/

namespace Armonios

variable {source : List UInt8} {load : Nat → UInt8} {image : UserImage} {sourceBase loadBase loadCapacity : UInt64}
  {entryIndex : UInt32}

/-- `user_flat_image_header_t`. -/
structure FlatImageHeader where
  magic : Nat
  headerSize : Nat
  entryCount : Nat
  imageSize : Nat
  entryOffsets : Nat → Nat

/-- The header at the beginning of a blob. -/
def flatImageHeader (source : List UInt8) : FlatImageHeader where
  magic := leNat source 0 4
  headerSize := leNat source 4 2
  entryCount := leNat source 6 2
  imageSize := leNat source 8 8
  entryOffsets i := leNat source (16 + 8 * i) 8

/-! ## The registry -/

/-- `boot_program_source_t` without the name, with the bytes from the start to the end. -/
structure BootProgramSource where
  imageStart : UInt64
  imageEnd : UInt64
  bytes : List UInt8
  size_eq : bytes.length = imageEnd.toNat - imageStart.toNat

/-- Returns `*out_size`. -/
def bootProgramSourceIsKli1 (program : BootProgramSource) : Option Nat :=
  if program.imageStart = 0 ∨ program.imageEnd ≤ program.imageStart then none
  else
    let size := (program.imageEnd - program.imageStart).toNat
    let header := flatImageHeader program.bytes
    if size < userImageHeaderSize then none
    else if header.magic ≠ userImageMagic ∨ header.headerSize ≠ userImageHeaderSize ∨ size < header.imageSize ∨
        header.entryCount = 0 ∨ userImageMaxEntries < header.entryCount then none
    else if (List.range header.entryCount).any fun i =>
        header.entryOffsets i < header.headerSize ∨ header.imageSize ≤ header.entryOffsets i then none
    else some size

/-! ## The loader -/

def addU64Checked (a b : Nat) : Option Nat := if a > uint64Max - b then none else some (a + b)

/-- `load[i] = source[i]` for the first `n` bytes. -/
def copyImage (source : List UInt8) (load : Nat → UInt8) : (n : Nat) → Nat → UInt8
  | 0 => load
  | n + 1 => Function.update (copyImage source load n) n (source.getD n 0)

/-- `load` is the memory at `loadBase`, `source` the one at `sourceBase`. -/
def userImageLoadCopy (loadBase loadCapacity sourceBase : UInt64) (source : List UInt8) (sourceSize sourceEntry : Nat)
    (load : Nat → UInt8) : Option UserImage × (Nat → UInt8) :=
  if loadBase = 0 ∨ loadCapacity = 0 ∨ sourceBase = 0 ∨ sourceSize = 0 ∨ loadCapacity.toNat < sourceSize ∨
      sourceEntry < sourceBase.toNat ∨ sourceSize ≤ sourceEntry - sourceBase.toNat then (none, load)
  else (some ⟨loadBase.toNat, sourceSize, sourceEntry - sourceBase.toNat⟩, copyImage source load sourceSize)

/-- `source_capacity` is the length of `source`. -/
def userImageLoadFlatCopy (loadBase loadCapacity sourceBase : UInt64) (source : List UInt8) (entryIndex : UInt32)
    (load : Nat → UInt8) : Option UserImage × (Nat → UInt8) :=
  let header := flatImageHeader source
  if sourceBase = 0 ∨ source.length < 4 then (none, load)
  else if header.magic ≠ userImageMagic then (none, load)
  else if source.length < userImageHeaderSize ∨ header.headerSize ≠ userImageHeaderSize ∨
      header.imageSize < header.headerSize ∨ header.entryCount = 0 ∨ userImageMaxEntries < header.entryCount ∨
      header.entryCount ≤ entryIndex.toNat ∨ source.length < header.imageSize then (none, load)
  else
    let entryOffset := header.entryOffsets entryIndex.toNat
    if entryOffset < header.headerSize ∨ header.imageSize ≤ entryOffset then (none, load)
    else
      match addU64Checked sourceBase.toNat entryOffset with
      | none => (none, load)
      | some sourceEntry =>
        userImageLoadCopy loadBase loadCapacity sourceBase source header.imageSize sourceEntry load

theorem copyImage_apply (source : List UInt8) (load : Nat → UInt8) (n i : Nat) :
    copyImage source load n i = if i < n then source.getD i 0 else load i := by
  induction n with
  | zero => rw [if_neg (Nat.not_lt_zero i)]; rfl
  | succ n ih =>
    unfold copyImage
    by_cases hi : i = n
    · rw [hi, Function.update_self, if_pos (Nat.lt_succ_self n)]
    · rw [Function.update_of_ne hi, ih]
      by_cases hlt : i < n
      · rw [if_pos hlt, if_pos (by omega)]
      · rw [if_neg hlt, if_neg (by omega)]

/-! ## What is accepted -/

/-- An image with an entry that can be started. -/
structure LoadableImage (source : List UInt8) (entryIndex : Nat) : Prop where
  magic : (flatImageHeader source).magic = userImageMagic
  headerSize : (flatImageHeader source).headerSize = userImageHeaderSize
  count : 1 ≤ (flatImageHeader source).entryCount ∧ (flatImageHeader source).entryCount ≤ userImageMaxEntries
  index : entryIndex < (flatImageHeader source).entryCount
  entry : (flatImageHeader source).headerSize ≤ (flatImageHeader source).entryOffsets entryIndex ∧
    (flatImageHeader source).entryOffsets entryIndex < (flatImageHeader source).imageSize
  size : (flatImageHeader source).imageSize ≤ source.length

/-- What the loader leaves when it has copied the image. -/
def loadedImage (loadBase : UInt64) (source : List UInt8) (entryIndex : Nat) (load : Nat → UInt8) :
    Option UserImage × (Nat → UInt8) :=
  (some ⟨loadBase.toNat, (flatImageHeader source).imageSize, (flatImageHeader source).entryOffsets entryIndex⟩,
    copyImage source load (flatImageHeader source).imageSize)

theorem loadCopy_entry {size offset : Nat} (hbase : sourceBase ≠ 0) (hsize : offset < size) :
    userImageLoadCopy loadBase loadCapacity sourceBase source size (sourceBase.toNat + offset) load =
      if loadBase = 0 ∨ loadCapacity.toNat < size then (none, load)
      else (some ⟨loadBase.toNat, size, offset⟩, copyImage source load size) := by
  unfold userImageLoadCopy
  rw [Nat.add_sub_cancel_left]
  by_cases hload : loadBase = 0 ∨ loadCapacity.toNat < size
  · rw [if_pos hload, if_pos (by tauto)]
  · obtain ⟨h0, hcap⟩ := not_or.mp hload
    have hcap0 : loadCapacity ≠ 0 := by
      rintro rfl
      exact hcap (Nat.zero_lt_of_lt hsize)
    rw [if_neg hload, if_neg]
    simp only [h0, hcap, hcap0, hbase, false_or, not_or]
    omega

/-- The loader copies an image that fits, or nothing. -/
theorem loadFlatCopy_cases (loadBase loadCapacity sourceBase : UInt64) (source : List UInt8) (entryIndex : UInt32)
    (load : Nat → UInt8) :
    userImageLoadFlatCopy loadBase loadCapacity sourceBase source entryIndex load = (none, load) ∨
      LoadableImage source entryIndex.toNat ∧ loadBase ≠ 0 ∧ (flatImageHeader source).imageSize ≤ loadCapacity.toNat ∧
        userImageLoadFlatCopy loadBase loadCapacity sourceBase source entryIndex load =
          loadedImage loadBase source entryIndex.toNat load := by
  unfold userImageLoadFlatCopy
  dsimp only
  split
  · exact .inl rfl
  rename_i hsource
  split
  · exact .inl rfl
  rename_i hmagic
  split
  · exact .inl rfl
  rename_i hheader
  split
  · exact .inl rfl
  rename_i hentry
  unfold addU64Checked
  by_cases hwrap : sourceBase.toNat > uint64Max - (flatImageHeader source).entryOffsets entryIndex.toNat
  · rw [if_pos hwrap]
    exact .inl rfl
  rw [if_neg hwrap]
  dsimp only
  simp only [not_or, not_lt, not_le, ne_eq, not_not] at hsource hmagic hheader hentry
  obtain ⟨-, hsize, hordered, h0, hmax, hindex, hlength⟩ := hheader
  rw [loadCopy_entry hsource.1 hentry.2]
  by_cases hload : loadBase = 0 ∨ loadCapacity.toNat < (flatImageHeader source).imageSize
  · rw [if_pos hload]
    exact .inl rfl
  · rw [if_neg hload]
    obtain ⟨hbase, hcap⟩ := not_or.mp hload
    exact .inr ⟨⟨hmagic, hsize, ⟨Nat.pos_of_ne_zero h0, hmax⟩, hindex, hentry, hlength⟩, hbase, not_lt.mp hcap, rfl⟩

theorem loadFlatCopy_loads (h : LoadableImage source entryIndex.toNat) (hsource : sourceBase ≠ 0)
    (hfits : sourceBase.toNat + source.length ≤ uint64Max) (hbase : loadBase ≠ 0)
    (hcap : (flatImageHeader source).imageSize ≤ loadCapacity.toNat) :
    userImageLoadFlatCopy loadBase loadCapacity sourceBase source entryIndex load =
      loadedImage loadBase source entryIndex.toNat load := by
  have hheader := h.headerSize
  obtain ⟨hpos, hmax⟩ := h.count
  obtain ⟨hafter, hbefore⟩ := h.entry
  have hindex := h.index
  have hsize := h.size
  rw [hheader] at hafter
  have h80 : userImageHeaderSize = 80 := rfl
  unfold userImageLoadFlatCopy
  dsimp only
  rw [if_neg (by simp only [hsource, false_or]; omega), if_neg (not_not.mpr h.magic), if_neg (by omega),
    if_neg (by omega), addU64Checked, if_neg (by omega)]
  dsimp only
  rw [loadCopy_entry hsource hbefore, if_neg (not_or.mpr ⟨hbase, not_lt.mpr hcap⟩)]
  rfl

theorem userImageLoadFlat_iff {base capacity index : Nat} : userImageLoadFlat base capacity source index = some image ↔
    LoadableImage source index ∧ base ≠ 0 ∧ (flatImageHeader source).imageSize ≤ capacity ∧
      image = ⟨base, (flatImageHeader source).imageSize, (flatImageHeader source).entryOffsets index⟩ := by
  have h80 : userImageHeaderSize = 80 := rfl
  constructor
  · intro h
    unfold userImageLoadFlat at h
    dsimp only at h
    split_ifs at h with hsource hheader hentry hload
    cases h
    simp only [not_or, not_lt, not_le, ne_eq, not_not] at hsource hheader hentry hload
    obtain ⟨-, hsize, -, h0, hmax, hindex, hlength⟩ := hheader
    obtain ⟨hbase, -, -, hcap⟩ := hload
    exact ⟨⟨hsource.2, hsize, ⟨Nat.pos_of_ne_zero h0, hmax⟩, hindex, hentry, hlength⟩, hbase, hcap, rfl⟩
  · rintro ⟨h, hbase, hcap, rfl⟩
    have hmagic : leNat source 0 4 = userImageMagic := h.magic
    have hsize : leNat source 4 2 = userImageHeaderSize := h.headerSize
    obtain ⟨hpos, hmax⟩ : 1 ≤ leNat source 6 2 ∧ leNat source 6 2 ≤ userImageMaxEntries := h.count
    have hindex : index < leNat source 6 2 := h.index
    obtain ⟨hafter, hbefore⟩ : leNat source 4 2 ≤ leNat source (16 + 8 * index) 8 ∧
      leNat source (16 + 8 * index) 8 < leNat source 8 8 := h.entry
    have hlength : leNat source 8 8 ≤ source.length := h.size
    have hcap : leNat source 8 8 ≤ capacity := hcap
    unfold userImageLoadFlat
    dsimp only
    rw [if_neg (by rw [hmagic]; simp; omega), if_neg (by omega), if_neg (by omega), if_neg (by omega)]
    rfl

/-- The part of the loader that the process code is given: an image without its bytes. -/
theorem userImageLoadFlat_eq (hsource : sourceBase ≠ 0) (hfits : sourceBase.toNat + source.length ≤ uint64Max) :
    (userImageLoadFlatCopy loadBase loadCapacity sourceBase source entryIndex load).1 =
      userImageLoadFlat loadBase.toNat loadCapacity.toNat source entryIndex.toNat := by
  by_cases h : LoadableImage source entryIndex.toNat ∧ loadBase ≠ 0 ∧
      (flatImageHeader source).imageSize ≤ loadCapacity.toNat
  · obtain ⟨h, hbase, hcap⟩ := h
    rw [loadFlatCopy_loads h hsource hfits hbase hcap]
    exact (userImageLoadFlat_iff.mpr ⟨h, fun h0 => hbase (UInt64.toNat_inj.mp h0), hcap, rfl⟩).symm
  · have hnone : userImageLoadFlat loadBase.toNat loadCapacity.toNat source entryIndex.toNat = none := by
      by_contra hsome
      obtain ⟨image, himage⟩ := Option.ne_none_iff_exists'.mp hsome
      obtain ⟨hload, hbase, hcap, -⟩ := userImageLoadFlat_iff.mp himage
      exact h ⟨hload, fun h0 => hbase (by rw [h0]; rfl), hcap⟩
    rcases loadFlatCopy_cases loadBase loadCapacity sourceBase source entryIndex load with hrun | ⟨hload, hbase,
      hcap, -⟩
    · rw [hrun, hnone]
    · exact absurd ⟨hload, hbase, hcap⟩ h

/-- A program in the registry is an image at each of its entries. -/
theorem isKli1_loadable {program : BootProgramSource} {size : Nat} (h : bootProgramSourceIsKli1 program = some size) :
    size = program.bytes.length ∧ program.imageStart ≠ 0 ∧
      program.imageStart.toNat + program.bytes.length ≤ uint64Max ∧
        ∀ i < (flatImageHeader program.bytes).entryCount, LoadableImage program.bytes i := by
  unfold bootProgramSourceIsKli1 at h
  split at h
  · cases h
  rename_i haddr
  dsimp only at h
  split at h
  · cases h
  rename_i hroom
  split at h
  · cases h
  rename_i hheader
  split at h
  · cases h
  rename_i hentries
  cases h
  simp only [not_or, not_lt, ne_eq, not_not] at haddr hroom hheader
  obtain ⟨hstart, hle⟩ := haddr
  have hend := UInt64.not_le.mp hle
  obtain ⟨hmagic, hsize, hlength, h0, hmax⟩ := hheader
  have hlt := UInt64.lt_iff_toNat_lt.mp hend
  have hword := program.imageEnd.toNat_lt
  have hbytes : (program.imageEnd - program.imageStart).toNat = program.bytes.length := by
    rw [program.size_eq, UInt64.toNat_sub_of_le _ _ (UInt64.le_of_lt hend)]
  rw [hbytes] at hlength ⊢
  refine ⟨rfl, hstart, ?_, fun i hi => ?_⟩
  · rw [program.size_eq]
    unfold uint64Max
    omega
  · rw [Bool.not_eq_true, List.any_eq_false] at hentries
    have hentry := hentries i (List.mem_range.mpr hi)
    simp only [decide_eq_true_eq, not_or, not_lt, not_le] at hentry
    exact ⟨hmagic, hsize, ⟨Nat.pos_of_ne_zero h0, hmax⟩, hi, hentry, hlength⟩

/-! ## The two together -/

structure ImageLaws (loadBase loadCapacity sourceBase : UInt64) (source : List UInt8) (entryIndex : UInt32)
    (load : Nat → UInt8) : Prop where
  /-- A program that the registry lists can be loaded. -/
  listed : ∀ program : BootProgramSource, program.imageStart = sourceBase → program.bytes = source →
    (bootProgramSourceIsKli1 program).isSome → entryIndex.toNat < (flatImageHeader source).entryCount →
    loadBase ≠ 0 → (flatImageHeader source).imageSize ≤ loadCapacity.toNat →
    (userImageLoadFlatCopy loadBase loadCapacity sourceBase source entryIndex load).1.isSome
  /-- What is loaded is an image, copied as far as its size, with the entry in it. -/
  loaded : ∀ image, (userImageLoadFlatCopy loadBase loadCapacity sourceBase source entryIndex load).1 = some image →
    LoadableImage source entryIndex.toNat ∧ image.base = loadBase.toNat ∧
      image.size = (flatImageHeader source).imageSize ∧
      image.entryOffset = (flatImageHeader source).entryOffsets entryIndex.toNat ∧ image.entryOffset < image.size ∧
      ∀ i, (userImageLoadFlatCopy loadBase loadCapacity sourceBase source entryIndex load).2 i =
        if i < image.size then source.getD i 0 else load i
  /-- Otherwise nothing is copied. -/
  refused : (userImageLoadFlatCopy loadBase loadCapacity sourceBase source entryIndex load).1 = none →
    (userImageLoadFlatCopy loadBase loadCapacity sourceBase source entryIndex load).2 = load

theorem imageLaws (loadBase loadCapacity sourceBase : UInt64) (source : List UInt8) (entryIndex : UInt32)
    (load : Nat → UInt8) : ImageLaws loadBase loadCapacity sourceBase source entryIndex load where
  listed program hstart hbytes hlisted hindex hbase hcap := by
    obtain ⟨size, hsize⟩ := Option.isSome_iff_exists.mp hlisted
    obtain ⟨-, hsource, hfits, hloadable⟩ := isKli1_loadable hsize
    rw [hstart, hbytes] at hfits
    rw [hstart] at hsource
    rw [hbytes] at hloadable
    rw [loadFlatCopy_loads (hloadable _ hindex) hsource hfits hbase hcap]
    rfl
  loaded image himage := by
    rcases loadFlatCopy_cases loadBase loadCapacity sourceBase source entryIndex load with hnone | ⟨h, -, -, hrun⟩
    · rw [hnone] at himage
      cases himage
    · rw [hrun] at himage ⊢
      cases himage
      exact ⟨h, rfl, rfl, rfl, h.entry.2, copyImage_apply _ _ _⟩
  refused hrefused := by
    rcases loadFlatCopy_cases loadBase loadCapacity sourceBase source entryIndex load with hnone | ⟨-, -, -, hrun⟩
    · rw [hnone]
    · rw [hrun] at hrefused
      cases hrefused

end Armonios
