import Armonios.Fat32.Listing
import Armonios.Fat32.Contents
import Armonios.Fat32.Runs
import Armonios.Fat32.Mount

/-!
# The image of the build

`tools/mkfat32_image.c` makes the FAT32 image that the kernel mounts: a boot sector, one FAT, the root directory with
`SHELL.BIN` and `EDIT.TXT`, and the bytes of both. The image is a buffer of bytes that `calloc` has set to zero; what
the tool writes is a sequence of stores into it.

* `writeClusterChain_le32`: the FAT after a chain has been written;
* `mkfat32Image_mounts`: the driver mounts every image, and finds in it what the tool was given.
-/

namespace Armonios

/-! ## The buffer -/

/-- The bytes of the image. -/
abbrev DiskImage := Nat → UInt8

/-- The bytes `bs` stored from `off` on. -/
def putBytes (image : DiskImage) (off : Nat) (bs : List UInt8) : DiskImage := fun i =>
  if off ≤ i ∧ i < off + bs.length then bs.getD (i - off) 0 else image i

/-- The sectors of a device with the image on it. -/
def imageDisk (image : DiskImage) (lba : Nat) : Sector where
  get i := image (lba * 512 + i.val)

def imageLe16 (image : DiskImage) (off : Nat) : Nat := (image off).toNat + 2 ^ 8 * (image (off + 1)).toNat

def imageLe32 (image : DiskImage) (off : Nat) : Nat :=
  (image off).toNat + 2 ^ 8 * (image (off + 1)).toNat + 2 ^ 16 * (image (off + 2)).toNat +
    2 ^ 24 * (image (off + 3)).toNat

section Buffer

variable {image : DiskImage} {off i v : Nat} {bs : List UInt8}

theorem putBytes_out (h : i < off ∨ off + bs.length ≤ i) : putBytes image off bs i = image i := if_neg (by omega)

theorem putBytes_in (h : i < bs.length) : putBytes image off bs (off + i) = bs.getD i 0 := by
  unfold putBytes
  rw [if_pos (by omega), Nat.add_sub_cancel_left]

theorem byte_imageDisk {lba : Nat} (h : i < 512) : (imageDisk image lba).byte i = image (lba * 512 + i) := by
  rw [Sector.byte, dif_pos h]
  rfl

theorem le16_imageDisk {lba : Nat} (h : i + 2 ≤ 512) :
    le16 (imageDisk image lba) i = imageLe16 image (lba * 512 + i) := by
  unfold le16 imageLe16
  rw [byte_imageDisk (by omega), byte_imageDisk (by omega), Nat.add_assoc]

theorem le32_imageDisk {lba : Nat} (h : i + 4 ≤ 512) :
    le32 (imageDisk image lba) i = imageLe32 image (lba * 512 + i) := by
  unfold le32 imageLe32
  rw [byte_imageDisk (by omega), byte_imageDisk (by omega), byte_imageDisk (by omega), byte_imageDisk (by omega)]
  simp only [Nat.add_assoc]

theorem imageLe16_putBytes_out (h : i + 2 ≤ off ∨ off + bs.length ≤ i) :
    imageLe16 (putBytes image off bs) i = imageLe16 image i := by
  unfold imageLe16
  rw [putBytes_out (by omega), putBytes_out (by omega)]

theorem imageLe32_putBytes_out (h : i + 4 ≤ off ∨ off + bs.length ≤ i) :
    imageLe32 (putBytes image off bs) i = imageLe32 image i := by
  unfold imageLe32
  rw [putBytes_out (by omega), putBytes_out (by omega), putBytes_out (by omega), putBytes_out (by omega)]

theorem imageLe16_putLe16 : imageLe16 (putBytes image off (putLe16 v)) off = v % 2 ^ 16 := by
  have hin : ∀ k < (putLe16 v).length, putBytes image off (putLe16 v) (off + k) = (putLe16 v).getD k 0 :=
    fun _ hk => putBytes_in hk
  have hfirst := hin 0 (by simp)
  rw [Nat.add_zero] at hfirst
  unfold imageLe16
  rw [hfirst, hin 1 (by simp)]
  simp only [putLe16, List.getD_cons_zero, List.getD_cons_succ, UInt8.toNat_ofNat']
  omega

theorem imageLe32_putLe32 : imageLe32 (putBytes image off (putLe32 v)) off = v % 2 ^ 32 := by
  have hin : ∀ k < (putLe32 v).length, putBytes image off (putLe32 v) (off + k) = (putLe32 v).getD k 0 :=
    fun _ hk => putBytes_in hk
  have hfirst := hin 0 (by simp)
  rw [Nat.add_zero] at hfirst
  unfold imageLe32
  rw [hfirst, hin 1 (by simp), hin 2 (by simp), hin 3 (by simp)]
  simp only [putLe32, List.getD_cons_zero, List.getD_cons_succ, UInt8.toNat_ofNat']
  omega

end Buffer

/-! ## The tool -/

def mkTotalSectors : Nat := 2048
def mkReservedSectors : Nat := 1
def mkFatSectors : Nat := 16
def mkRootCluster : Nat := 2
def mkFileFirstCluster : Nat := 3
def mkEditClusterCount : Nat := 8
def mkFat32Eoc : Nat := 0x0fffffff

/-- The stores of `write_boot_sector`, in order. -/
def bootStores : List (Nat × List UInt8) :=
  [(0, [0xeb, 0x58, 0x90]), (3, "KOLIBRI ".toList.map (fun c => c.toNat.toUInt8)), (11, putLe16 512), (13, [1]),
    (14, putLe16 mkReservedSectors), (16, [1]), (17, putLe16 0), (19, putLe16 0), (21, [0xf8]), (22, putLe16 0),
    (24, putLe16 1), (26, putLe16 1), (28, putLe32 0), (32, putLe32 mkTotalSectors), (36, putLe32 mkFatSectors),
    (40, putLe16 0), (42, putLe16 0), (44, putLe32 mkRootCluster), (48, putLe16 0), (50, putLe16 0), (64, [0x80]),
    (66, [0x29]), (67, putLe32 0x4b41524d), (71, "KOLIBRIARM".toList.map (fun c => c.toNat.toUInt8)),
    (82, "FAT32".toList.map (fun c => c.toNat.toUInt8)), (510, [0x55]), (511, [0xaa])]

def writeBootSector (image : DiskImage) : DiskImage := bootStores.foldl (fun image s => putBytes image s.1 s.2) image

/-- Where the FAT is. -/
def mkFatBase : Nat := mkReservedSectors * 512

/-- What a chain has in the entry of a cluster. -/
def chainNext (firstCluster clusterCount i : Nat) : Nat :=
  if i + 1 = clusterCount then mkFat32Eoc else firstCluster + i + 1

def writeClusterChain (image : DiskImage) (firstCluster clusterCount : Nat) : DiskImage :=
  (List.range clusterCount).foldl
    (fun image i =>
      putBytes image (mkFatBase + (firstCluster + i) * 4) (putLe32 (chainNext firstCluster clusterCount i)))
    image

def writeFat (image : DiskImage) (fileClusterCount editFirstCluster : Nat) : DiskImage :=
  let image := putBytes image mkFatBase (putLe32 0x0ffffff8)
  let image := putBytes image (mkFatBase + 4) (putLe32 mkFat32Eoc)
  let image := putBytes image (mkFatBase + mkRootCluster * 4) (putLe32 mkFat32Eoc)
  let image := writeClusterChain image mkFileFirstCluster fileClusterCount
  writeClusterChain image editFirstCluster mkEditClusterCount

/-- `write_dir_entry`: `put_le16` takes the low half of the first cluster. -/
def writeDirEntry (image : DiskImage) (entry : Nat) (name : List UInt8) (firstCluster fileSize : Nat) : DiskImage :=
  let image := putBytes image entry name
  let image := putBytes image (entry + 11) [0x20]
  let image := putBytes image (entry + 20) (putLe16 0)
  let image := putBytes image (entry + 26) (putLe16 firstCluster)
  putBytes image (entry + 28) (putLe32 fileSize)

def mkDataStart : Nat := mkReservedSectors + 1 * mkFatSectors

/-- Where the root directory is. -/
def mkRootBase : Nat := mkDataStart * 512

def mkShellName : List UInt8 := "SHELL   BIN".toList.map (fun c => c.toNat.toUInt8)

def mkEditName : List UInt8 := "EDIT    TXT".toList.map (fun c => c.toNat.toUInt8)

def mkEditText : List UInt8 := "ArmoniOS editable FAT32 file\n".toList.map (fun c => c.toNat.toUInt8)

def writeRootEntries (image : DiskImage) (fileSize editFirstCluster : Nat) : DiskImage :=
  let image := writeDirEntry image mkRootBase mkShellName mkFileFirstCluster fileSize
  writeDirEntry image (mkRootBase + 32) mkEditName editFirstCluster mkEditText.length

/-- The place of a cluster. -/
def mkClusterBase (cluster : Nat) : Nat := (mkDataStart + (cluster - mkRootCluster)) * 512

def copyPayload (image : DiskImage) (input : List UInt8) (fileSize : Nat) : DiskImage :=
  putBytes image (mkClusterBase mkFileFirstCluster) (input.take fileSize)

def writeEditPayload (image : DiskImage) (editFirstCluster : Nat) : DiskImage :=
  putBytes image (mkClusterBase editFirstCluster) mkEditText

def mkMaxPayload : Nat :=
  (mkTotalSectors - mkDataStart - (mkFileFirstCluster - mkRootCluster) - mkEditClusterCount) * 512

/-- `main`, from the bytes of the input file to those of the output file; `none` is the exit with a message. The size
is a `long`, of which the tool uses the low 32 bits. -/
def mkfat32Image (input : List UInt8) : Option DiskImage :=
  let inputSize := input.length % 2 ^ 32
  if input.length = 0 ∨ mkMaxPayload < inputSize then none
  else
    let clusterCount := (inputSize + 512 - 1) / 512
    let editFirstCluster := mkFileFirstCluster + clusterCount
    let image := writeBootSector fun _ => 0
    let image := writeFat image clusterCount editFirstCluster
    let image := writeRootEntries image inputSize editFirstCluster
    let image := copyPayload image input inputSize
    some (writeEditPayload image editFirstCluster)

/-! ## What is stored where -/

section Stores

variable {image : DiskImage} {first count : Nat}

theorem writeClusterChain_out {p : Nat} (h : p < mkFatBase + first * 4 ∨ mkFatBase + (first + count) * 4 ≤ p) :
    writeClusterChain image first count p = image p := by
  unfold writeClusterChain
  have hstores : ∀ k ≤ count, (List.range k).foldl
      (fun image i => putBytes image (mkFatBase + (first + i) * 4) (putLe32 (chainNext first count i))) image p =
        image p := by
    intro k hk
    induction k with
    | zero => rfl
    | succ k ih =>
      rw [List.range_succ, List.foldl_append, List.foldl_cons, List.foldl_nil, putBytes_out, ih (by omega)]
      rw [length_putLe32]
      omega
  exact hstores count le_rfl

theorem writeClusterChain_le32 (c : Nat) (hsmall : first + count < 2 ^ 32) :
    imageLe32 (writeClusterChain image first count) (mkFatBase + c * 4) =
      if first ≤ c ∧ c < first + count then chainNext first count (c - first)
      else imageLe32 image (mkFatBase + c * 4) := by
  unfold writeClusterChain
  have hstores : ∀ k ≤ count, imageLe32 ((List.range k).foldl
      (fun image i => putBytes image (mkFatBase + (first + i) * 4) (putLe32 (chainNext first count i))) image)
        (mkFatBase + c * 4) =
      if first ≤ c ∧ c < first + k then chainNext first count (c - first)
      else imageLe32 image (mkFatBase + c * 4) := by
    intro k hk
    induction k with
    | zero => rw [if_neg (by omega)]; rfl
    | succ k ih =>
      rw [List.range_succ, List.foldl_append, List.foldl_cons, List.foldl_nil]
      by_cases hc : c = first + k
      · subst hc
        rw [imageLe32_putLe32, if_pos (by omega), Nat.add_sub_cancel_left, Nat.mod_eq_of_lt]
        unfold chainNext mkFat32Eoc
        split <;> omega
      · rw [imageLe32_putBytes_out (by rw [length_putLe32]; omega), ih (by omega)]
        congr 1
        rw [eq_iff_iff]
        omega
  exact hstores count le_rfl

/-- The fields of a directory entry, and what is beside it. -/
structure EntryStored (image' : DiskImage) (entry : Nat) (name : List UInt8) (firstCluster fileSize : Nat) : Prop where
  name : ∀ i < 11, image' (entry + i) = name.getD i 0
  attr : image' (entry + 11) = 0x20
  high : imageLe16 image' (entry + 20) = 0
  low : imageLe16 image' (entry + 26) = firstCluster % 2 ^ 16
  size : imageLe32 image' (entry + 28) = fileSize % 2 ^ 32

theorem writeDirEntry_stored {entry firstCluster fileSize : Nat} {name : List UInt8} (hname : name.length = 11) :
    EntryStored (writeDirEntry image entry name firstCluster fileSize) entry name firstCluster fileSize := by
  unfold writeDirEntry
  dsimp only
  refine ⟨fun i hi => ?_, ?_, ?_, ?_, imageLe32_putLe32⟩
  · rw [putBytes_out (by omega), putBytes_out (by omega), putBytes_out (by omega),
      putBytes_out (by omega), putBytes_in (by omega)]
  · rw [putBytes_out (by omega), putBytes_out (by omega), putBytes_out (by omega)]
    exact putBytes_in (i := 0) (by simp)
  · rw [imageLe16_putBytes_out (by omega), imageLe16_putBytes_out (by omega), imageLe16_putLe16]
    rfl
  · rw [imageLe16_putBytes_out (by omega), imageLe16_putLe16]

theorem writeDirEntry_out {entry firstCluster fileSize p : Nat} {name : List UInt8} (hname : name.length = 11)
    (h : p < entry ∨ entry + 32 ≤ p) : writeDirEntry image entry name firstCluster fileSize p = image p := by
  unfold writeDirEntry
  rw [putBytes_out (by rw [length_putLe32]; omega), putBytes_out (by rw [length_putLe16]; omega),
    putBytes_out (by rw [length_putLe16]; omega), putBytes_out (by simp; omega), putBytes_out (by omega)]

theorem writeBootSector_out {p : Nat} (h : 512 ≤ p) : writeBootSector image p = image p := by
  unfold writeBootSector bootStores
  simp only [List.foldl_cons, List.foldl_nil]
  repeat rw [putBytes_out (.inr (le_trans (by decide) h))]

theorem EntryStored.congr {image' : DiskImage} {entry firstCluster fileSize : Nat} {name : List UInt8}
    (h : EntryStored image entry name firstCluster fileSize)
    (hsame : ∀ p, entry ≤ p → p < entry + 32 → image' p = image p) :
    EntryStored image' entry name firstCluster fileSize := by
  have hle16 (i : Nat) (hi : i + 2 ≤ 32) : imageLe16 image' (entry + i) = imageLe16 image (entry + i) := by
    unfold imageLe16
    rw [hsame _ (by omega) (by omega), hsame _ (by omega) (by omega)]
  refine ⟨fun i hi => ?_, ?_, ?_, ?_, ?_⟩
  · rw [hsame _ (by omega) (by omega), h.name i hi]
  · rw [hsame _ (by omega) (by omega), h.attr]
  · rw [hle16 20 (by omega), h.high]
  · rw [hle16 26 (by omega), h.low]
  · rw [← h.size]
    unfold imageLe32
    rw [hsame _ (by omega) (by omega), hsame _ (by omega) (by omega), hsame _ (by omega) (by omega),
      hsame _ (by omega) (by omega)]

end Stores

/-- The FAT of an image: `SHELL.BIN` has `n` clusters. -/
def mkNext (n c : Nat) : Nat :=
  if mkFileFirstCluster + n ≤ c ∧ c < mkFileFirstCluster + n + mkEditClusterCount then
    chainNext (mkFileFirstCluster + n) mkEditClusterCount (c - (mkFileFirstCluster + n))
  else if mkFileFirstCluster ≤ c ∧ c < mkFileFirstCluster + n then
    chainNext mkFileFirstCluster n (c - mkFileFirstCluster)
  else if c = mkRootCluster then mkFat32Eoc else 0

/-- What the tool has stored, region by region. -/
structure ImageBuilt (image : DiskImage) (payload : List UInt8) (n : Nat) : Prop where
  boot : ∀ p < 512, image p = writeBootSector (fun _ => 0) p
  fat : ∀ c, 2 ≤ c → c < 2048 → imageLe32 image (mkFatBase + c * 4) = mkNext n c
  shell : EntryStored image mkRootBase mkShellName mkFileFirstCluster payload.length
  edit : EntryStored image (mkRootBase + 32) mkEditName (mkFileFirstCluster + n) mkEditText.length
  free : ∀ p, mkRootBase + 64 ≤ p → p < mkClusterBase 3 → image p = 0
  payload : ∀ j < payload.length, image (mkClusterBase 3 + j) = payload.getD j 0
  text : ∀ j < mkEditText.length, image (mkClusterBase (mkFileFirstCluster + n) + j) = mkEditText.getD j 0

theorem length_mkShellName : mkShellName.length = 11 := rfl

theorem length_mkEditName : mkEditName.length = 11 := rfl

theorem mkClusterBase_add (n : Nat) : mkClusterBase (mkFileFirstCluster + n) = 9216 + n * 512 := by
  unfold mkClusterBase mkDataStart mkReservedSectors mkFatSectors mkFileFirstCluster mkRootCluster
  omega

section Regions

variable {image : DiskImage} {n size e : Nat}

theorem writeFat_out {p : Nat} (hn : n ≤ 2022) (h : p < 512 ∨ mkRootBase ≤ p) :
    writeFat image n (mkFileFirstCluster + n) p = image p := by
  have hbase : mkFatBase = 512 := rfl
  have hroot : mkRootBase = 8704 := rfl
  unfold writeFat mkFileFirstCluster mkEditClusterCount mkRootCluster
  rw [writeClusterChain_out (by omega), writeClusterChain_out (by omega), putBytes_out (by rw [length_putLe32]; omega),
    putBytes_out (by rw [length_putLe32]; omega), putBytes_out (by rw [length_putLe32]; omega)]

theorem writeFat_le32 {c : Nat} (hn : n ≤ 2022) (hc : 2 ≤ c)
    (hzero : ∀ p, 512 ≤ p → image p = 0) :
    imageLe32 (writeFat image n (mkFileFirstCluster + n)) (mkFatBase + c * 4) = mkNext n c := by
  have hbase : mkFatBase = 512 := rfl
  unfold writeFat mkNext
  dsimp only
  rw [writeClusterChain_le32 _ (by unfold mkFileFirstCluster mkEditClusterCount; omega)]
  congr 1
  rw [writeClusterChain_le32 _ (by unfold mkFileFirstCluster; omega)]
  congr 1
  by_cases hroot : c = mkRootCluster
  · rw [if_pos hroot, hroot, imageLe32_putLe32]
    rfl
  · rw [if_neg hroot]
    unfold mkRootCluster at hroot ⊢
    rw [imageLe32_putBytes_out (by rw [length_putLe32]; omega), imageLe32_putBytes_out (by rw [length_putLe32]; omega),
      imageLe32_putBytes_out (by rw [length_putLe32]; omega)]
    unfold imageLe32
    rw [hzero _ (by omega), hzero _ (by omega), hzero _ (by omega), hzero _ (by omega)]
    rfl

theorem writeRootEntries_out {p : Nat} (h : p < mkRootBase ∨ mkRootBase + 64 ≤ p) :
    writeRootEntries image size e p = image p := by
  unfold writeRootEntries
  rw [writeDirEntry_out length_mkEditName (by omega), writeDirEntry_out length_mkShellName (by omega)]

theorem writeRootEntries_shell :
    EntryStored (writeRootEntries image size e) mkRootBase mkShellName mkFileFirstCluster size :=
  (writeDirEntry_stored length_mkShellName).congr fun _ _ hp => writeDirEntry_out length_mkEditName (.inl hp)

theorem writeRootEntries_edit :
    EntryStored (writeRootEntries image size e) (mkRootBase + 32) mkEditName e mkEditText.length :=
  writeDirEntry_stored length_mkEditName

theorem mkfat32Image_built {input : List UInt8} {image : DiskImage} (h : mkfat32Image input = some image) :
    ImageBuilt image (input.take (input.length % 2 ^ 32)) ((input.length % 2 ^ 32 + 511) / 512) ∧
      input.length % 2 ^ 32 ≤ mkMaxPayload := by
  unfold mkfat32Image copyPayload writeEditPayload at h
  dsimp only at h
  split at h
  · cases h
  rename_i hsize
  rw [not_or, not_lt] at hsize
  refine ⟨?_, hsize.2⟩
  have hmax : input.length % 2 ^ 32 ≤ 1035264 := hsize.2
  have hlen : (input.take (input.length % 2 ^ 32)).length = input.length % 2 ^ 32 := by
    rw [List.length_take]
    exact min_eq_left (Nat.mod_le _ _)
  generalize input.take (input.length % 2 ^ 32) = payload at h hlen ⊢
  rw [← hlen] at h hmax ⊢
  have hadd : (payload.length + 512 - 1) / 512 = (payload.length + 511) / 512 := by
    rw [Nat.add_sub_assoc (by decide)]
  rw [hadd] at h
  have hn : (payload.length + 511) / 512 ≤ 2022 := by omega
  have hdiv := Nat.div_add_mod (payload.length + 511) 512
  have hmod := Nat.mod_lt (payload.length + 511) (show 0 < 512 by decide)
  generalize (payload.length + 511) % 512 = m at hdiv hmod
  generalize (payload.length + 511) / 512 = n at h hn hdiv ⊢
  have hroom : payload.length ≤ n * 512 := by omega
  have hroot : mkRootBase = 8704 := rfl
  have hfile : mkClusterBase mkFileFirstCluster = 9216 := rfl
  have hedit := mkClusterBase_add n
  have hzero : ∀ p, 512 ≤ p → writeBootSector (fun _ => 0) p = 0 := fun p hp => writeBootSector_out hp
  -- the bytes of the files come last, behind everything else
  have hmeta : ∀ p < 9216, image p = writeRootEntries
      (writeFat (writeBootSector fun _ => 0) n (mkFileFirstCluster + n)) payload.length (mkFileFirstCluster + n) p := by
    intro p hp
    cases h
    rw [putBytes_out (by omega), putBytes_out (by omega)]
  refine ⟨fun p hp => ?_, fun c hc hc' => ?_, ?_, ?_, fun p hp hp' => ?_, fun j hj => ?_, fun j hj => ?_⟩
  · rw [hmeta p (by omega), writeRootEntries_out (by omega), writeFat_out hn (.inl hp)]
  · rw [← writeFat_le32 hn hc hzero]
    have hbase : mkFatBase = 512 := rfl
    have hsame : ∀ p, p < 8704 → image p = writeFat (writeBootSector fun _ => 0) n (mkFileFirstCluster + n) p :=
      fun p hp => by rw [hmeta p (by omega), writeRootEntries_out (by omega)]
    unfold imageLe32
    rw [hsame _ (by omega), hsame _ (by omega), hsame _ (by omega), hsame _ (by omega)]
  · exact writeRootEntries_shell.congr fun p _ hp => hmeta p (by omega)
  · exact writeRootEntries_edit.congr fun p _ hp => hmeta p (by omega)
  · have hp' : p < 9216 := hp'
    rw [hmeta p hp', writeRootEntries_out (.inr hp), writeFat_out hn (by omega), hzero p (by omega)]
  · show image (mkClusterBase mkFileFirstCluster + j) = _
    cases h
    rw [putBytes_out (by omega), putBytes_in hj]
  · cases h
    exact putBytes_in hj

end Regions

/-! ## The volume -/

/-- The geometry of every image. -/
def mkFs (set : Bool) : Fat32Fs where
  bytesPerSector := 512
  sectorsPerCluster := 1
  reservedSectors := 1
  fatCount := 1
  sectorsPerFat := 16
  totalSectors := 2048
  fatStartLba := 1
  dataStartLba := 17
  rootCluster := 2
  mounted := true
  writable := set

theorem bootSector_accepted : BootAccepted (imageDisk (writeBootSector fun _ => 0) 0) := by
  refine ⟨?_, ?_⟩
  · constructor <;> decide +kernel
  · decide +kernel

theorem bootSector_geometry : bootGeometry (imageDisk (writeBootSector fun _ => 0) 0) = mkFs false := by decide +kernel

theorem fat32Mount_quiet : Quiet fat32Mount := by
  intro d hd
  have hnone : d.armed = none := fault_none.mpr hd
  unfold fat32Mount
  refine wp_bind.mpr (wp_callback (fun d₁ hdisk harmed => ?_) fun d₁ hdisk hstop => ?_)
  · rw [Dev.eq_of_disk hdisk (harmed.trans hnone) hd]
    refine wp_bind.mpr (wp_get.mpr ?_)
    simp only []
    generalize d.disk 0 = s
    exact wp_ite (fun _ => rfl) fun _ => wp_ite (fun _ => rfl) fun _ => rfl
  · rw [hnone] at hstop
    exact Dev.eq_of_disk hdisk hstop.refused.2 hd

/-- The clusters from `first` on, one linked to the next. -/
theorem chain_range' {next : Nat → Nat} {first count : Nat} (hcount : 0 < count) (hsmall : first + count < clusterEoc)
    (hnext : ∀ i < count, next (first + i) = chainNext first count i) :
    Chain next Eoc first (List.range' first count) := by
  -- on the number of clusters that are left
  have hrest : ∀ k i, i + k + 1 = count → Chain next Eoc (first + i) (List.range' (first + i) (k + 1)) := by
    intro k
    induction k with
    | zero =>
      intro i hi
      refine .step (by unfold Eoc; omega) (.done ?_)
      rw [hnext i (by omega)]
      unfold chainNext
      rw [if_pos (by omega)]
      decide
    | succ k ih =>
      intro i hi
      refine .step (by unfold Eoc; omega) ?_
      rw [hnext i (by omega)]
      unfold chainNext
      rw [if_neg (by omega)]
      exact ih (i + 1) (by omega)
  obtain ⟨k, rfl⟩ := Nat.exists_eq_add_of_lt hcount
  have h := hrest k 0 (by omega)
  rw [Nat.add_zero] at h
  rw [Nat.zero_add]
  exact h

section Volume

variable {image : DiskImage} {payload : List UInt8} {n : Nat} {set : Bool}

theorem mkFs_mounted : Mounted (mkFs set) := by
  cases set <;> constructor <;> decide

theorem clusterBytesOf_mkFs : clusterBytesOf (mkFs set) = 512 := Nat.one_mul 512

theorem mkFs_inData {c : Nat} (hc : 2 ≤ c) (hc' : c ≤ 2032) : InData (mkFs set) c := by
  refine ⟨hc, ?_, ?_, ?_⟩
  · unfold clusterBad
    omega
  · show c / 128 < 16
    omega
  · show 1 + 1 * 16 + (c - 2) * 1 + 1 ≤ 2048
    omega

theorem mkNext_lt (hn : n ≤ 2022) (c : Nat) : mkNext n c < 2 ^ 28 := by
  unfold mkNext chainNext mkFat32Eoc mkFileFirstCluster mkEditClusterCount
  split
  · split <;> omega
  · split
    · split <;> omega
    · split <;> omega

theorem ImageBuilt.next (h : ImageBuilt image payload n) (hn : n ≤ 2022) {c : Nat} (hc : 2 ≤ c) (hc' : c ≤ 2032) :
    nextOf (mkFs set) (imageDisk image) c = mkNext n c := by
  have hdata : InData (mkFs set) c := mkFs_inData hc hc'
  have hsector := (hdata.fatSector mkFs_mounted (k := 0) mkFs_mounted.fats_pos).1
  unfold nextOf fatAt
  rw [hsector, hdata.entryOffset]
  show le32 (imageDisk image (1 + 0 * 16 + c / 128)) (c % 128 * 4) % clusterRange = _
  rw [le32_imageDisk (by omega)]
  have hplace : (1 + 0 * 16 + c / 128) * 512 + c % 128 * 4 = mkFatBase + c * 4 := by
    have hbase : mkFatBase = 512 := rfl
    omega
  rw [hplace, h.fat c hc (by omega)]
  exact Nat.mod_eq_of_lt (mkNext_lt hn c)

theorem ImageBuilt.root_chain (h : ImageBuilt image payload n) (hn : n ≤ 2022) :
    Chain (nextOf (mkFs set) (imageDisk image)) Eoc 2 [2] := by
  refine .step (by decide) (.done ?_)
  rw [h.next hn le_rfl (by decide)]
  unfold mkNext mkFileFirstCluster mkEditClusterCount
  rw [if_neg (by omega), if_neg (by omega), if_pos (show 2 = mkRootCluster from rfl)]
  decide

theorem ImageBuilt.shell_chain (h : ImageBuilt image payload n) (hpos : 0 < n) (hn : n ≤ 2022) :
    Chain (nextOf (mkFs set) (imageDisk image)) Eoc 3 (List.range' 3 n) := by
  refine chain_range' hpos (by unfold clusterEoc; omega) fun i hi => ?_
  rw [h.next hn (by omega) (by omega)]
  unfold mkNext mkFileFirstCluster mkEditClusterCount
  rw [if_neg (by omega), if_pos (by omega), Nat.add_sub_cancel_left]

theorem ImageBuilt.edit_chain (h : ImageBuilt image payload n) (hn : n ≤ 2022) :
    Chain (nextOf (mkFs set) (imageDisk image)) Eoc (3 + n) (List.range' (3 + n) 8) := by
  refine chain_range' (by decide) (by unfold clusterEoc; omega) fun i hi => ?_
  rw [h.next hn (by omega) (by omega)]
  unfold mkNext mkFileFirstCluster mkEditClusterCount
  rw [if_pos (by omega), Nat.add_sub_cancel_left]

/-- The fields of an entry as the driver reads them. -/
theorem EntryStored.fields (off : Nat) {first size : Nat} {name : List UInt8}
    (h : EntryStored image (mkRootBase + off) name first size) (hoff : off + 32 ≤ 512) (hname : name.length = 11) :
    entryMark (imageDisk image 17) off = name.getD 0 0 ∧ entryAttr (imageDisk image 17) off = 0x20 ∧
      entryName (imageDisk image 17) off = name ∧ entryFirst (imageDisk image 17) off = first % 2 ^ 16 ∧
      entrySize (imageDisk image 17) off = size % 2 ^ 32 := by
  have hroot : mkRootBase = 17 * 512 := rfl
  rw [hroot] at h
  have hbyte : ∀ i < 32, (imageDisk image 17).byte (off + i) = image (17 * 512 + off + i) := fun i hi => by
    rw [byte_imageDisk (by omega), Nat.add_assoc]
  refine ⟨?_, ?_, ?_, ?_, ?_⟩
  · exact (hbyte 0 (by decide)).trans (h.name 0 (by decide))
  · exact (hbyte 11 (by decide)).trans h.attr
  · refine List.ext_getElem (by simp [entryName, hname]) fun i hi hi' => ?_
    have hi11 : i < 11 := by rw [← hname]; exact hi'
    simp only [entryName, List.getElem_map, List.getElem_range]
    rw [hbyte i (by omega), h.name i hi11, List.getD_eq_getElem _ _ hi']
  · unfold entryFirst
    rw [le16_imageDisk (by omega), le16_imageDisk (by omega), ← Nat.add_assoc, ← Nat.add_assoc, h.high, h.low]
    omega
  · unfold entrySize
    rw [le32_imageDisk (by omega), ← Nat.add_assoc, h.size]

/-- The entry of `SHELL.BIN`. -/
def shellSlot : Slot := ⟨17, 0⟩

/-- The entry of `EDIT.TXT`. -/
def editFileSlot : Slot := ⟨17, 32⟩

theorem mkFs_slots : slotsOf (mkFs set) [2] = entryOffsets.map (Slot.mk 17) := by
  cases set <;> decide

theorem ImageBuilt.shell_fields (h : ImageBuilt image payload n) (hsmall : payload.length < 2 ^ 32) :
    entryMark (imageDisk image 17) 0 = 83 ∧ entryAttr (imageDisk image 17) 0 = 0x20 ∧
      entryName (imageDisk image 17) 0 = mkShellName ∧ slotFirst (imageDisk image) shellSlot = 3 ∧
      slotSize (imageDisk image) shellSlot = payload.length := by
  obtain ⟨hmark, hattr, hname, hfirst, hsize⟩ := EntryStored.fields 0 h.shell (by decide) length_mkShellName
  exact ⟨hmark, hattr, hname, hfirst, hsize.trans (Nat.mod_eq_of_lt hsmall)⟩

theorem ImageBuilt.edit_fields (h : ImageBuilt image payload n) (hn : n ≤ 2022) :
    entryMark (imageDisk image 17) 32 = 69 ∧ entryAttr (imageDisk image 17) 32 = 0x20 ∧
      entryName (imageDisk image 17) 32 = mkEditName ∧ slotFirst (imageDisk image) editFileSlot = 3 + n ∧
      slotSize (imageDisk image) editFileSlot = 29 := by
  obtain ⟨hmark, hattr, hname, hfirst, hsize⟩ := EntryStored.fields 32 h.edit (by decide) length_mkEditName
  refine ⟨hmark, hattr, hname, hfirst.trans (Nat.mod_eq_of_lt ?_), hsize⟩
  unfold mkFileFirstCluster
  omega

/-- The other entries are end marks. -/
theorem ImageBuilt.free_mark (h : ImageBuilt image payload n) {off : Nat} (hoff : 64 ≤ off) (hoff' : off < 512) :
    entryMark (imageDisk image 17) off = 0 := by
  have hroot : mkRootBase = 8704 := rfl
  have hdata : mkClusterBase 3 = 9216 := rfl
  unfold entryMark
  rw [byte_imageDisk hoff']
  exact h.free _ (by omega) (by omega)

theorem ImageBuilt.live (h : ImageBuilt image payload n) {s : Slot} (hs : s ∈ slotsOf (mkFs set) [2])
    (hlive : Live (imageDisk image) s) : s = shellSlot ∨ s = editFileSlot := by
  rw [mkFs_slots] at hs
  obtain ⟨off, hoff, rfl⟩ := List.mem_map.mp hs
  obtain ⟨i, hi, rfl⟩ := mem_entryOffsets.mp hoff
  have hcases : i = 0 ∨ i = 1 ∨ 64 ≤ 32 * i := by omega
  rcases hcases with rfl | rfl | hfree
  · exact .inl rfl
  · exact .inr rfl
  · exact absurd (h.free_mark hfree (by omega)) hlive.1

theorem ImageBuilt.heads (h : ImageBuilt image payload n) (hn : n ≤ 2022) (hsmall : payload.length < 2 ^ 32)
    {sel : UInt8 → Bool} {i : Option Slot} {a : Nat} (hi : heads (mkFs set) sel [2] (imageDisk image) i = some a) :
    (i = none ∧ a = 2) ∨ (i = some shellSlot ∧ a = 3) ∨ (i = some editFileSlot ∧ a = 3 + n) := by
  rcases i with _ | s
  · cases hi
    exact .inl ⟨rfl, rfl⟩
  · obtain ⟨hs, hlive, -, -, ha⟩ := heads_some.mp hi
    rcases h.live hs hlive with rfl | rfl
    · exact .inr (.inl ⟨rfl, ha.symm.trans (h.shell_fields hsmall).2.2.2.1⟩)
    · exact .inr (.inr ⟨rfl, ha.symm.trans (h.edit_fields hn).2.2.2.1⟩)

theorem ImageBuilt.wellFormed (h : ImageBuilt image payload n) (hpos : 0 < n) (hn : n ≤ 2022)
    (hsmall : payload.length < 2 ^ 32) : WellFormed (mkFs set) [2] (imageDisk image) := by
  have hroot : Chain (nextOf (mkFs set) (imageDisk image)) Eoc 2 [2] := h.root_chain hn
  have hshell : Chain (nextOf (mkFs set) (imageDisk image)) Eoc 3 (List.range' 3 n) := h.shell_chain hpos hn
  have hedit : Chain (nextOf (mkFs set) (imageDisk image)) Eoc (3 + n) (List.range' (3 + n) 8) := h.edit_chain hn
  -- the chain of each head
  have hchain : ∀ {sel i a l}, Armonios.heads (mkFs set) sel [2] (imageDisk image) i = some a →
      Chain (nextOf (mkFs set) (imageDisk image)) Eoc a l →
      (i = none ∧ l = [2]) ∨ (i = some shellSlot ∧ l = List.range' 3 n) ∨
        (i = some editFileSlot ∧ l = List.range' (3 + n) 8) := by
    intro sel i a l hi hl
    rcases h.heads hn hsmall hi with ⟨rfl, rfl⟩ | ⟨rfl, rfl⟩ | ⟨rfl, rfl⟩
    · exact .inl ⟨rfl, hl.unique hroot⟩
    · exact .inr (.inl ⟨rfl, hl.unique hshell⟩)
    · exact .inr (.inr ⟨rfl, hl.unique hedit⟩)
  refine ⟨⟨mkFs_mounted, hroot, fun {i a} hi => ?_, fun {i a} hi => ?_,
    fun {i k a b l m} hik hi hk hl hm x hx hx' => ?_⟩, ?_⟩
  · rcases h.heads hn hsmall hi with ⟨-, rfl⟩ | ⟨-, rfl⟩ | ⟨-, rfl⟩
    · decide
    · decide
    · unfold Eoc clusterEoc
      omega
  · rcases h.heads hn hsmall hi with ⟨-, rfl⟩ | ⟨-, rfl⟩ | ⟨-, rfl⟩
    · refine ⟨_, hroot, fun x hx => ?_⟩
      rw [List.mem_singleton.mp hx]
      exact mkFs_inData le_rfl (by decide)
    · refine ⟨_, hshell, fun x hx => ?_⟩
      rw [List.mem_range'_1] at hx
      exact mkFs_inData (by omega) (by omega)
    · refine ⟨_, hedit, fun x hx => ?_⟩
      rw [List.mem_range'_1] at hx
      exact mkFs_inData (by omega) (by omega)
  · have hlow : ∀ y ∈ [2], y < 3 := by decide
    rcases hchain hi hl with ⟨rfl, rfl⟩ | ⟨rfl, rfl⟩ | ⟨rfl, rfl⟩ <;>
      rcases hchain hk hm with ⟨rfl, rfl⟩ | ⟨rfl, rfl⟩ | ⟨rfl, rfl⟩ <;>
        simp only [List.mem_singleton, List.mem_range'_1] at hx hx' <;> first | exact hik rfl | omega
  · intro k hk i hi
    have hk' : k = 0 := Nat.lt_one_iff.mp hk
    rw [hk', Nat.zero_mul, Nat.add_zero]

/-! ## The files -/

theorem bytes_imageDisk (image : DiskImage) (lba : Nat) :
    (imageDisk image lba).bytes = (List.range 512).map fun j => image (lba * 512 + j) := by
  refine List.ext_getElem (by rw [Sector.length_bytes]; simp) fun i hi hi' => ?_
  rw [Sector.getElem_bytes, byte_imageDisk (by rw [← Sector.length_bytes]; exact hi), List.getElem_map,
    List.getElem_range]

theorem chainBytes_image (m : Nat) {c : Nat} (hc : 2 ≤ c) :
    chainBytes (mkFs set) (imageDisk image) (List.range' c m) =
      (List.range (m * 512)).map fun j => image (mkClusterBase c + j) := by
  induction m generalizing c with
  | zero => simp [chainBytes, chainLbas, lbaBytes]
  | succ m ih =>
    have hcell : lbaBytes (imageDisk image) (cellLbas (mkFs set) c) = (imageDisk image (17 + (c - 2))).bytes := by
      simp [lbaBytes, cellLbas, lbaOf, dataBase, mkFs]
    have hnext : ∀ j, mkClusterBase (c + 1) + j = mkClusterBase c + (512 + j) := by
      intro j
      unfold mkClusterBase mkDataStart mkReservedSectors mkFatSectors mkRootCluster
      omega
    rw [List.range'_succ, chainBytes_cons, hcell, bytes_imageDisk, ih (by omega),
      show (m + 1) * 512 = 512 + m * 512 by omega, List.range_add, List.map_append, List.map_map]
    simp only [hnext]
    rfl

/-- The first bytes of a chain are those of a text that stands there. -/
theorem take_chainBytes {m c : Nat} (hc : 2 ≤ c) {text : List UInt8} (hroom : text.length ≤ m * 512)
    (htext : ∀ j < text.length, image (mkClusterBase c + j) = text.getD j 0) :
    (chainBytes (mkFs set) (imageDisk image) (List.range' c m)).take text.length = text := by
  rw [chainBytes_image m hc]
  refine List.ext_getElem (by simp; omega) fun j hj hj' => ?_
  rw [List.getElem_take, List.getElem_map, List.getElem_range, htext j hj', List.getD_eq_getElem _ _ hj']

theorem ImageBuilt.openable_shell (h : ImageBuilt image payload n) (hpos : 0 < n) (hn : n ≤ 2022)
    (hsmall : payload.length < 2 ^ 32) :
    Openable (mkFs set) [2] (imageDisk image) ("SHELL.BIN".toList.map (fun c => c.toNat.toUInt8)) shellSlot
      (List.range' 3 n) := by
  obtain ⟨hmark, hattr, hname, hfirst, -⟩ := h.shell_fields hsmall
  refine ⟨⟨mkShellName, by decide, findEntry_eq_some.mpr ⟨⟨⟨?_, ?_, ?_⟩, ?_, hname⟩, [], _, mkFs_slots, by simp⟩⟩,
    .inl ⟨by rw [hfirst]; decide, by rw [hfirst]; exact h.shell_chain hpos hn⟩, .inr (by rw [hfirst]; decide), ?_⟩
  · exact fun he => absurd (hmark.symm.trans he) (by decide)
  · exact fun he => absurd (hmark.symm.trans he) (by decide)
  · exact fun he => absurd (hattr.symm.trans he) (by decide)
  · exact (congrArg isFile hattr).trans (by decide)
  · rw [List.length_range']
    show n * (1 * 512) ≤ _
    omega

theorem ImageBuilt.openable_edit (h : ImageBuilt image payload n) (hn : n ≤ 2022) (hsmall : payload.length < 2 ^ 32) :
    Openable (mkFs set) [2] (imageDisk image) ("EDIT.TXT".toList.map (fun c => c.toNat.toUInt8)) editFileSlot
      (List.range' (3 + n) 8) := by
  obtain ⟨hmark, hattr, hname, hfirst, -⟩ := h.edit_fields hn
  obtain ⟨hshellMark, -, hshellName, -, -⟩ := h.shell_fields hsmall
  refine ⟨⟨mkEditName, by decide, findEntry_eq_some.mpr ⟨⟨⟨?_, ?_, ?_⟩, ?_, hname⟩, [shellSlot], _, mkFs_slots, ?_⟩⟩,
    .inl ⟨by rw [hfirst]; omega, by rw [hfirst]; exact h.edit_chain hn⟩, .inr (by rw [hfirst]; omega), ?_⟩
  · exact fun he => absurd (hmark.symm.trans he) (by decide)
  · exact fun he => absurd (hmark.symm.trans he) (by decide)
  · exact fun he => absurd (hattr.symm.trans he) (by decide)
  · exact (congrArg isFile hattr).trans (by decide)
  · intro u hu
    rw [List.mem_singleton.mp hu]
    refine ⟨fun he => absurd (hshellMark.symm.trans he) (by decide), fun hhit => ?_⟩
    exact absurd (hshellName.symm.trans hhit.2.2) (by decide)
  · rw [List.length_range']
    show 8 * (1 * 512) ≤ _
    decide

theorem ImageBuilt.listing (h : ImageBuilt image payload n) (hn : n ≤ 2022) (hsmall : payload.length < 2 ^ 32) :
    shownLines (imageDisk image) (slotsOf (mkFs set) [2]) =
      ["SHELL.BIN".toList.map (fun c => c.toNat.toUInt8), "EDIT.TXT".toList.map (fun c => c.toNat.toUInt8)] := by
  obtain ⟨hmark, hattr, hname, -, -⟩ := h.edit_fields hn
  obtain ⟨hshellMark, hshellAttr, hshellName, -, -⟩ := h.shell_fields hsmall
  have hslots : slotsOf (mkFs set) [2] =
      shellSlot :: editFileSlot :: ⟨17, 64⟩ :: (entryOffsets.drop 3).map (Slot.mk 17) := mkFs_slots
  have hend : EndMark (imageDisk image) ⟨17, 64⟩ := h.free_mark (by decide) (by decide)
  have hshellEnd : ¬ EndMark (imageDisk image) shellSlot := fun he => absurd (hshellMark.symm.trans he) (by decide)
  have heditEnd : ¬ EndMark (imageDisk image) editFileSlot := fun he => absurd (hmark.symm.trans he) (by decide)
  have hbefore : beforeEnd (imageDisk image) (slotsOf (mkFs set) [2]) = [shellSlot, editFileSlot] := by
    rw [hslots, beforeEnd_cons, if_neg hshellEnd, beforeEnd_cons, if_neg heditEnd, beforeEnd_cons, if_pos hend]
  have hlisted : ∀ s ∈ [shellSlot, editFileSlot], Listed (imageDisk image) s := by
    intro s hs
    unfold Listed Live
    rcases List.mem_pair.mp hs with rfl | rfl
    · rw [show shellSlot.lba = 17 from rfl, show shellSlot.offset = 0 from rfl, hshellMark, hshellAttr]
      decide
    · rw [show editFileSlot.lba = 17 from rfl, show editFileSlot.offset = 32 from rfl, hmark, hattr]
      decide
  unfold shownLines
  rw [hbefore, List.filter_eq_self.mpr fun s hs => decide_eq_true (hlisted s hs)]
  have hshellLine : entryLine (imageDisk image) shellSlot = "SHELL.BIN".toList.map (fun c => c.toNat.toUInt8) := by
    unfold entryLine listLine
    rw [show shellSlot.lba = 17 from rfl, show shellSlot.offset = 0 from rfl, hshellName, hshellAttr]
    decide
  have heditLine : entryLine (imageDisk image) editFileSlot = "EDIT.TXT".toList.map (fun c => c.toNat.toUInt8) := by
    unfold entryLine listLine
    rw [show editFileSlot.lba = 17 from rfl, show editFileSlot.offset = 32 from rfl, hname, hattr]
    decide
  rw [List.map_cons, List.map_cons, List.map_nil, hshellLine, heditLine]

end Volume

/-- The file of a name has these bytes, and room for `capacity`. -/
def HasFile (fs : Fat32Fs) (d : Dev) (name contents : List UInt8) (capacity : Nat) : Prop :=
  ∃ file, fat32OpenRoot fs name d = .ok file d ∧ file.size = contents.length ∧ file.capacity = capacity ∧
    ∀ o cap, o ≤ contents.length → fat32Read fs file o cap d = .ok ((contents.drop o).take cap) d

theorem HasFile.of_openable {fs : Fat32Fs} {d : Dev} {name contents : List UInt8} {r l : List Nat} {s : Slot}
    (hwf : WellFormed fs r d.disk) (hd : d.fault = none) (ho : Openable fs r d.disk name s l)
    (hl : ∀ x ∈ l, InData fs x) (hsize : slotSize d.disk s = contents.length)
    (hlong : contents.length ≤ l.length * clusterBytesOf fs)
    (hbytes : (chainBytes fs d.disk l).take contents.length = contents) :
    HasFile fs d name contents (l.length * clusterBytesOf fs) := by
  refine ⟨_, openRoot_returns hwf.volume allLive_selectsFiles hd ho, hsize, rfl, fun o cap hoff => ?_⟩
  have hread : fat32Read fs (handleOf fs d.disk s l) o cap d = .ok (((fileBytes fs d.disk s l).drop o).take cap) d :=
    read_returns hwf.volume.geometry hd rfl rfl ho.chain hl (by rw [hsize]; exact hlong) (by rw [hsize]; exact hoff)
  unfold fileBytes at hread
  rwa [hsize, hbytes] at hread

/-- Every image that the tool makes of a file whose size is no multiple of `2^32`: the driver mounts it, it is a
well-formed volume and stays one in every run of calls, its listing has the two files, and these have the bytes of the
input (of which the tool takes as many as the low 32 bits of its size say) and the text. -/
theorem mkfat32Image_mounts {input : List UInt8} {image : DiskImage} (h : mkfat32Image input = some image)
    (hsize : input.length % 2 ^ 32 ≠ 0) (set : Bool) :
    let d : Dev := ⟨imageDisk image, none⟩
    let fs := fat32SetWriteSector (mkFs false) set
    let payload := input.take (input.length % 2 ^ 32)
    fat32Mount d = .ok (mkFs false) d ∧
      (∀ st, Run (callsStep fs [2]) ⟨d, ∅⟩ st → WellFormed fs [2] st.dev.disk) ∧
      Lists fs d ("SHELL.BIN\nEDIT.TXT\n".toList.map (fun c => c.toNat.toUInt8)) ∧
      HasFile fs d ("SHELL.BIN".toList.map (fun c => c.toNat.toUInt8)) payload ((payload.length + 511) / 512 * 512) ∧
      HasFile fs d ("EDIT.TXT".toList.map (fun c => c.toNat.toUInt8)) mkEditText 4096 := by
  intro d fs payload
  obtain ⟨hbuilt, hmax⟩ := mkfat32Image_built h
  have hlen : payload.length = input.length % 2 ^ 32 := by
    rw [List.length_take]
    exact min_eq_left (Nat.mod_le _ _)
  change ImageBuilt image payload _ at hbuilt
  rw [← hlen] at hbuilt hmax hsize
  have hmax' : payload.length ≤ 1035264 := hmax
  have hsmall : payload.length < 2 ^ 32 := by omega
  have hdiv := Nat.div_add_mod (payload.length + 511) 512
  have hmod := Nat.mod_lt (payload.length + 511) (show 0 < 512 by decide)
  generalize (payload.length + 511) % 512 = m at hdiv hmod
  generalize (payload.length + 511) / 512 = n at hbuilt hdiv ⊢
  have hpos : 0 < n := by omega
  have hn : n ≤ 2022 := by omega
  have hwf : WellFormed fs [2] d.disk := hbuilt.wellFormed hpos hn hsmall
  have hcluster : clusterBytesOf fs = 512 := clusterBytesOf_mkFs
  refine ⟨?_, fun st hrun => ?_, ?_, ?_, ?_⟩
  · have hboot : imageDisk image 0 = imageDisk (writeBootSector fun _ => 0) 0 := by
      refine Sector.ext (funext fun i => ?_)
      exact hbuilt.boot _ (by rw [Nat.zero_mul, Nat.zero_add]; exact i.isLt)
    have hspec := fat32Mount_spec d
    have hquiet := fat32Mount_quiet d rfl
    have haccepted : BootAccepted (d.disk 0) := by
      show BootAccepted (imageDisk image 0)
      rw [hboot]
      exact bootSector_accepted
    cases hrun : fat32Mount d with
    | ok geometry d' =>
      obtain ⟨-, rfl⟩ := hspec.of_ok hrun
      rw [hquiet.of_ok hrun, show d.disk 0 = imageDisk image 0 from rfl, hboot, bootSector_geometry]
    | error e d' =>
      rcases hspec.of_error hrun with hno | hno
      · exact absurd rfl hno
      · exact absurd haccepted hno
  · have hstart : CallsOk fs [2] ⟨d, ∅⟩ := ⟨hwf, rfl, fun x hx => hx.elim⟩
    exact (hrun.invariant (CallsOk fs [2]) (fun _ _ => callsStep_wellFormed) hstart).wellFormed
  · refine (lists_iff hwf.volume rfl).mpr ?_
    rw [show shownLines d.disk (slotsOf fs [2]) = _ from hbuilt.listing hn hsmall]
    decide
  · have hcapacity : n * 512 = (List.range' 3 n).length * clusterBytesOf fs := by rw [List.length_range', hcluster]
    rw [hcapacity]
    refine HasFile.of_openable hwf rfl (hbuilt.openable_shell hpos hn hsmall) (fun x hx => ?_)
      (hbuilt.shell_fields hsmall).2.2.2.2 ?_ ?_
    · rw [List.mem_range'_1] at hx
      exact mkFs_inData (by omega) (by omega)
    · rw [List.length_range', hcluster]
      omega
    · exact take_chainBytes (by decide) (by omega) hbuilt.payload
  · have hcapacity : 4096 = (List.range' (3 + n) 8).length * clusterBytesOf fs := by rw [List.length_range', hcluster]
    rw [hcapacity]
    refine HasFile.of_openable hwf rfl (hbuilt.openable_edit hn hsmall) (fun x hx => ?_)
      (hbuilt.edit_fields hn).2.2.2.2 ?_ ?_
    · rw [List.mem_range'_1] at hx
      exact mkFs_inData (by omega) (by omega)
    · rw [List.length_range', hcluster]
      decide
    · exact take_chainBytes (by omega) (by decide) hbuilt.text

/-- An image of a program of two bytes. -/
theorem mkfat32Image_mounts_sample : ∃ image, mkfat32Image [7, 9] = some image ∧
    HasFile (mkFs false) ⟨imageDisk image, none⟩ ("SHELL.BIN".toList.map (fun c => c.toNat.toUInt8)) [7, 9] 512 := by
  have hbuild : ∃ image, mkfat32Image [7, 9] = some image := ⟨_, rfl⟩
  obtain ⟨image, hbuild⟩ := hbuild
  obtain ⟨-, -, -, hshell, -⟩ := mkfat32Image_mounts hbuild (by decide) false
  exact ⟨image, hbuild, hshell⟩

end Armonios
