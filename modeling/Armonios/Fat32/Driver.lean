import Armonios.Fat32.Table
import Armonios.Fat32.Name

/-!
# The FAT32 root directory driver

The operations of `kernel/fat32.c` on the root directory and its files: mount, open, list, read,
write, create, delete and rename. The scratch sectors of `fat32_fs_t` are filled before every use,
so they are local values here. `fat32_write` changes its handle while it runs, also when it fails
later: it runs on the handle and the device together (`FileIo`).
-/

namespace Armonios

/-! ## Mounting -/

def fat32Mount : Io Fat32Fs := do
  callback .boot 0
  let sector := (← get).disk 0
  let bytesPerSector := le16 sector 11
  let sectorsPerCluster := (sector.byte 13).toNat
  let reserved := le16 sector 14
  let fatCount := (sector.byte 16).toNat
  let rootEntries := le16 sector 17
  let total16 := le16 sector 19
  let totalSectors := if total16 = 0 then le32 sector 32 else total16
  let sectorsPerFat := le32 sector 36
  let rootCluster := le32 sector 44
  if bytesPerSector ≠ 512 ∨ sectorsPerCluster = 0 ∨ reserved = 0 ∨ fatCount = 0 ∨ rootEntries ≠ 0 ∨
      totalSectors = 0 ∨ sectorsPerFat = 0 ∨ rootCluster < 2 then throw .fail
  let dataStart := (reserved + fatCount * sectorsPerFat) % 2 ^ 32
  if totalSectors ≤ dataStart then throw .fail
  return { bytesPerSector, sectorsPerCluster, reservedSectors := reserved, fatCount, sectorsPerFat,
           totalSectors, fatStartLba := reserved, dataStartLba := dataStart, rootCluster,
           mounted := true, writable := false }

def fat32SetWriteSector (fs : Fat32Fs) (set : Bool) : Fat32Fs := { fs with writable := set }

/-! ## Directory entries -/

/-- The place of a directory entry. -/
structure Slot where
  lba : Nat
  offset : Nat
  deriving DecidableEq, Repr

def attrVolumeId : UInt8 := 0x08
def attrDirectory : UInt8 := 0x10
def attrLongName : UInt8 := 0x0f

/-- The first byte of the entry at `off`, its attributes, its name, its first cluster, its size. -/
def entryMark (s : Sector) (off : Nat) : UInt8 := s.byte off

def entryAttr (s : Sector) (off : Nat) : UInt8 := s.byte (off + 11)

def entryName (s : Sector) (off : Nat) : List UInt8 := (List.range 11).map fun i => s.byte (off + i)

def entryFirst (s : Sector) (off : Nat) : Nat := le16 s (off + 20) * 2 ^ 16 + le16 s (off + 26)

def entrySize (s : Sector) (off : Nat) : Nat := le32 s (off + 28)

/-- What a search says of one directory entry: go on, or leave the search. -/
inductive Scan (σ α : Type)
  | next (s : σ)
  | exit (a : α)

/-- The offsets of the entries of a sector. -/
def entryOffsets : List Nat := (List.range 16).map (32 * ·)

/-- The inner loop of the searches: the entries of one sector. -/
def scanEntries {σ α : Type} (visit : σ → Slot → Sector → Scan σ α) (lba : Nat) (sector : Sector) :
    List Nat → σ → Scan σ α
  | [], st => .next st
  | off :: offs, st =>
    match visit st ⟨lba, off⟩ sector with
    | .next st => scanEntries visit lba sector offs st
    | .exit a => .exit a

/-- The loop over the sectors of one cluster. -/
def scanSectors {σ α : Type} (fs : Fat32Fs) (visit : σ → Slot → Sector → Scan σ α) (cluster : Nat) :
    List Nat → σ → Io (Scan σ α)
  | [], st => return .next st
  | i :: is, st => do
    let lba := (clusterToLba fs cluster + i) % 2 ^ 32
    let sector ← readSector fs .dirScan lba
    match scanEntries visit lba sector entryOffsets st with
    | .next st => scanSectors fs visit cluster is st
    | .exit a => return .exit a

/-- The loop over the clusters of the root directory that `fat32_open_root`, `fat32_list_root` and
`find_free_dir_entry` have in common. -/
def scanClusters {σ α : Type} (fs : Fat32Fs) (visit : σ → Slot → Sector → Scan σ α) :
    Nat → Nat → σ → Io (Scan σ α)
  | 0, _, _ => throw .hang
  | fuel + 1, cluster, st =>
    if 2 ≤ cluster ∧ clusterIsEoc cluster = false then do
      match ← scanSectors fs visit cluster (List.range fs.sectorsPerCluster) st with
      | .next st =>
        let next ← readFatEntry fs .lookup cluster
        scanClusters fs visit fuel next st
      | .exit a => return .exit a
    else return .next st

def scanRoot {σ α : Type} (fs : Fat32Fs) (visit : σ → Slot → Sector → Scan σ α) (st : σ) :
    Io (Scan σ α) :=
  scanClusters fs visit walkFuel fs.rootCluster st

/-- What `fat32_open_root` does with an entry: the end mark and a hit leave the search. -/
def openVisit (wanted : List UInt8) (_ : Unit) (slot : Slot) (s : Sector) :
    Scan Unit (Option (Slot × Sector)) :=
  if entryMark s slot.offset = 0x00 then .exit none
  else if entryMark s slot.offset = 0xe5 ∨ entryAttr s slot.offset = attrLongName ∨
      entryAttr s slot.offset &&& attrDirectory ≠ 0 then .next ()
  else if entryName s slot.offset ≠ wanted then .next ()
  else .exit (some (slot, s))

/-- The handle that `fat32_open_root` fills from the entry it has found. -/
def openEntry (fs : Fat32Fs) (slot : Slot) (sector : Sector) : Io Fat32File := do
  let first := entryFirst sector slot.offset
  let size := entrySize sector slot.offset
  if size ≠ 0 ∧ first < 2 then throw .fail
  let capacity ← if 2 ≤ first then fileChainCapacity fs first else pure 0
  return { firstCluster := first, dirLba := slot.lba, dirOffset := slot.offset, capacity, size }

def fat32OpenRoot (fs : Fat32Fs) (name : List UInt8) : Io Fat32File := do
  if fs.mounted = false then throw .fail
  match makeShortName name with
  | none => throw .fail
  | some wanted =>
    match ← scanRoot fs (openVisit wanted) () with
    | .exit (some (slot, sector)) => openEntry fs slot sector
    | .exit none => throw .fail
    | .next _ => throw .fail

/-! ## Listing -/

/-- `append_short_name` without its bound: the line of an entry. -/
def listLine (s : Sector) (off : Nat) : List UInt8 :=
  let trim (l : List UInt8) := (l.reverse.dropWhile (· = 32)).reverse
  let base := trim ((entryName s off).take 8)
  let ext := trim ((entryName s off).drop 8)
  base ++ (if ext = [] then [] else 46 :: ext) ++
    (if entryAttr s off &&& attrDirectory ≠ 0 then [47] else []) ++ [10]

/-- A visit of `fat32_list_root`: a line that does not fit is cut at `capacity` and ends the
listing. -/
def listVisit (capacity : Nat) (out : List UInt8) (slot : Slot) (s : Sector) :
    Scan (List UInt8) (List UInt8) :=
  if entryMark s slot.offset = 0x00 then .exit out
  else if entryMark s slot.offset = 0xe5 ∨ entryAttr s slot.offset = attrLongName ∨
      entryAttr s slot.offset &&& attrVolumeId ≠ 0 then .next out
  else
    let line := listLine s slot.offset
    if capacity < out.length + line.length then .exit ((out ++ line).take capacity)
    else .next (out ++ line)

def fat32ListRoot (fs : Fat32Fs) (capacity : Nat) : Io (List UInt8) := do
  if fs.mounted = false then throw .fail
  match ← scanRoot fs (listVisit capacity) [] with
  | .exit out => return out
  | .next out => return out

/-! ## Reading -/

/-- `while (skip >= cluster_size)` of `fat32_read`. -/
def readSkip (fs : Fat32Fs) : Nat → Nat → Nat → Io (Nat × Nat)
  | 0, _, _ => throw .hang
  | fuel + 1, skip, cluster =>
    if clusterBytesOf fs ≤ skip then do
      let next ← readFatEntry fs .lookup cluster
      if clusterIsEoc next = true ∨ next < 2 then throw .fail
      readSkip fs fuel (skip - clusterBytesOf fs) next
    else return (skip, cluster)

/-- The sectors of one cluster: the bytes read, with `remaining` bytes wanted from
`clusterOffset` on. -/
def readSectors (fs : Fat32Fs) (cluster : Nat) : List Nat → Nat → Nat → Io (List UInt8)
  | [], _, _ => return []
  | i :: is, clusterOffset, remaining =>
    if remaining = 0 then return []
    else if 512 ≤ clusterOffset then readSectors fs cluster is (clusterOffset - 512) remaining
    else do
      let sector ← readSector fs .dataRead ((clusterToLba fs cluster + i) % 2 ^ 32)
      let part := (sector.bytes.drop clusterOffset).take remaining
      let rest ← readSectors fs cluster is 0 (remaining - part.length)
      return part ++ rest

/-- `while (remaining > 0)` of `fat32_read`. -/
def readLoop (fs : Fat32Fs) : Nat → Nat → Nat → Nat → Io (List UInt8)
  | 0, _, _, _ => throw .hang
  | fuel + 1, skip, remaining, cluster =>
    if remaining = 0 then return []
    else do
      let part ← readSectors fs cluster (List.range fs.sectorsPerCluster) skip remaining
      if remaining - part.length = 0 then return part
      let next ← readFatEntry fs .lookup cluster
      if clusterIsEoc next = true ∨ next < 2 then throw .fail
      let rest ← readLoop fs fuel 0 (remaining - part.length) next
      return part ++ rest

def fat32Read (fs : Fat32Fs) (file : Fat32File) (offset capacity : Nat) : Io (List UInt8) := do
  if fs.mounted = false ∨ file.size < offset then throw .fail
  let remaining := min (file.size - offset) capacity
  if remaining = 0 then return []
  if file.firstCluster < 2 then throw .fail
  let (skip, cluster) ← readSkip fs walkFuel offset file.firstCluster
  readLoop fs walkFuel skip remaining cluster

/-! ## Writing -/

/-- The handle and the device. -/
structure OpenFile where
  file : Fat32File
  dev : Dev

abbrev FileIo := EStateM Err OpenFile

def onDev {α : Type} (m : Io α) : FileIo α := onPart (·.dev) (fun t d => { t with dev := d }) m

def modifyFile (f : Fat32File → Fat32File) : FileIo Unit := modify fun t => { t with file := f t.file }

/-- A read-modify-write of the directory entry of a handle: `edits` are the bytes stored, each with
its offset in the entry. -/
def patchSlot (fs : Fat32Fs) (use : SlotUse) (slot : Slot) (edits : List (Nat × List UInt8)) :
    Io Unit := do
  let sector ← readSector fs (.slotRead use) slot.lba
  writeSector fs (.slotWrite use) slot.lba
    (edits.foldl (fun s e => s.patch (slot.offset + e.1) e.2) sector)

def advanceOrAllocateCluster (fs : Fat32Fs) (clusterSize cluster : Nat) : FileIo Nat := do
  if cluster < 2 then throw .fail
  let next ← onDev (readFatEntry fs .lookup cluster)
  if clusterIsEoc next then
    let file := (← get).file
    if 0xffffffff < clusterSize ∨ 0xffffffff - clusterSize < file.capacity then throw .fail
    let newCluster ← onDev (allocateCluster fs cluster)
    modifyFile fun f => { f with capacity := f.capacity + clusterSize }
    return newCluster
  else if next < 2 then throw .fail
  else return next

/-- `while (skip >= cluster_size)` of `fat32_write`. -/
def writeSkip (fs : Fat32Fs) : Nat → Nat → Nat → FileIo (Nat × Nat)
  | 0, _, _ => throw .hang
  | fuel + 1, skip, cluster =>
    if clusterBytesOf fs ≤ skip then do
      let next ← advanceOrAllocateCluster fs (clusterBytesOf fs) cluster
      writeSkip fs fuel (skip - clusterBytesOf fs) next
    else return (skip, cluster)

/-- The sectors of one cluster; returns what is left of the buffer. -/
def writeSectors (fs : Fat32Fs) (cluster : Nat) :
    List Nat → Nat → List UInt8 → Io (List UInt8)
  | [], _, rest => return rest
  | i :: is, clusterOffset, rest =>
    if rest = [] then return rest
    else if 512 ≤ clusterOffset then writeSectors fs cluster is (clusterOffset - 512) rest
    else do
      let lba := (clusterToLba fs cluster + i) % 2 ^ 32
      let sector ← readSector fs .dataRead lba
      let count := min (512 - clusterOffset) rest.length
      writeSector fs .dataWrite lba (sector.patch clusterOffset (rest.take count))
      writeSectors fs cluster is 0 (rest.drop count)

/-- `while (remaining > 0)` of `fat32_write`. -/
def writeLoop (fs : Fat32Fs) : Nat → Nat → List UInt8 → Nat → FileIo Unit
  | 0, _, _, _ => throw .hang
  | fuel + 1, skip, rest, cluster =>
    if rest = [] then return ()
    else if cluster < 2 ∨ clusterIsEoc cluster = true then throw .fail
    else do
      let rest ← onDev (writeSectors fs cluster (List.range fs.sectorsPerCluster) skip rest)
      if rest = [] then return ()
      let next ← advanceOrAllocateCluster fs (clusterBytesOf fs) cluster
      writeLoop fs fuel 0 rest next

/-- The place of the directory entry that a handle names. -/
def Fat32File.slot (file : Fat32File) : Slot := ⟨file.dirLba, file.dirOffset⟩

/-- The first cluster bootstrap of `fat32_write`. -/
def bootstrapHead (fs : Fat32Fs) : FileIo Unit := do
  let head ← onDev (allocateCluster fs 0)
  modifyFile fun f => { f with firstCluster := head, capacity := clusterBytesOf fs }
  let file := (← get).file
  onDev (patchSlot fs .head file.slot [(20, putLe16 (head / 2 ^ 16)), (26, putLe16 head)])

/-- The size field of the directory entry, then the handle's. -/
def updateSize (fs : Fat32Fs) (use : SlotUse) (newSize : Nat) : FileIo Unit := do
  let file := (← get).file
  onDev (patchSlot fs use file.slot [(28, putLe32 newSize)])
  modifyFile fun f => { f with size := newSize }

/-- `fat32_write`; the bytes written are the whole buffer. -/
def fat32Write (fs : Fat32Fs) (offset : Nat) (buffer : List UInt8) : FileIo Nat := do
  let file := (← get).file
  if fs.mounted = false ∨ fs.writable = false ∨ file.size < offset ∨ file.capacity < offset ∨
      fs.totalSectors ≤ file.dirLba ∨ 512 < (file.dirOffset + 32) % 2 ^ 32 then throw .fail
  if buffer = [] then
    updateSize fs .truncate (offset % 2 ^ 32)
    return 0
  if file.firstCluster < 2 then bootstrapHead fs
  let first := (← get).file.firstCluster
  let (skip, cluster) ← writeSkip fs walkFuel offset first
  writeLoop fs walkFuel skip buffer cluster
  updateSize fs .size ((offset + buffer.length) % 2 ^ 32)
  return buffer.length

/-! ## Creating, deleting, renaming -/

/-- What `find_free_dir_entry` does with an entry. -/
def freeVisit (_ : Unit) (slot : Slot) (s : Sector) : Scan Unit Slot :=
  if entryMark s slot.offset = 0x00 ∨ entryMark s slot.offset = 0xe5 then .exit slot else .next ()

def findFreeDirEntry (fs : Fat32Fs) : Io Slot := do
  match ← scanRoot fs freeVisit () with
  | .exit slot => return slot
  | .next _ => throw .fail

/-- The 32 bytes that `write_dir_entry` stores. -/
def dirEntryBytes (shortName : List UInt8) (attr : UInt8) (firstCluster size : Nat) : List UInt8 :=
  shortName ++ [attr, 0, 0] ++ putLe16 0 ++ putLe16 0 ++ putLe16 0 ++
    putLe16 (firstCluster / 2 ^ 16) ++ putLe16 0 ++ putLe16 0 ++ putLe16 firstCluster ++ putLe32 size

/-- The zeroing of the sectors of a new file's cluster. -/
def zeroSectors (fs : Fat32Fs) (lba : Nat) : List Nat → Io Unit
  | [] => pure ()
  | i :: is => do
    writeSector fs .zeroWrite ((lba + i) % 2 ^ 32) Sector.zero
    zeroSectors fs lba is

/-- Whether an error is the driver's -1. -/
def Err.isFail : Err → Bool
  | .fail => true
  | .hang => false

def fat32Create (fs : Fat32Fs) (name : List UInt8) : Io Fat32File := do
  if fs.mounted = false ∨ fs.writable = false then throw .fail
  match makeShortName name with
  | none => throw .fail
  | some shortName =>
    -- "already exists" is any successful open, so a lookup that fails counts as "no"
    if (← attempt Err.isFail (fat32OpenRoot fs name)).isSome then throw .fail
    let slot ← findFreeDirEntry fs
    let newCluster ← allocateCluster fs 0
    patchSlot fs .create slot [(0, dirEntryBytes shortName 0x20 newCluster 0)]
    zeroSectors fs (clusterToLba fs newCluster) (List.range fs.sectorsPerCluster)
    return { firstCluster := newCluster, dirLba := slot.lba, dirOffset := slot.offset,
             capacity := clusterBytesOf fs, size := 0 }

def fat32Delete (fs : Fat32Fs) (name : List UInt8) : Io Unit := do
  if fs.mounted = false ∨ fs.writable = false ∨ makeShortName name = none then throw .fail
  let file ← fat32OpenRoot fs name
  if 2 ≤ file.firstCluster then freeClusterChain fs file.firstCluster
  patchSlot fs .unlink file.slot [(0, [0xe5])]

def fat32Rename (fs : Fat32Fs) (oldName newName : List UInt8) : Io Unit := do
  if fs.mounted = false ∨ fs.writable = false then throw .fail
  match makeShortName newName with
  | none => throw .fail
  | some newShort =>
    let file ← fat32OpenRoot fs oldName
    if (← attempt Err.isFail (fat32OpenRoot fs newName)).isSome then throw .fail
    patchSlot fs .rename file.slot [(0, newShort)]

end Armonios
