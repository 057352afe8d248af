import Armonios.Fat32.Device

/-!
# The file allocation table

The functions of `kernel/fat32.c` that read and write FAT entries: the entry of a cluster in the
first copy, its mirrored update, the search for a free cluster, the allocation after the last
cluster of a chain, and the walks that free or measure a chain. Arithmetic is that of `uint32_t`.
-/

namespace Armonios

/-- `FAT32_CLUSTER_MASK + 1`: an entry has 28 bits. -/
abbrev clusterRange : Nat := 0x10000000

/-- `FAT32_CLUSTER_EOC`. -/
abbrev clusterEoc : Nat := 0x0ffffff8

/-- `FAT32_CLUSTER_BAD`. -/
abbrev clusterBad : Nat := 0x0ffffff7

/-- Rounds after which a loop of the driver counts as one without end. No loop on a chain without
a cycle takes as many. -/
def walkFuel : Nat := 2 ^ 32

def clusterIsEoc (cluster : Nat) : Bool := clusterEoc ≤ cluster

/-- The sector of the FAT copy `copy` that has the entry of `cluster`. -/
def fatSector (fs : Fat32Fs) (copy cluster : Nat) : Nat :=
  (fs.fatStartLba + copy * fs.sectorsPerFat + cluster * 4 % 2 ^ 32 / 512) % 2 ^ 32

/-- The byte of the entry of `cluster` in its sector. -/
def entryOffset (cluster : Nat) : Nat := cluster * 4 % 2 ^ 32 % 512

def clusterToLba (fs : Fat32Fs) (cluster : Nat) : Nat :=
  (fs.dataStartLba + (cluster - 2) * fs.sectorsPerCluster) % 2 ^ 32

/-- `fs->sectors_per_cluster * FAT32_SECTOR_SIZE`; the first factor is a byte of the boot sector, so
the product fits every type the driver gives it. -/
def clusterBytesOf (fs : Fat32Fs) : Nat := fs.sectorsPerCluster * 512

def readFatEntry (fs : Fat32Fs) (site : Site) (cluster : Nat) : Io Nat := do
  if cluster < 2 then throw .fail
  let sector ← readSector fs site (fatSector fs 0 cluster)
  let value := le32 sector (entryOffset cluster) % clusterRange
  if value = clusterBad then throw .fail
  return value

/-- The entry of `cluster` in one copy. -/
def writeFatCopy (fs : Fat32Fs) (use : FatUse) (cluster value copy : Nat) : Io Unit := do
  let sector ← readSector fs (.fatRead use copy) (fatSector fs copy cluster)
  writeSector fs (.fatWrite use copy) (fatSector fs copy cluster)
    (sector.patch (entryOffset cluster) (putLe32 (value % clusterRange)))

/-- The copies `copy`, `copy + 1`, ... of the FAT, `n` of them. -/
def writeFatCopies (fs : Fat32Fs) (use : FatUse) (cluster value : Nat) : Nat → Nat → Io Unit
  | _, 0 => pure ()
  | copy, n + 1 => do
    writeFatCopy fs use cluster value copy
    writeFatCopies fs use cluster value (copy + 1) n

def writeFatEntry (fs : Fat32Fs) (use : FatUse) (cluster value : Nat) : Io Unit := do
  if fs.writable = false ∨ cluster < 2 then throw .fail
  writeFatCopies fs use cluster value 0 fs.fatCount

/-- The search of `find_free_cluster` over the `n` clusters from `cluster` on. -/
def findFreeFrom (fs : Fat32Fs) : Nat → Nat → Io Nat
  | _, 0 => throw .fail
  | cluster, n + 1 => do
    let value ← readFatEntry fs .lookup cluster
    if value = 0 then return cluster
    findFreeFrom fs (cluster + 1) n

/-- `find_free_cluster`; its 0 is a failure. -/
def findFreeCluster (fs : Fat32Fs) : Io Nat :=
  findFreeFrom fs 2 (fs.sectorsPerFat * 512 % 2 ^ 32 / 4)

/-- `allocate_cluster`; its 0 is a failure. -/
def allocateCluster (fs : Fat32Fs) (prevCluster : Nat) : Io Nat := do
  let newCluster ← findFreeCluster fs
  if prevCluster ≠ 0 then
    let prevValue ← readFatEntry fs .lookup prevCluster
    if clusterIsEoc prevValue = false then throw .fail
    writeFatEntry fs .link prevCluster newCluster
    writeFatEntry fs .tail newCluster clusterEoc
    return newCluster
  else
    writeFatEntry fs .head newCluster clusterEoc
    return newCluster

/-- The loop of `free_cluster_chain`; `first` marks its first round. -/
def freeLoop (fs : Fat32Fs) : Nat → Bool → Nat → Io Unit
  | 0, _, _ => throw .hang
  | fuel + 1, first, cluster =>
    if 2 ≤ cluster ∧ clusterIsEoc cluster = false then do
      let next ← readFatEntry fs (.freeNext first) cluster
      writeFatEntry fs (.free first) cluster 0
      freeLoop fs fuel false next
    else pure ()

def freeClusterChain (fs : Fat32Fs) (firstCluster : Nat) : Io Unit := do
  if firstCluster < 2 then throw .fail
  freeLoop fs walkFuel true firstCluster

/-- The loop of `file_chain_capacity`. -/
def capacityLoop (fs : Fat32Fs) : Nat → Nat → Nat → Io Nat
  | 0, _, _ => throw .hang
  | fuel + 1, total, cluster =>
    if 2 ≤ cluster ∧ clusterIsEoc cluster = false then do
      if 0xffffffff < total + clusterBytesOf fs then throw .fail
      let next ← readFatEntry fs .lookup cluster
      capacityLoop fs fuel (total + clusterBytesOf fs) next
    else return total

def fileChainCapacity (fs : Fat32Fs) (firstCluster : Nat) : Io Nat := do
  if firstCluster < 2 then throw .fail
  capacityLoop fs walkFuel 0 firstCluster

end Armonios
