import Armonios.Process.Table

/-!
# User memory

The model of `kernel/user_vm.c`, and of the part of `kernel/user_image.c` that sets up a process. The
functions work on one process and the page tables: `Space`. `userVmMapAnonymous` and
`userVmUnmapAnonymous` return what the source returns, the others throw where it returns -1.
-/

namespace Armonios

def userVmProtRead : Nat := 1
def userVmProtWrite : Nat := 2
def userVmProtExec : Nat := 4
def userVmSupportedFlags : Nat := 7

def userVmErrNomem : Int := -2
def userVmErrInval : Int := -7

/-- A process and the page tables. -/
structure Space where
  vm : Vm
  process : Process

abbrev SpaceM := EStateM Unit Space

def onVm {α : Type} (m : VmM α) : SpaceM α := onPart Space.vm (fun s v => { s with vm := v }) m

/-- A function of the process that may fail, and then changes nothing. -/
def onProcess (f : Process → Option Process) : SpaceM Unit := fun s =>
  match f s.process with
  | none => .error () s
  | some p => .ok () { s with process := p }

/-- The call is made and its result is ignored. -/
def ignoring {σ α : Type} (m : EStateM Unit σ α) : EStateM Unit σ Unit := fun s =>
  match m s with
  | .ok _ s' => .ok () s'
  | .error _ s' => .ok () s'

/-- `page_align_up` of `user_vm.c`: 0 where the sum would wrap. -/
def userPageAlignUp (value : Nat) : Nat :=
  if value = 0 ∨ value > uint64Max - (pageSize - 1) then 0 else (value + pageSize - 1) / pageSize * pageSize

def flagsToVmm (flags : Nat) : Option Nat :=
  -- the bits that are not supported
  if flags / (userVmSupportedFlags + 1) ≠ 0 then none
  else
    let flags := if flags = 0 then userVmProtRead ||| userVmProtWrite else flags
    let result := vmmFlagUser ||| (if flags &&& userVmProtWrite ≠ 0 then vmmFlagRead ||| vmmFlagWrite
      else if flags &&& userVmProtRead ≠ 0 then vmmFlagRead else 0)
    some (result ||| (if flags &&& userVmProtExec ≠ 0 then vmmFlagExec else 0))

/-- What a failed mapping leaves behind is taken back. -/
def undoMapping (addr size paddr : Nat) : SpaceM Unit := do
  let pageTable := (← get).process.pageTable
  ignoring (onVm (vmmUnmapRange pageTable addr size))
  ignoring (onProcess (processRemoveUserRegion addr size))
  onVm (onPmm fun pmm => ((), freePageRange paddr size pmm))

def userVmMapAnonymous (hint size flags : Nat) : SpaceM Int := do
  let alignedSize := userPageAlignUp size
  let p := (← get).process
  match flagsToVmm flags with
  | none => return userVmErrInval
  | some vmmFlags =>
    if p.pageTable = 0 ∨ hint ≠ 0 ∨ alignedSize = 0 then return userVmErrInval
    match processAllocUserRegion alignedSize p with
    | none => return userVmErrInval
    | some (addr, p) =>
      modify fun s => { s with process := p }
      let paddr ← onVm (onPmm (pmmAllocPages (alignedSize / pageSize)))
      if paddr = 0 then
        ignoring (onProcess (processRemoveUserRegion addr alignedSize))
        return userVmErrNomem
      match ← attempt (fun _ => true) (onVm (vmmMapRange p.pageTable addr paddr alignedSize vmmFlags)) with
      | none =>
        undoMapping addr alignedSize paddr
        return userVmErrNomem
      | some () =>
        match ← attempt (fun _ => true)
            (onProcess (processSetUserRegionMapping addr alignedSize paddr processUserRegionOwnedPages)) with
        | none =>
          undoMapping addr alignedSize paddr
          return userVmErrInval
        | some () => return addr

def userVmUnmapAnonymous (addr size : Nat) : SpaceM Int := do
  let alignedSize := userPageAlignUp size
  let p := (← get).process
  if p.pageTable = 0 ∨ alignedSize = 0 then return userVmErrInval
  match processFindUserRegion addr alignedSize p with
  | none => return userVmErrInval
  | some region =>
    if region.flags &&& processUserRegionOwnedPages = 0 ∨ region.paddr = 0 then return userVmErrInval
    match ← attempt (fun _ => true) (onVm (vmmUnmapRange p.pageTable addr alignedSize)) with
    | none => return userVmErrInval
    | some () =>
      match ← attempt (fun _ => true) (onProcess (processRemoveUserRegion addr alignedSize)) with
      | none => return userVmErrInval
      | some () =>
        onVm (onPmm fun pmm => ((), freePageRange region.paddr alignedSize pmm))
        return 0

def userVmMapPhysical (vaddr paddr size flags : Nat) : SpaceM Unit := do
  let p := (← get).process
  match flagsToVmm flags with
  | none => throw ()
  | some vmmFlags =>
    if p.pageTable = 0 ∨ vaddr = 0 ∨ paddr = 0 ∨ size = 0 ∨ processFindUserRegion vaddr size p = none then throw ()
    match ← attempt (fun _ => true) (onVm (vmmMapRange p.pageTable vaddr paddr size vmmFlags)) with
    | none =>
      ignoring (onVm (vmmUnmapRange p.pageTable vaddr size))
      throw ()
    | some () =>
      match ← attempt (fun _ => true) (onProcess (processSetUserRegionMapping vaddr size paddr 0)) with
      | none =>
        ignoring (onVm (vmmUnmapRange p.pageTable vaddr size))
        throw ()
      | some () => return ()

/-! ## Images -/

/-- `user_image_t` without the name. -/
structure UserImage where
  base : Nat
  size : Nat
  entryOffset : Nat

/-- Returns 0 where the image has no entry. -/
def userImageEntry (image : UserImage) : Nat :=
  if image.base = 0 ∨ image.size = 0 ∨ image.size ≤ image.entryOffset ∨
      image.base > uint64Max - image.entryOffset then 0
  else image.base + image.entryOffset

def userImageMagic : Nat := 0x31494c4b
def userImageMaxEntries : Nat := 8
def userImageHeaderSize : Nat := 80

/-- The little-endian number of `n` bytes at `off`. -/
def leNat (bytes : List UInt8) (off : Nat) : (n : Nat) → Nat
  | 0 => 0
  | n + 1 => (bytes.getD off 0).toNat + 2 ^ 8 * leNat bytes (off + 1) n

/-- `user_image_load_flat` with `user_image_load_copy`, for a source in memory: the header is checked and
the image is described as it is copied to `loadBase`. The sums of addresses there stay inside of the
source. -/
def userImageLoadFlat (loadBase loadCapacity : Nat) (source : List UInt8) (entryIndex : Nat) :
    Option UserImage :=
  let headerSize := leNat source 4 2
  let entryCount := leNat source 6 2
  let imageSize := leNat source 8 8
  let entryOffset := leNat source (16 + 8 * entryIndex) 8
  if source.length < 4 ∨ leNat source 0 4 ≠ userImageMagic then none
  else if source.length < userImageHeaderSize ∨ headerSize ≠ userImageHeaderSize ∨ imageSize < headerSize ∨
      entryCount = 0 ∨ userImageMaxEntries < entryCount ∨ entryCount ≤ entryIndex ∨ source.length < imageSize then
    none
  else if entryOffset < headerSize ∨ imageSize ≤ entryOffset then none
  else if loadBase = 0 ∨ loadCapacity = 0 ∨ imageSize = 0 ∨ loadCapacity < imageSize then none
  else some ⟨loadBase, imageSize, entryOffset⟩

def userImagePrepareProcess (image : UserImage) (stackStart stackSize : Nat) (pstate : UInt64) : SpaceM Unit := do
  let entry := userImageEntry image
  if entry = 0 ∨ stackStart = 0 ∨ stackSize = 0 ∨ stackStart > uint64Max - stackSize then throw ()
  let old := (← get).process
  let setEntry (pc sp pstate : UInt64) : SpaceM Unit :=
    modify fun s => { s with process := processSetEntry pc sp pstate s.process }
  setEntry (UInt64.ofNat entry) (UInt64.ofNat (stackStart + stackSize)) pstate
  match ← attempt (fun _ => true) (onProcess (processAddUserRegion image.base image.size)) with
  | none =>
    setEntry old.pc old.sp old.pstate
    throw ()
  | some () =>
    match ← attempt (fun _ => true) (onProcess (processAddUserRegion stackStart stackSize)) with
    | none =>
      ignoring (onProcess (processRemoveUserRegion image.base image.size))
      setEntry old.pc old.sp old.pstate
      throw ()
    | some () => return ()

end Armonios
