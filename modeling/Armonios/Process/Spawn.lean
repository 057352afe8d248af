import Armonios.Process.UserVm

/-!
# Starting programs

The model of `kernel/panel_boot.c`: the loader that gives a new process its image, its stack and its
page table, and hands the pages over to the process. `Loader` is the kernel with the local variable
`storage` of the running loader, which holds pages until the process owns them.

The bytes of images and stacks are not in the model, the argument strings apart: a page is zeroed and
filled where the source does it, which no function here depends on.
-/

namespace Armonios

variable {ρ : Type}

def kernelUserImageVaBase : Nat := 0x400000
def kernelUserImageVaStride : Nat := 0x10000
def kernelUserImageSlotSize : Nat := 8192
def kernelUserImageSlotPages : Nat := 2
def kernelUserStackVaBase : Nat := 0x800000
def kernelUserStackVaStride : Nat := 0x10000
def kernelUserStackSize : Nat := 4096
def kernelUserStackPages : Nat := 1

/-- `AARCH64_SPSR_EL0T_DAF_MASKED` and `AARCH64_SPSR_EL1H_DAIF_MASKED`. -/
def spsrEl0t : UInt64 := 0x340
def spsrEl1h : UInt64 := 0x3c5

def panelImageVaddr (slot : SlotId) : Nat := kernelUserImageVaBase + slot.val * kernelUserImageVaStride

def panelStackVaddr (slot : SlotId) : Nat := kernelUserStackVaBase + slot.val * kernelUserStackVaStride

/-- `panel_user_storage_t`; 0 where there is nothing. -/
structure PanelUserStorage where
  imagePaddr : Nat
  stackPaddr : Nat

/-- The kernel while the loader runs. -/
structure Loader (ρ : Type) where
  kernel : Kernel ρ
  storage : PanelUserStorage

abbrev KernelM (ρ : Type) := EStateM Unit (Kernel ρ)

abbrev LoaderM (ρ : Type) := EStateM Unit (Loader ρ)

def onKernel {α : Type} (m : KernelM ρ α) : LoaderM ρ α :=
  onPart Loader.kernel (fun l k => { l with kernel := k }) m

/-- A run on the process in `slot` and the page tables. -/
def onSlot {α : Type} (slot : SlotId) (m : SpaceM α) : KernelM ρ α :=
  onPart (fun k => ⟨k.vm, k.processes slot⟩)
    (fun k s => { k with vm := s.vm, processes := Function.update k.processes slot s.process }) m

/-- A function of the allocator. -/
def onKernelPmm {α : Type} (f : Pmm → α × Pmm) : KernelM ρ α :=
  onPart Kernel.vm (fun k v => { k with vm := v }) (onPmm f)

def freeImagePages (imagePaddr : Nat) (pmm : Pmm) : Pmm :=
  if imagePaddr = 0 then pmm else freePageRange imagePaddr kernelUserImageSlotSize pmm

def freeUserStorage : LoaderM ρ Unit := do
  let storage := (← get).storage
  onKernel (onKernelPmm fun pmm => ((), freeImagePages storage.imagePaddr pmm))
  if storage.stackPaddr ≠ 0 then
    onKernel (onKernelPmm fun pmm => ((), pmmFreePage storage.stackPaddr pmm))
  modify fun l => { l with storage := ⟨0, 0⟩ }

def loadNamedImage (env : Env ρ) (name : Path) (slot : SlotId) (entryIndex : Nat) : LoaderM ρ UserImage := do
  if (← get).storage.imagePaddr ≠ 0 then throw ()
  let imagePaddr ← onKernel (onKernelPmm (pmmAllocPages kernelUserImageSlotPages))
  if imagePaddr = 0 then throw ()
  match (env.bootfsFind name).bind fun source =>
      userImageLoadFlat imagePaddr kernelUserImageSlotSize source entryIndex with
  | none =>
    onKernel (onKernelPmm fun pmm => ((), freeImagePages imagePaddr pmm))
    throw ()
  | some image =>
    modify fun l => { l with storage := { l.storage with imagePaddr } }
    return { image with base := panelImageVaddr slot, size := kernelUserImageSlotSize }

/-- What the callback `map_mmio` does to the table `pgd`. -/
def runMapMmio (pgd : Nat) : MapMmio → VmM Unit
  | .done ok => if ok then pure () else throw ()
  | .map vaddr paddr size flags next => do
    let status ← attempt (fun _ => true) (vmmMapRange pgd vaddr paddr size flags)
    runMapMmio pgd (next status.isSome)

def mapKernelIdentity (pgd memoryBase memorySize : Nat) (mapMmio : Option MapMmio) : VmM Unit := do
  if pgd = 0 ∨ memorySize = 0 then throw ()
  vmmMapRange pgd memoryBase memoryBase memorySize (vmmFlagRead ||| vmmFlagWrite ||| vmmFlagExec)
  match mapMmio with
  | none => return ()
  | some callback => runMapMmio pgd callback

def createPanelPageTable (image : UserImage) (imagePaddr stackVaddr stackPaddr stackSize memoryBase memorySize : Nat)
    (mapMmio : Option MapMmio) : SpaceM Unit := do
  let pgd ← onVm vmmNewTable
  match ← attempt (fun _ => true) (onVm (mapKernelIdentity pgd memoryBase memorySize mapMmio)) with
  | none =>
    onVm (modify (vmmFreeTable pgd))
    throw ()
  | some () =>
    modify fun s => { s with process := { s.process with pageTable := pgd } }
    userVmMapPhysical image.base imagePaddr image.size (userVmProtRead ||| userVmProtExec)
    userVmMapPhysical stackVaddr stackPaddr stackSize (userVmProtRead ||| userVmProtWrite)

def initPanelProcess (slot : SlotId) (image : UserImage) (memoryBase memorySize : Nat)
    (mapMmio : Option MapMmio) : LoaderM ρ Unit := do
  if (← get).storage.imagePaddr = 0 then throw ()
  let stackPaddr ← onKernel (onKernelPmm (pmmAllocPages kernelUserStackPages))
  modify fun l => { l with storage := { l.storage with stackPaddr } }
  if stackPaddr = 0 then throw ()
  let stackVaddr := panelStackVaddr slot
  onKernel (onSlot slot (userImagePrepareProcess image stackVaddr kernelUserStackSize spsrEl0t))
  let imagePaddr := (← get).storage.imagePaddr
  onKernel (onSlot slot (createPanelPageTable image imagePaddr stackVaddr stackPaddr kernelUserStackSize
    memoryBase memorySize mapMmio))
  onKernel (onSlot slot (onProcess
    (processSetUserRegionMapping image.base image.size imagePaddr processUserRegionOwnedPages)))
  modify fun l => { l with storage := { l.storage with imagePaddr := 0 } }
  -- `stack_paddr` stays in the storage for the arguments
  onKernel (onSlot slot (onProcess
    (processSetUserRegionMapping stackVaddr kernelUserStackSize stackPaddr processUserRegionOwnedPages)))

/-- The loader gives up: the slot and what the storage still holds are released. -/
def abandon {α : Type} (slot : SlotId) : LoaderM ρ α := do
  onKernel (modify (processRelease slot))
  freeUserStorage
  throw ()

/-- Image, stack and table for the process in `slot`, as `app_spawn_vfs` and `panel_boot_run` get them. -/
def loadProcess (env : Env ρ) (name : Path) (slot : SlotId) (entryIndex memoryBase memorySize : Nat)
    (mapMmio : Option MapMmio) : LoaderM ρ Unit := do
  match ← attempt (fun _ => true) (loadNamedImage env name slot entryIndex) with
  | none => abandon slot
  | some image =>
    match ← attempt (fun _ => true) (initPanelProcess slot image memoryBase memorySize mapMmio) with
    | none => abandon slot
    | some () => return ()

/-! ## Arguments -/

def panelBootArgvMaxStrings : Nat := 8
def panelBootArgvMaxBytes : Nat := 256

/-- The walk over the string at `str` with a budget of `left` bytes: what is left after its NUL. -/
def argvString (byte : Nat → UInt8) : (left str : Nat) → Option Nat
  | 0, _ => none
  | left + 1, str => if byte str = 0 then some left else argvString byte left (str + 1)

/-- The 64-bit word at `addr`. -/
def loadWord (byte : Nat → UInt8) (addr : Nat) : Nat :=
  leNat ((List.range 8).map fun i => byte (addr + i)) 0 8

/-- The budget after the first `argc` strings. -/
def argvStrings (byte : Nat → UInt8) (argvPtr : Nat) : (argc : Nat) → Option Nat
  | 0 => some panelBootArgvMaxBytes
  | argc + 1 => do
    let left ← argvStrings byte argvPtr argc
    let str := loadWord byte (argvPtr + 8 * argc)
    if str = 0 then none else argvString byte left str

/-- The bytes of the string at `str`, up to its NUL. -/
def argvCopy (byte : Nat → UInt8) : (left str : Nat) → Path
  | 0, _ => []
  | left + 1, str => if byte str = 0 then [] else byte str :: argvCopy byte left (str + 1)

/-- The strings as the second loop copies them; none is longer than the budget. -/
def argvCopies (byte : Nat → UInt8) (argvPtr argc : Nat) : List Path :=
  (List.range argc).map fun i => argvCopy byte panelBootArgvMaxBytes (loadWord byte (argvPtr + 8 * i))

/-- `panel_boot_place_argv_on_stack`: the address of `argv` in the process, 0 if there are no arguments. -/
def panelBootPlaceArgvOnStack (byte : Nat → UInt8) (stackBase stackSize argvPtr argc : Nat) : Option Nat :=
  if stackSize = 0 then none
  else if argc = 0 then some 0
  else if argvPtr = 0 ∨ panelBootArgvMaxStrings < argc then none
  else do
    let left ← argvStrings byte argvPtr argc
    let total := (panelBootArgvMaxBytes - left + (argc + 1) * 8 + 15) / 16 * 16
    if stackSize < total ∨ uint64Max < stackBase + stackSize then none else some (stackBase + stackSize - total)

def placeArgvOnStack (byte : Nat → UInt8) (stackPaddr : Nat) (slot : SlotId) (argvPtr argc : Nat) : Option Nat :=
  if stackPaddr = 0 then none
  else panelBootPlaceArgvOnStack byte (panelStackVaddr slot) kernelUserStackSize argvPtr argc

/-! ## The entry points -/

/-- The bytes of `/armonios/`. -/
def armoniosRoot : Path := [47, 97, 114, 109, 111, 110, 105, 111, 115, 47]

/-- The registers of a new process. -/
def setArguments (argvVaddr argc : Nat) (p : Process) : Process :=
  let p := { p with regs := setReg 1 0 (setReg 0 0 p.regs) }
  if argvVaddr = 0 then p
  else { p with sp := UInt64.ofNat argvVaddr
                regs := setReg 1 (UInt64.ofNat argvVaddr) (setReg 0 (UInt64.ofNat argc) p.regs) }

/-- The rest of `app_spawn_vfs` once there is a slot. -/
def spawnInto (env : Env ρ) (name : Path) (slot : SlotId) (entryIndex argvPtr argc : Nat) : LoaderM ρ Unit := do
  let k := (← get).kernel
  loadProcess env name slot entryIndex k.spawnMemoryBase k.spawnMemorySize k.spawnMapMmio
  let l ← get
  match placeArgvOnStack env.byte l.storage.stackPaddr slot argvPtr argc with
  | none =>
    onKernel (modify (processRelease slot))
    throw ()
  | some argvVaddr =>
    onKernel (modify fun k => k.setProcess slot
      { setArguments argvVaddr argc (k.processes slot) with
        argv := argvCopies env.byte argvPtr argc, state := .ready })

/-- The loader with an empty storage. -/
def withLoader {α : Type} (m : LoaderM ρ α) : KernelM ρ α :=
  onPart (fun k => ⟨k, ⟨0, 0⟩⟩) (fun _ l => l.kernel) m

/-- Returns the pid of the new process. -/
def appSpawnVfs (env : Env ρ) (path : Path) (entryIndex argvPtr argc : Nat) : KernelM ρ Nat := do
  if (← get).spawnMemorySize = 0 then throw ()
  match vfsStripPrefix path armoniosRoot with
  | none => throw ()
  | some appName =>
    if appName.length = 0 ∨ 32 ≤ appName.length then throw ()
    modify processReclaimZombies
    let pid := (← get).nextSpawnPid
    modify fun k => { k with nextSpawnPid := (pid + 1) % 2 ^ 32 }
    match processAlloc pid appName (← get) with
    | none => throw ()
    | some (slot, k) =>
      set (k.setProcess slot { k.processes slot with state := .blocked })
      withLoader (spawnInto env appName slot entryIndex argvPtr argc)
      return pid

/-- `PANEL_BOOT_PID_BASE`, and the bytes of `PANEL_BOOT_APP`. -/
def panelBootPidBase : Nat := 1
def panelBootApp : Path := [112, 97, 110, 101, 108]

/-- `panel_boot_run` up to `user_enter_el0`: the panel is the running process. Returns its slot. -/
def panelBootEnter (env : Env ρ) (memoryBase memorySize : Nat) (mapMmio : Option MapMmio) : KernelM ρ SlotId := do
  modify processReclaimZombies
  match processAlloc panelBootPidBase panelBootApp (← get) with
  | none => throw ()
  | some (slot, k) =>
    set k
    withLoader (loadProcess env panelBootApp slot 0 memoryBase memorySize mapMmio)
    modify fun k => { k with spawnMemoryBase := memoryBase, spawnMemorySize := memorySize, spawnMapMmio := mapMmio }
    modify fun k =>
      let p := k.processes slot
      { k.setProcess slot { p with state := .running } with
        current := some slot
        ttbr0 := if p.pageTable ≠ 0 then p.pageTable else k.ttbr0 }
    return slot

/-- `panel_boot_run` after `user_enter_el0` returned. -/
def panelBootLeave (kernelPageTable : Nat) (panel : SlotId) (k : Kernel ρ) : Kernel ρ :=
  let k := { k with ttbr0 := if kernelPageTable ≠ 0 then kernelPageTable else k.ttbr0 }
  processRelease panel (processReclaimZombies k)

end Armonios
