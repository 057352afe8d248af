import Mathlib
import Armonios.Mm.Vmm
import Armonios.Vfs.Table

/-!
# The process table

The model of `kernel/process.c`: the fixed table of process-control blocks, the current process, the
saved EL0 contexts and the user regions. A pointer to a process is its slot in the table. `Kernel` is
the state that the process functions work on; what the rest of the kernel keeps (files, messages,
windows, devices) is the type parameter `ρ`, and `Env` has the functions on it that are called from
here.
-/

namespace Armonios

abbrev processMaxProcesses : Nat := 16
def processMaxUserRegions : Nat := 8
def processNameLen : Nat := 16
def processUserMmapBase : Nat := 0x0000000100000000
def processUserMmapLimit : Nat := 0x0000000200000000
def processUserRegionOwnedPages : Nat := 1

inductive ProcessState
  | unused | ready | running | blocked | zombie
  deriving DecidableEq, Repr

inductive DispatchPolicy
  | exit | preempt
  deriving DecidableEq, Repr

/-- `x[i] = value` for the registers `x0` to `x30`. -/
def setReg (i : Nat) (value : UInt64) (x : Vector UInt64 31) : Vector UInt64 31 := x.setIfInBounds i value

/-- `exception_frame_t`. -/
structure Frame where
  x : Vector UInt64 31
  elr : UInt64
  spsr : UInt64
  spEl0 : UInt64
  deriving DecidableEq

/-- `process_user_region_t`, the addresses from `start` up to but not with `stop`. -/
structure UserRegion where
  start : Nat
  stop : Nat
  paddr : Nat
  flags : Nat
  deriving DecidableEq

/-- `process_t`. `userRegions` has the entries below `user_region_count`; `pageTable` is 0 if there is
none. -/
structure Process where
  pid : Nat
  name : Path
  regs : Vector UInt64 31
  sp : UInt64
  pc : UInt64
  pstate : UInt64
  pageTable : Nat
  state : ProcessState
  exitCode : UInt64
  nextUserVaddr : Nat
  userRegions : List UserRegion
  /-- The argument strings that the loader has copied to the stack. -/
  argv : List Path

/-! ## User regions -/

/-- `align_up(value, USER_REGION_ALIGN)`. -/
def alignUp (value : Nat) : Nat := (value + pageSize - 1) % 2 ^ 64 / pageSize * pageSize

def userRegionEnd (start size : Nat) : Option Nat :=
  if size = 0 ∨ start > uint64Max - size then none else some (start + size)

def processAddUserRegion (start size : Nat) (p : Process) : Option Process :=
  if processMaxUserRegions ≤ p.userRegions.length then none
  else
    match userRegionEnd start size with
    | none => none
    | some stop =>
      if p.userRegions.any fun region => start < region.stop ∧ region.start < stop then none
      else some { p with userRegions := p.userRegions ++ [⟨start, stop, 0, 0⟩] }

/-- Returns the address of the new region. -/
def processAllocUserRegion (size : Nat) (p : Process) : Option (Nat × Process) :=
  if size = 0 then none
  else
    let alignedSize := alignUp size
    if alignedSize < size then none
    else
      let start := alignUp p.nextUserVaddr
      if start < p.nextUserVaddr then none
      else
        match userRegionEnd start alignedSize with
        | none => none
        | some stop =>
          if processUserMmapLimit < stop then none
          else
            match processAddUserRegion start alignedSize p with
            | none => none
            | some p => some (start, { p with nextUserVaddr := stop })

/-- Whether a region is the one of `size` bytes from `start` on. -/
def UserRegion.isAt (start size : Nat) (region : UserRegion) : Bool :=
  region.start = start ∧ userRegionEnd start size = some region.stop

def processSetUserRegionMapping (start size paddr flags : Nat) (p : Process) : Option Process :=
  match p.userRegions.findIdx? (·.isAt start size) with
  | none => none
  | some i => some { p with userRegions := p.userRegions.modify i fun region => { region with paddr, flags } }

def processFindUserRegion (start size : Nat) (p : Process) : Option UserRegion :=
  p.userRegions.find? (·.isAt start size)

/-- `process_remove_user_region_info`: the later regions move down. -/
def processRemoveUserRegion (start size : Nat) (p : Process) : Option Process :=
  match p.userRegions.findIdx? (·.isAt start size) with
  | none => none
  | some i => some { p with userRegions := p.userRegions.eraseIdx i }

def processUserRangeContains (start size : Nat) (p : Process) : Bool :=
  decide (size = 0) || match userRegionEnd start size with
    | none => false
    | some stop => p.userRegions.any fun region => region.start ≤ start ∧ stop ≤ region.stop

/-! ## Contexts -/

/-- `process_init`; the state is `ready`, as the source has it. -/
def processInit (pid : Nat) (name : Path) : Process where
  pid := pid
  name := name.take (processNameLen - 1)
  regs := Vector.replicate 31 0
  sp := 0
  pc := 0
  pstate := 0
  pageTable := 0
  state := .ready
  exitCode := 0
  nextUserVaddr := processUserMmapBase
  userRegions := []
  argv := []

def processSetEntry (pc sp pstate : UInt64) (p : Process) : Process := { p with pc, sp, pstate }

/-- `process_save_context` with the fields of a frame. -/
def processSaveContext (frame : Frame) (p : Process) : Process :=
  { p with regs := frame.x, pc := frame.elr, pstate := frame.spsr, sp := frame.spEl0 }

def processLoadContext (p : Process) : Frame where
  x := p.regs
  elr := p.pc
  spsr := p.pstate
  spEl0 := p.sp

/-! ## The table -/

/-- What `map_mmio` does with the page table that it is given: it maps ranges, may look at the results,
and returns. -/
inductive MapMmio
  | done (ok : Bool)
  | map (vaddr paddr size flags : Nat) (next : Bool → MapMmio)

/-- A slot of `g_processes`. -/
abbrev SlotId := Fin processMaxProcesses

structure Kernel (ρ : Type) where
  vm : Vm
  processes : SlotId → Process
  current : Option SlotId
  processCount : Nat
  /-- TTBR0_EL1. -/
  ttbr0 : Nat
  nextSpawnPid : Nat
  spawnMemoryBase : Nat
  spawnMemorySize : Nat
  spawnMapMmio : Option MapMmio
  rest : ρ

variable {ρ : Type}

/-- `&g_processes[0]`. -/
def firstSlot : SlotId := 0

def secondSlot : SlotId := ⟨1, by decide⟩

/-- All slots in order. -/
def slots : List SlotId := List.finRange processMaxProcesses

namespace Kernel

def setProcess (k : Kernel ρ) (i : SlotId) (p : Process) : Kernel ρ :=
  { k with processes := Function.update k.processes i p }

end Kernel

def processFind (pid : Nat) (k : Kernel ρ) : Option SlotId :=
  if pid = 0 then none
  else slots.find? fun i => (k.processes i).state ≠ .unused ∧ (k.processes i).pid = pid

def processAlloc (pid : Nat) (name : Path) (k : Kernel ρ) : Option (SlotId × Kernel ρ) :=
  if pid = 0 ∨ processFind pid k ≠ none then none
  else
    match slots.find? fun i => (k.processes i).state = .unused with
    | none => none
    | some i => some (i, { k.setProcess i (processInit pid name) with processCount := k.processCount + 1 })

/-- The pages of the regions that the process owns, in the order in which they are freed. -/
def ownedPages (p : Process) : List Nat :=
  p.userRegions.flatMap fun region =>
    if region.flags &&& processUserRegionOwnedPages = 0 ∨ region.paddr = 0 ∨ region.stop ≤ region.start then []
    else pagesOf region.paddr (region.stop - region.start)

/-- `process_free_resources`. -/
def processFreeResources (p : Process) (v : Vm) : Vm :=
  let v := { v with pmm := pmmFreeAll (ownedPages p) v.pmm }
  if p.pageTable ≠ 0 then vmmFreeTable p.pageTable v else v

def processRelease (i : SlotId) (k : Kernel ρ) : Kernel ρ :=
  let p := k.processes i
  if p.state = .unused ∧ p.pageTable = 0 ∧ p.userRegions = [] then k
  else
    { k with
      current := if k.current = some i then none else k.current
      vm := processFreeResources p k.vm
      processes := Function.update k.processes i { processInit 0 [] with state := .unused }
      processCount := if p.state ≠ .unused ∧ 0 < k.processCount then k.processCount - 1 else k.processCount }

/-- The slots in the order in which `process_next_runnable` looks at them. -/
def slotsAfter : Option SlotId → List SlotId
  | none => slots
  | some i => (List.range (processMaxProcesses - 1)).map fun offset =>
    Fin.ofNat processMaxProcesses (i.val + 1 + offset)

def processNextRunnable (after : Option SlotId) (k : Kernel ρ) : Option SlotId :=
  (slotsAfter after).find? fun i => (k.processes i).state = .ready

/-- `next` becomes the running process: its table is installed and its context is the new frame. -/
def switchTo (next : SlotId) (k : Kernel ρ) : Frame × Kernel ρ :=
  let p := { k.processes next with state := .running }
  (processLoadContext p,
    { k.setProcess next p with
      current := some next
      ttbr0 := if p.pageTable ≠ 0 then p.pageTable else k.ttbr0 })

/-- The new frame, if a process was found to run. -/
def processDispatchNext (current : Option SlotId) (policy : DispatchPolicy) (k : Kernel ρ) :
    Option (Frame × Kernel ρ) :=
  if current = none ∧ policy = .preempt then none
  else
    match processNextRunnable current k with
    | none => none
    | some next =>
      let k := match current with
        | some i => if policy = .preempt ∧ (k.processes i).state = .running then
            k.setProcess i { k.processes i with state := .ready } else k
        | none => k
      some (switchTo next k)

/-- The functions of the rest of the kernel that the process and trap code calls. -/
structure Env (ρ : Type) where
  /-- `gui_destroy_windows_for_pid`. -/
  destroyWindows : Nat → ρ → ρ
  /-- `bootfs_find`: the images that are linked into the kernel. -/
  bootfsFind : Path → Option (List UInt8)
  /-- The byte at a virtual address, in the address space of the current process. -/
  byte : Nat → UInt8
  /-- What happens before a system call: input, windows and network are polled. -/
  poll : Kernel ρ → Frame → ρ
  /-- The system calls on files, messages, windows and information: `x0` and the rest of the kernel
  afterwards. They do not change the process table. `none` where there is no such call. -/
  other : Kernel ρ → Frame → Option (UInt64 × ρ)
  /-- The handler of an interrupt. -/
  irqWork : Kernel ρ → UInt32 → ρ
  /-- `el0_return_address`. -/
  returnAddress : UInt64

def processMarkExited (env : Env ρ) (i : SlotId) (exitCode : UInt64) (k : Kernel ρ) : Kernel ρ :=
  let p := k.processes i
  if p.state = .zombie then k
  else { k.setProcess i { p with exitCode, state := .zombie } with rest := env.destroyWindows p.pid k.rest }

/-- The exit code, and the table without the process. -/
def processWaitZombie (pid : Nat) (k : Kernel ρ) : Option (UInt64 × Kernel ρ) :=
  match processFind pid k with
  | none => none
  | some i =>
    if k.current = some i ∨ (k.processes i).state ≠ .zombie then none
    else some ((k.processes i).exitCode, processRelease i k)

def processKill (env : Env ρ) (pid : Nat) (exitCode : UInt64) (k : Kernel ρ) : Option (Kernel ρ) :=
  match processFind pid k with
  | none => none
  | some i =>
    if k.current = some i ∨ (k.processes i).state = .zombie then none
    else some (processMarkExited env i exitCode k)

@[irreducible] def processReclaimZombies (k : Kernel ρ) : Kernel ρ :=
  slots.foldl (fun k i => if (k.processes i).state = .zombie then processRelease i k else k) k

end Armonios
