import Armonios.Process.Spawn

/-!
# Traps

The model of `kernel/syscall.c` (`syscall_dispatch` and the calls on processes and memory), of
`kernel/exceptions.c` (faults at EL0) and of `kernel/irq.c`. A handler gets the frame that the vector
code saved and the kernel, and leaves the frame that the vector code then restores.

`sched_yield`, which `SYS_YIELD` calls when no other process is ready, returns at once: the kernel
threads start after the last `panel_boot_run`.
-/

namespace Armonios

variable {ρ : Type}

def sysExitNr : UInt64 := 1
def sysYieldNr : UInt64 := 2
def sysGetpidNr : UInt64 := 3
def sysSpawnNr : UInt64 := 4
def sysWaitNr : UInt64 := 6
def sysKillNr : UInt64 := 7
def sysSpawnArgvNr : UInt64 := 8
def sysMmapNr : UInt64 := 20
def sysMunmapNr : UInt64 := 21

def errNoent : Int := -3
def errBadf : Int := -5
def errInval : Int := -7
def errAgain : Int := -11

def kernelUserKillExitCode : UInt64 := 0x80
def kernelUserFaultExitCode : UInt64 := 0xfffffffffffffff0

/-- `(uint64_t)` of a signed value. -/
def toWord (n : Int) : UInt64 := UInt64.ofInt n

/-- `(int)` of a 32-bit value. -/
def toInt32 (n : Nat) : Int := if n < 2 ^ 31 then n else n - 2 ^ 32

namespace Frame

/-- The system call number and the arguments. -/
def arg (frame : Frame) (i : Nat) : UInt64 := frame.x.getD i 0

def setX0 (frame : Frame) (value : UInt64) : Frame := { frame with x := setReg 0 value frame.x }

end Frame

/-- `user_buf_range`. -/
def userBufRange (p : Process) (ptr len : Nat) : Bool :=
  ¬(ptr = 0 ∧ len ≠ 0) ∧ processUserRangeContains ptr len p

/-- `sys_user_buf_in` and `sys_user_buf_out` for the process that is current. -/
def currentBuf (k : Kernel ρ) (ptr len : UInt64) : Bool :=
  k.current.any fun i => userBufRange (k.processes i) ptr.toNat len.toNat

/-- `sys_user_copy_cstr` from the byte `i` on, with `left` bytes of room. -/
def sysUserCopyCstr (byte : Nat → UInt8) (p : Process) (ptr : Nat) : (left i : Nat) → Option Path
  | 0, _ => none
  | left + 1, i =>
    if ptr = 0 ∨ ptr > uint64Max - i ∨ userBufRange p (ptr + i) 1 = false then none
    else if byte (ptr + i) = 0 then some []
    else (sysUserCopyCstr byte p ptr left (i + 1)).map (byte (ptr + i) :: ·)

/-! ## System calls

Each returns the value for `x0`. -/

/-- The common end of `sys_spawn` and `sys_spawn_argv`. -/
def spawnResult (env : Env ρ) (path : Path) (entryIndex argvPtr argc : Nat) (k : Kernel ρ) : Int × Kernel ρ :=
  match appSpawnVfs env path entryIndex argvPtr argc k with
  | .error _ k => (errNoent, k)
  | .ok pid k => if toInt32 pid < 0 then (errNoent, k) else (toInt32 pid, k)

/-- The path argument of the current process. -/
def pathArgument (env : Env ρ) (k : Kernel ρ) (ptr : UInt64) : Option Path :=
  k.current.bind fun i => sysUserCopyCstr env.byte (k.processes i) ptr.toNat vfsMaxPath 0

def sysSpawn (env : Env ρ) (pathPtr entryIndex : UInt64) (k : Kernel ρ) : Int × Kernel ρ :=
  if 2 ^ 32 ≤ entryIndex.toNat then (errInval, k)
  else
    match pathArgument env k pathPtr with
    | none => (errInval, k)
    | some path => spawnResult env path entryIndex.toNat 0 0 k

def sysSpawnArgv (env : Env ρ) (pathPtr entryIndex argvPtr argc : UInt64) (k : Kernel ρ) : Int × Kernel ρ :=
  if 2 ^ 32 ≤ entryIndex.toNat ∨ panelBootArgvMaxStrings < argc.toNat then (errInval, k)
  else
    match pathArgument env k pathPtr with
    | none => (errInval, k)
    | some path =>
      let argvOk := if argc = 0 then decide (argvPtr = 0)
        else decide (argvPtr ≠ 0) && match k.current with
          | none => false
          | some i => userBufRange (k.processes i) argvPtr.toNat (argc.toNat * 8)
      if argvOk then spawnResult env path entryIndex.toNat argvPtr.toNat argc.toNat k else (errInval, k)

def sysWait (pid : UInt64) (k : Kernel ρ) : Int × Kernel ρ :=
  if pid = 0 ∨ 2 ^ 32 ≤ pid.toNat then (errInval, k)
  else
    match processFind pid.toNat k with
    | none => (errNoent, k)
    | some i =>
      if (k.processes i).state ≠ .zombie then (errAgain, k)
      else
        match processWaitZombie pid.toNat k with
        | none => (errInval, k)
        | some (exitCode, k) => (exitCode.toInt64.toInt, k)

def sysKill (env : Env ρ) (pid : UInt64) (k : Kernel ρ) : Int × Kernel ρ :=
  if pid = 0 ∨ 2 ^ 32 ≤ pid.toNat then (errInval, k)
  else if processFind pid.toNat k = none then (errNoent, k)
  else
    match processKill env pid.toNat kernelUserKillExitCode k with
    | none => (errInval, k)
    | some k => (0, k)

theorem processFind_some {k : Kernel ρ} {i : SlotId} {pid : Nat} (h : processFind pid k = some i) :
    (k.processes i).state ≠ .unused ∧ (k.processes i).pid = pid := by
  unfold processFind at h
  split at h
  · cases h
  · simpa using List.find?_some h

/-- A wait changes nothing, or releases a zombie that is not current. -/
theorem sysWait_leaves (pid : UInt64) (k : Kernel ρ) : (sysWait pid k).2 = k ∨
    ∃ i, processFind pid.toNat k = some i ∧ k.current ≠ some i ∧ (k.processes i).state = .zombie ∧
      (sysWait pid k).2 = processRelease i k := by
  unfold sysWait
  split
  · exact .inl rfl
  cases hfind : processFind pid.toNat k with
  | none => exact .inl rfl
  | some i =>
    dsimp only
    split
    · exact .inl rfl
    rename_i hzombie
    unfold processWaitZombie
    rw [hfind]
    dsimp only
    by_cases hcurrent : k.current = some i
    · rw [if_pos (.inl hcurrent)]
      exact .inl rfl
    · rw [if_neg (not_or.mpr ⟨hcurrent, hzombie⟩)]
      exact .inr ⟨i, rfl, hcurrent, not_not.mp hzombie, rfl⟩

/-- A kill changes nothing, or ends a process that is neither current nor a zombie. -/
theorem sysKill_leaves (env : Env ρ) (pid : UInt64) (k : Kernel ρ) : (sysKill env pid k).2 = k ∨
    ∃ i, processFind pid.toNat k = some i ∧ k.current ≠ some i ∧ (k.processes i).state ≠ .zombie ∧
      (sysKill env pid k).2 = processMarkExited env i kernelUserKillExitCode k := by
  unfold sysKill
  split
  · exact .inl rfl
  split
  · exact .inl rfl
  rename_i hfind
  obtain ⟨i, hi⟩ := Option.ne_none_iff_exists'.mp hfind
  unfold processKill
  rw [hi]
  dsimp only
  by_cases hno : k.current = some i ∨ (k.processes i).state = .zombie
  · rw [if_pos hno]
    exact .inl rfl
  · rw [if_neg hno]
    exact .inr ⟨i, rfl, (not_or.mp hno).1, (not_or.mp hno).2, rfl⟩

/-- A call of `user_vm.c` for the current process. -/
def onCurrent (m : SpaceM Int) (k : Kernel ρ) : Int × Kernel ρ :=
  match k.current with
  | none => (userVmErrInval, k)
  | some i =>
    match onSlot i m k with
    | .ok n k => (n, k)
    | .error _ k => (userVmErrInval, k)

def sysMmap (hint size flags : UInt64) (k : Kernel ρ) : Int × Kernel ρ :=
  onCurrent (userVmMapAnonymous hint.toNat size.toNat flags.toNat) k

def sysMunmap (addr size : UInt64) (k : Kernel ρ) : Int × Kernel ρ :=
  onCurrent (userVmUnmapAnonymous addr.toNat size.toNat) k

def sysGetpid (k : Kernel ρ) : Int :=
  match k.current with
  | none => errInval
  | some i => (k.processes i).pid

/-- The calls that only set `x0`, by their number. -/
def simpleCall (env : Env ρ) (frame : Frame) (k : Kernel ρ) : UInt64 × Kernel ρ :=
  let value (r : Int × Kernel ρ) : UInt64 × Kernel ρ := (toWord r.1, r.2)
  let nr := frame.arg 8
  if nr = sysGetpidNr then (toWord (sysGetpid k), k)
  else if nr = sysSpawnNr then value (sysSpawn env (frame.arg 0) (frame.arg 1) k)
  else if nr = sysSpawnArgvNr then
    value (sysSpawnArgv env (frame.arg 0) (frame.arg 1) (frame.arg 2) (frame.arg 3) k)
  else if nr = sysWaitNr then value (sysWait (frame.arg 0) k)
  else if nr = sysKillNr then value (sysKill env (frame.arg 0) k)
  else if nr = sysMmapNr then value (sysMmap (frame.arg 0) (frame.arg 1) (frame.arg 2) k)
  else if nr = sysMunmapNr then value (sysMunmap (frame.arg 0) (frame.arg 1) k)
  else
    match env.other k frame with
    | none => (toWord errInval, k)
    | some (x0, rest) => (x0, { k with rest })

/-- A change to the current process. -/
def withCurrent (f : Process → Process) (k : Kernel ρ) : Kernel ρ :=
  match k.current with
  | none => k
  | some i => k.setProcess i (f (k.processes i))

/-- The frame that returns to `user_enter_el0_return` at EL1. -/
def returnToKernel (env : Env ρ) (code : UInt64) (frame : Frame) : Frame :=
  { frame.setX0 code with elr := env.returnAddress, spsr := spsrEl1h }

/-- The current process ends with `code` and the next one runs, as in `sys_exit` and
`handle_user_fault`. -/
def endCurrent (env : Env ρ) (code : UInt64) (frame : Frame) (k : Kernel ρ) : Frame × Kernel ρ :=
  let current := k.current
  let k := match current with
    | none => k
    | some i => processMarkExited env i code k
  match processDispatchNext current .exit k with
  | some next => next
  | none => (returnToKernel env code frame, k)

/-- `sys_exit`. -/
def sysExit (env : Env ρ) (code : UInt64) (frame : Frame) (k : Kernel ρ) : Frame × Kernel ρ :=
  endCurrent env code frame k

/-- `SYS_YIELD`. -/
def sysYield (frame : Frame) (k : Kernel ρ) : Frame × Kernel ρ :=
  let yielded := withCurrent (fun p => { p with regs := setReg 0 0 p.regs }) k
  match processDispatchNext k.current .preempt yielded with
  | some next => next
  | none => (frame.setX0 0, yielded)

/-- The frame is copied back to the process that is current then, `x1` to `x30` apart. -/
def saveReturn (frame : Frame) (p : Process) : Process :=
  { p with regs := setReg 0 (frame.arg 0) p.regs, pc := frame.elr, pstate := frame.spsr, sp := frame.spEl0 }

def syscallDispatch (env : Env ρ) (frame : Frame) (k : Kernel ρ) : Frame × Kernel ρ :=
  let k := { k with rest := env.poll k frame }
  let k := withCurrent (processSaveContext frame) k
  let (frame, k) :=
    if frame.arg 8 = sysExitNr then sysExit env (frame.arg 0) frame k
    else if frame.arg 8 = sysYieldNr then sysYield frame k
    else
      let (x0, k) := simpleCall env frame k
      (frame.setX0 x0, k)
  (frame, withCurrent (saveReturn frame) k)

/-! ## Faults and interrupts -/

/-- `handle_user_fault` with a current process. Without one the kernel stops; the machine never gets
there. -/
def handleUserFault (env : Env ρ) (frame : Frame) (k : Kernel ρ) : Frame × Kernel ρ :=
  endCurrent env kernelUserFaultExitCode frame (withCurrent (processSaveContext frame) k)

/-- `irq_handler_frame`; `irq` is the interrupt that `board_irq_ack` returned, `none` a spurious one. -/
def irqHandlerFrame (env : Env ρ) (irq : Option UInt32) (frame : Frame) (k : Kernel ρ) : Frame × Kernel ρ :=
  let k := withCurrent (processSaveContext frame) k
  match irq with
  | none => (frame, k)
  | some irq =>
    let k := { k with rest := env.irqWork k irq }
    let k := withCurrent
      (fun p => { p with pc := frame.elr, pstate := frame.spsr, sp := frame.spEl0 }) k
    match processDispatchNext k.current .preempt k with
    | some next => next
    | none => (frame, k)

end Armonios
