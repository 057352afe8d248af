import Armonios.Process.Trap

/-!
# The machine

The CPU and the kernel as one transition system. `Cpu` is where the CPU is; a step is an `Event`: the
kernel starts or leaves the panel, EL0 code runs, a system call, a fault or an interrupt is taken, the
CPU goes on after `irq_entry`. An interrupt may be taken at EL0, and at EL1 while interrupts are on:
before the panel is entered, and between `daifclr` and `eret` at the end of `irq_entry`. The same
handler runs in both cases, on the registers of the interrupted code.

`owed` is a ghost: for every process the context with which it has to go on, that is the one it had
when it last lost the CPU (with `x0` 0 after `SYS_YIELD`), or the one it was spawned with.
-/

namespace Armonios

variable {ρ : Type}

/-- The mode bits of a saved program status: EL0 with its own stack pointer. -/
def isEl0t (spsr : UInt64) : Bool := spsr &&& 0x1f = 0

/-- The I bit of a saved program status. -/
def irqUnmasked (spsr : UInt64) : Bool := spsr &&& 0x80 = 0

inductive Cpu
  /-- In the kernel, outside of `panel_boot_run`. -/
  | kernel
  /-- In `panel_boot_run` or `user_enter_el0`, with the panel as the current process. -/
  | launching
  /-- At EL0; the frame is what a trap would save. -/
  | user (regs : Frame)
  /-- At the `eret` of `irq_entry`, with interrupts on. -/
  | resuming (frame : Frame)
  /-- In `panel_boot_run`, after `user_enter_el0`. -/
  | returned
  /-- At EL1 with registers that came from a process-control block or from an interrupted `eret`. -/
  | astray (regs : Frame)

/-- The kernel, the CPU, and the local variables of `panel_boot_run`. -/
structure Machine (ρ : Type) where
  kernel : Kernel ρ
  cpu : Cpu
  /-- Whether interrupts are on at EL1. -/
  irqOn : Bool
  panel : SlotId
  kernelPageTable : Nat
  owed : SlotId → Option Frame

inductive Event
  | boot (memoryBase memorySize : Nat) (mapMmio : Option MapMmio)
  /-- `user_enter_el0`; `x` are the registers of the kernel that it does not set. -/
  | launch (x : Vector UInt64 31)
  /-- EL0 code runs until it has these registers. -/
  | run (regs : Frame)
  | svc
  | fault
  /-- An interrupt at EL0. -/
  | irq (irq : Option UInt32)
  /-- An interrupt at EL1; `regs` are the registers of the kernel, with the I bit of the status clear. -/
  | irqEl1 (irq : Option UInt32) (regs : Frame)
  | eret
  | leave

/-- The CPU goes where a frame says. -/
def Cpu.enter (frame : Frame) : Cpu := if isEl0t frame.spsr then .user frame else .astray frame

/-- The registers that the CPU has or is about to have, when it is not in the C code of the kernel. -/
def Cpu.frame : Cpu → Option Frame
  | .user frame => some frame
  | .resuming frame => some frame
  | .astray frame => some frame
  | _ => none

/-- The slot got a new process. -/
def spawned (k k' : Kernel ρ) (j : SlotId) : Bool :=
  decide ((k'.processes j).state = .ready) &&
    (decide ((k.processes j).state = .unused) || decide ((k.processes j).state = .zombie))

/-- The ghost after a trap at EL0 in which the process that was current had the context `lost`. -/
def owedAfter (k k' : Kernel ρ) (lost : Frame) (owed : SlotId → Option Frame) (j : SlotId) : Option Frame :=
  if spawned k k' j then some (processLoadContext (k'.processes j))
  else if k.current = some j ∧ k'.current ≠ some j then some lost
  else owed j

/-- The context that a process is owed after a system call in which it loses the CPU. -/
def lostInSvc (regs : Frame) : Frame := if regs.arg 8 = sysYieldNr then regs.setX0 0 else regs

/-- After a synchronous exception: to EL0, or back to `panel_boot_run` with interrupts off. -/
def afterSync (env : Env ρ) (m : Machine ρ) (lost : Frame) (r : Frame × Kernel ρ) : Machine ρ :=
  { m with
    kernel := r.2
    owed := owedAfter m.kernel r.2 lost m.owed
    cpu := if r.1.elr = env.returnAddress ∧ r.1.spsr = spsrEl1h then .returned else .enter r.1
    irqOn := irqUnmasked r.1.spsr }

/-- One step; `none` where the event cannot happen. -/
def Machine.next (env : Env ρ) (m : Machine ρ) : Event → Option (Machine ρ)
  | .boot memoryBase memorySize mapMmio =>
    match m.cpu with
    | .kernel =>
      match panelBootEnter env memoryBase memorySize mapMmio m.kernel with
      | .error _ k => some { m with kernel := k }
      | .ok slot k => some { m with
          kernel := k
          cpu := .launching
          panel := slot
          kernelPageTable := m.kernel.ttbr0
          owed := Function.update m.owed slot (some (processLoadContext (k.processes slot))) }
    | _ => none
  | .launch x =>
    match m.cpu with
    | .launching =>
      let p := m.kernel.processes m.panel
      some { m with
        cpu := .enter ⟨setReg 2 p.pstate (setReg 1 p.sp (setReg 0 p.pc x)), p.pc, p.pstate, p.sp⟩
        irqOn := irqUnmasked p.pstate }
    | _ => none
  | .run regs =>
    match m.cpu with
    | .user _ => if isEl0t regs.spsr then some { m with cpu := .user regs } else none
    | _ => none
  | .svc =>
    match m.cpu with
    | .user regs => some (afterSync env m (lostInSvc regs) (syscallDispatch env regs m.kernel))
    | _ => none
  | .fault =>
    match m.cpu with
    | .user regs => some (afterSync env m regs (handleUserFault env regs m.kernel))
    | _ => none
  | .irq irq =>
    match m.cpu with
    | .user regs =>
      let (frame, k) := irqHandlerFrame env irq regs m.kernel
      some { m with
        kernel := k
        cpu := .resuming frame
        owed := owedAfter m.kernel k regs m.owed
        irqOn := true }
    | _ => none
  | .irqEl1 irq regs =>
    if m.irqOn = false ∨ isEl0t regs.spsr ∨ irqUnmasked regs.spsr = false then none
    else
      let (frame, k) := irqHandlerFrame env irq regs m.kernel
      -- where the interrupted code goes on, if it does
      let back : Option Cpu := match m.cpu with
        | .kernel => some .kernel
        | .launching => some .launching
        | .resuming _ => some (.astray regs)
        | .astray _ => some (.astray regs)
        | .user _ => none
        | .returned => none
      back.map fun cpu =>
        { m with kernel := k, cpu := if k.current = m.kernel.current then cpu else .resuming frame }
  | .eret =>
    match m.cpu with
    | .resuming frame => some { m with cpu := .enter frame, irqOn := irqUnmasked frame.spsr }
    | _ => none
  | .leave =>
    match m.cpu with
    | .returned => some { m with kernel := panelBootLeave m.kernelPageTable m.panel m.kernel, cpu := .kernel }
    | _ => none

/-- The same kernel; the memory of the programs, the devices and the windows may be different. -/
structure Env.Sibling (env env' : Env ρ) : Prop where
  bootfs : env'.bootfsFind = env.bootfsFind
  returnAddress : env'.returnAddress = env.returnAddress

/-- One step with an event that satisfies `cond`. What programs and devices do to their memory between
two steps is a change of the environment. -/
def machineStep (env : Env ρ) (cond : Machine ρ → Event → Prop) (m m' : Machine ρ) : Prop :=
  ∃ env' e, env.Sibling env' ∧ cond m e ∧ m.next env' e = some m'

/-- The events one after the other. -/
def Machine.run (env : Env ρ) (m : Machine ρ) : List Event → Option (Machine ρ)
  | [] => some m
  | e :: es => (m.next env e).bind fun m => m.run env es

end Armonios
