import Armonios.Lib.Run
import Armonios.Process.Switch

/-!
# Contexts across scheduling

A process that lost the CPU goes on with the context it had then, and a process that is started has an
EL0 context from the beginning. `CtxInv` is the invariant: what is saved for a ready process is what it
is owed.

* `machineRun_contextHolds`: with interrupts from EL0 only, the dispatcher loads what is owed, and a
  system call that returns to its caller changes `x0` only;
* `machineRun_entryHolds`: if interrupts are taken at EL1 only while no process is current, every
  process is entered with its own EL0 context.
-/

namespace Armonios

variable {ρ : Type} {env : Env ρ} {k k' : Kernel ρ} {m m' : Machine ρ} {i j : SlotId}
  {regs frame lost : Frame} {ends : Prop}

/-! ## The machine -/

/-- Where the CPU is agrees with the process table; it is never astray. -/
def CpuOk (m : Machine ρ) : Prop :=
  match m.cpu with
  | .kernel => m.kernel.current = none
  | .launching => AtUser m.kernel m.panel ∧
      m.owed m.panel = some (processLoadContext (m.kernel.processes m.panel)) ∧
      isEl0t (m.kernel.processes m.panel).pstate = true
  | .user regs => isEl0t regs.spsr = true ∧ ∃ i, AtUser m.kernel i
  | .resuming frame => isEl0t frame.spsr = true ∧ ∃ i, AtUser m.kernel i
  | .returned => ∃ i, m.kernel.current = some i ∧ (m.kernel.processes i).state = .zombie
  | .astray _ => False

/-- The ready processes have the contexts that they are owed. -/
def ReadyOk (k : Kernel ρ) (owed : SlotId → Option Frame) : Prop :=
  ∀ j, (k.processes j).state = .ready →
    owed j = some (processLoadContext (k.processes j)) ∧ isEl0t (k.processes j).pstate = true

structure CtxInv (m : Machine ρ) : Prop where
  ready : ReadyOk m.kernel m.owed
  cpu : CpuOk m

theorem ReadyOk.kept {owed : SlotId → Option Frame} (h : ReadyOk k owed) (hk : ReadyKept k k') : ReadyOk k' owed := by
  intro j hj
  have hs := hk j hj
  obtain ⟨h1, h2⟩ := h j (hs.state.symm.trans hj)
  rw [hs.load, hs.pstate]
  exact ⟨h1, h2⟩

/-- After a trap the ready processes have what they are owed then. -/
theorem TrapOk.readyOk {owed : SlotId → Option Frame} {back : Frame → Prop} (h : TrapOk env k i back ends lost frame k')
    (hk : AtUser k i) (hr : ReadyOk k owed) (hlost : isEl0t lost.spsr = true) :
    ReadyOk k' (owedAfter k k' lost owed) := by
  intro j hj
  by_cases hsp : spawned k k' j = true
  · refine ⟨if_pos hsp, ?_⟩
    rcases h.ready j hj with hs | ⟨-, he⟩ | ⟨rfl, -, -⟩
    · have hstate := hs.state.symm.trans hj
      simp [spawned, hj, hstate] at hsp
    · exact he
    · simp [spawned, hk.running] at hsp
  · unfold owedAfter
    rw [if_neg hsp]
    rcases h.ready j hj with hs | ⟨hs, -⟩ | ⟨rfl, hctx, hcur⟩
    · have hstate := hs.state.symm.trans hj
      have hji : k.current ≠ some j := by
        rw [hk.current]
        intro he
        cases he
        rw [hk.running] at hstate
        cases hstate
      obtain ⟨h1, h2⟩ := hr j hstate
      rw [if_neg fun hc => hji hc.1, hs.load, hs.pstate]
      exact ⟨h1, h2⟩
    · exact absurd hs hsp
    · rw [if_pos ⟨hk.current, hcur⟩, hctx]
      refine ⟨rfl, ?_⟩
      rw [← hctx] at hlost
      exact hlost

theorem enter_user (h : isEl0t frame.spsr = true) : Cpu.enter frame = .user frame := if_pos h

/-- The frame that a trap leaves, if a process goes on. -/
theorem TrapOutcome.el0 {back : Frame → Prop} (h : TrapOutcome env k i back ends frame k')
    (hr : ReadyOk k m.owed) (hback : ∀ f, back f → isEl0t f.spsr = true) :
    (isEl0t frame.spsr = true ∧ ∃ c, AtUser k' c) ∨
      (ends ∧ frame.elr = env.returnAddress ∧ frame.spsr = spsrEl1h ∧ k'.current = some i ∧
        (k'.processes i).state = .zombie) := by
  rcases h with ⟨h1, h2, h3⟩ | ⟨j, -, h2, -, h3, h4, h5⟩ | ⟨h0, h1, h2, -, h3, h4⟩
  · exact .inl ⟨hback _ h3, i, h1, h2⟩
  · rw [h3]
    exact .inl ⟨(hr j h2).2, j, h4, h5⟩
  · exact .inr ⟨h0, h3, h4, h1, h2⟩

theorem afterSync_inv {back : Frame → Prop} {r : Frame × Kernel ρ} (h : TrapOk env m.kernel i back ends lost r.1 r.2)
    (hk : AtUser m.kernel i) (hr : ReadyOk m.kernel m.owed) (hlost : isEl0t lost.spsr = true)
    (hback : ∀ f, back f → isEl0t f.spsr = true) : CtxInv (afterSync env m lost r) := by
  refine ⟨h.readyOk hk hr hlost, ?_⟩
  unfold CpuOk afterSync
  dsimp only
  rcases h.outcome.el0 hr hback with ⟨hel, hc⟩ | ⟨-, helr, hspsr, hc, hz⟩
  · have hno : ¬(r.1.elr = env.returnAddress ∧ r.1.spsr = spsrEl1h) := by
      rintro ⟨-, hs⟩
      rw [hs] at hel
      exact absurd hel (by decide)
    rw [if_neg hno, enter_user hel]
    exact ⟨hel, hc⟩
  · rw [if_pos ⟨helr, hspsr⟩]
    exact ⟨i, hc, hz⟩

theorem lostInSvc_spsr (regs : Frame) : (lostInSvc regs).spsr = regs.spsr := by
  unfold lostInSvc
  split <;> rfl

/-- An interrupt while no process is current does nothing to the processes. -/
theorem irqHandlerFrame_idle (env : Env ρ) (hk : k.current = none) (irq : Option UInt32) (regs : Frame) :
    ∃ rest, (irqHandlerFrame env irq regs k).2 = { k with rest } := by
  have hid : ∀ f (rest : ρ), withCurrent f { k with rest } = { k with rest } := by
    intro f rest
    unfold withCurrent
    simp only [hk]
  have hd : ∀ q : Kernel ρ, processDispatchNext none .preempt q = none := fun q => if_pos ⟨rfl, rfl⟩
  have hsave := hid (processSaveContext regs) k.rest
  unfold irqHandlerFrame
  dsimp only
  split
  · exact ⟨k.rest, hsave⟩
  · rename_i n
    refine ⟨env.irqWork k n, ?_⟩
    rw [hsave, hid]
    split
    · rename_i hnext
      dsimp only at hnext
      rw [hk, hd] at hnext
      cases hnext
    · rfl

/-- One step, with interrupts at EL1 only while no process is current. -/
theorem next_ctxInv {e : Event} (h : CtxInv m) (he : ∀ irq regs, e = .irqEl1 irq regs → m.kernel.current = none)
    (hstep : m.next env e = some m') : CtxInv m' := by
  obtain ⟨hready, hcpu⟩ := h
  unfold CpuOk at hcpu
  cases e with
  | boot memoryBase memorySize mapMmio =>
    simp only [Machine.next] at hstep
    split at hstep
    · rename_i hc
      rw [hc] at hcpu
      have hspec := panelBootEnter_spec env memoryBase memorySize mapMmio hcpu
      unfold Wp at hspec
      split at hspec <;> rename_i r k' heq <;> rw [heq] at hstep <;> cases hstep
      · obtain ⟨hat, hel, hkept⟩ := hspec
        refine ⟨fun j hj => ?_, hat, Function.update_self _ _ _, hel⟩
        have hjs : j ≠ r := by
          rintro rfl
          have hrun := hat.running
          rw [hj] at hrun
          cases hrun
        dsimp only
        rw [Function.update_of_ne hjs]
        exact hready.kept hkept j hj
      · refine ⟨hready.kept hspec.2, ?_⟩
        unfold CpuOk
        dsimp only
        rw [hc]
        exact hspec.1
    · cases hstep
  | launch x =>
    simp only [Machine.next] at hstep
    split at hstep
    · rename_i hc
      rw [hc] at hcpu
      cases hstep
      refine ⟨hready, ?_⟩
      unfold CpuOk
      dsimp only
      rw [enter_user hcpu.2.2]
      exact ⟨hcpu.2.2, m.panel, hcpu.1⟩
    · cases hstep
  | run regs =>
    simp only [Machine.next] at hstep
    split at hstep
    · rename_i hc
      rw [hc] at hcpu
      split at hstep
      · rename_i hel
        cases hstep
        exact ⟨hready, hel, hcpu.2⟩
      · cases hstep
    · cases hstep
  | svc =>
    simp only [Machine.next] at hstep
    split at hstep
    · rename_i regs hc
      rw [hc] at hcpu
      cases hstep
      obtain ⟨hel, i, hat⟩ := hcpu
      refine afterSync_inv hat.syscallDispatch hat hready (by rw [lostInSvc_spsr]; exact hel) fun f hf => ?_
      obtain ⟨v, rfl⟩ := hf
      exact hel
    · cases hstep
  | fault =>
    simp only [Machine.next] at hstep
    split at hstep
    · rename_i regs hc
      rw [hc] at hcpu
      cases hstep
      obtain ⟨hel, i, hat⟩ := hcpu
      exact afterSync_inv (hat.handleUserFault env regs) hat hready hel fun f hf => hf.elim
    · cases hstep
  | irq irq =>
    simp only [Machine.next] at hstep
    split at hstep
    · rename_i regs hc
      rw [hc] at hcpu
      cases hstep
      obtain ⟨hel, i, hat⟩ := hcpu
      have htrap := hat.irqHandlerFrame env regs irq
      refine ⟨htrap.readyOk hat hready hel, ?_⟩
      rcases htrap.outcome.el0 hready fun f hf => hf ▸ hel with hc | ⟨hfalse, -⟩
      · exact hc
      · exact hfalse.elim
    · cases hstep
  | irqEl1 irq regs =>
    have hnone := he irq regs rfl
    obtain ⟨rest, hkernel⟩ := irqHandlerFrame_idle env hnone irq regs
    simp only [Machine.next, hkernel] at hstep
    split at hstep
    · cases hstep
    -- the CPU is at EL1, outside of `panel_boot_run`: elsewhere a process is current
    cases hc : m.cpu with
    | kernel =>
      rw [hc] at hstep
      simp only [Option.map_some, if_true] at hstep
      cases hstep
      exact ⟨hready, hnone⟩
    | launching =>
      rw [hc] at hcpu
      have hat := hcpu.1.current
      rw [hnone] at hat
      cases hat
    | user regs =>
      rw [hc] at hcpu
      obtain ⟨-, i, hat⟩ := hcpu
      have hat := hat.current
      rw [hnone] at hat
      cases hat
    | resuming frame =>
      rw [hc] at hcpu
      obtain ⟨-, i, hat⟩ := hcpu
      have hat := hat.current
      rw [hnone] at hat
      cases hat
    | returned =>
      rw [hc] at hcpu
      obtain ⟨i, hat, -⟩ := hcpu
      rw [hnone] at hat
      cases hat
    | astray regs =>
      rw [hc] at hcpu
      exact hcpu.elim
  | eret =>
    simp only [Machine.next] at hstep
    split at hstep
    · rename_i frame hc
      rw [hc] at hcpu
      cases hstep
      refine ⟨hready, ?_⟩
      unfold CpuOk
      dsimp only
      rw [enter_user hcpu.1]
      exact hcpu
    · cases hstep
  | leave =>
    simp only [Machine.next] at hstep
    split at hstep
    · rename_i hc
      rw [hc] at hcpu
      cases hstep
      obtain ⟨i, hcur, hz⟩ := hcpu
      obtain ⟨hnone, hkept⟩ := panelBootLeave_spec hcur hz
      exact ⟨hready.kept hkept, hnone⟩
    · cases hstep

/-! ## Runs -/

/-- Before the first `panel_boot_run`. -/
structure Booted (m : Machine ρ) : Prop where
  cpu : m.cpu = .kernel
  current : m.kernel.current = none
  unused : ∀ i, (m.kernel.processes i).state = .unused

theorem Booted.ctxInv (h : Booted m) : CtxInv m := by
  refine ⟨fun j hj => ?_, ?_⟩
  · rw [h.unused] at hj
    cases hj
  · unfold CpuOk
    rw [h.cpu]
    exact h.current

/-- Interrupts are taken at EL0, and at EL1 only while no process is current. -/
def IrqIdle (m : Machine ρ) (e : Event) : Prop :=
  ∀ irq regs, e = .irqEl1 irq regs → m.kernel.current = none

/-- Interrupts are taken at EL0. -/
def IrqFromEl0 (_ : Machine ρ) (e : Event) : Prop := ∀ irq regs, e ≠ .irqEl1 irq regs

theorem IrqFromEl0.idle {e : Event} (h : IrqFromEl0 m e) : IrqIdle m e :=
  fun irq regs he => absurd he (h irq regs)

/-- The invariant in every state of a run. -/
theorem machineRun_ctxInv {cond : Machine ρ → Event → Prop} (hcond : ∀ m e, cond m e → IrqIdle m e)
    (hm : Booted m) (hrun : Run (machineStep env cond) m m') : CtxInv m' := by
  refine hrun.invariant CtxInv (fun s t hs hst => ?_) hm.ctxInv
  obtain ⟨env', e, -, he, hnext⟩ := hst
  exact next_ctxInv hs (hcond s e he) hnext

theorem Machine.run_steps {cond : Machine ρ → Event → Prop} {es : List Event} (hes : ∀ e ∈ es, ∀ m, cond m e)
    (h : m.run env es = some m') : Run (machineStep env cond) m m' := by
  induction es generalizing m with
  | nil =>
    cases h
    exact .refl
  | cons e es ih =>
    obtain ⟨m₁, hnext, hrest⟩ := Option.bind_eq_some_iff.mp h
    exact .head ⟨env, e, ⟨rfl, rfl⟩, hes e List.mem_cons_self m, hnext⟩
      (ih (fun e' he' => hes e' (List.mem_cons_of_mem _ he')) hrest)

/-- In this step `process_dispatch_next` made the process in `j` current and loaded the frame. -/
structure DispatchedTo (m m' : Machine ρ) (j : SlotId) (frame : Frame) : Prop where
  current : m'.kernel.current = some j
  before : m.kernel.current ≠ some j
  frame : m'.cpu.frame = some frame

theorem TrapOutcome.switch {back : Frame → Prop} (h : TrapOutcome env k i back ends frame k')
    (hi : k.current = some i) (hj : k'.current = some j) (hne : k.current ≠ some j) :
    (k.processes j).state = .ready ∧ frame = processLoadContext (k.processes j) := by
  have hij : i ≠ j := by
    rintro rfl
    exact hne hi
  rcases h with ⟨h1, -, -⟩ | ⟨l, -, h2, -, h3, h4, -⟩ | ⟨-, h1, -, -, -, -⟩
  · rw [hj] at h1
    cases h1
    exact absurd rfl hij
  · rw [hj] at h4
    cases h4
    exact ⟨h2, h3⟩
  · rw [hj] at h1
    cases h1
    exact absurd rfl hij

theorem afterSync_frame {r : Frame × Kernel ρ} (h : (afterSync env m lost r).cpu.frame = some frame) :
    frame = r.1 := by
  unfold afterSync Cpu.enter at h
  dsimp only at h
  split at h
  · cases h
  split at h <;> cases h <;> rfl

/-- A process is dispatched with the context that was saved for it. -/
theorem next_dispatched {e : Event} (h : CtxInv m) (he : IrqIdle m e) (hstep : m.next env e = some m')
    (hd : DispatchedTo m m' j frame) :
    (m.kernel.processes j).state = .ready ∧ frame = processLoadContext (m.kernel.processes j) := by
  obtain ⟨hcur, hne, hframe⟩ := hd
  have hcpu := h.cpu
  unfold CpuOk at hcpu
  cases e with
  | boot memoryBase memorySize mapMmio =>
    simp only [Machine.next] at hstep
    split at hstep
    · rename_i hc
      split at hstep <;> cases hstep
      · rw [hc] at hframe
        cases hframe
      · cases hframe
    · cases hstep
  | svc =>
    simp only [Machine.next] at hstep
    split at hstep
    · rename_i regs hc
      rw [hc] at hcpu
      cases hstep
      obtain ⟨-, i, hat⟩ := hcpu
      rw [afterSync_frame hframe]
      exact hat.syscallDispatch.outcome.switch hat.current hcur hne
    · cases hstep
  | fault =>
    simp only [Machine.next] at hstep
    split at hstep
    · rename_i regs hc
      rw [hc] at hcpu
      cases hstep
      obtain ⟨-, i, hat⟩ := hcpu
      rw [afterSync_frame hframe]
      exact (hat.handleUserFault env regs).outcome.switch hat.current hcur hne
    · cases hstep
  | irq irq =>
    simp only [Machine.next] at hstep
    split at hstep
    · rename_i regs hc
      rw [hc] at hcpu
      cases hstep
      cases hframe
      obtain ⟨-, i, hat⟩ := hcpu
      exact (hat.irqHandlerFrame env regs irq).outcome.switch hat.current hcur hne
    · cases hstep
  | irqEl1 irq regs =>
    -- no process is current, and none is dispatched
    have hnone := he irq regs rfl
    obtain ⟨rest, hkernel⟩ := irqHandlerFrame_idle env hnone irq regs
    simp only [Machine.next, hkernel] at hstep
    split at hstep
    · cases hstep
    rw [Option.map_eq_some_iff] at hstep
    obtain ⟨cpu, -, rfl⟩ := hstep
    exact absurd hcur hne
  | leave =>
    simp only [Machine.next] at hstep
    split at hstep <;> cases hstep
    cases hframe
  | launch x =>
    simp only [Machine.next] at hstep
    split at hstep <;> cases hstep
    exact absurd hcur hne
  | run regs =>
    simp only [Machine.next] at hstep
    split at hstep
    · split at hstep <;> cases hstep
      exact absurd hcur hne
    · cases hstep
  | eret =>
    simp only [Machine.next] at hstep
    split at hstep <;> cases hstep
    exact absurd hcur hne

/-- A system call that returns to its caller sets `x0`. -/
theorem next_svc (h : CtxInv m) (hc : m.cpu = .user regs) (hstep : m.next env .svc = some m')
    (hcur : m'.kernel.current = m.kernel.current) (hframe : m'.cpu = .user frame) :
    ∃ v, frame = regs.setX0 v := by
  have hcpu := h.cpu
  unfold CpuOk at hcpu
  rw [hc] at hcpu
  obtain ⟨-, i, hat⟩ := hcpu
  simp only [Machine.next, hc] at hstep
  cases hstep
  have hf := afterSync_frame (by rw [hframe]; rfl)
  rw [hat.current] at hcur
  rcases hat.syscallDispatch.outcome with ⟨-, -, hback⟩ | ⟨l, hl, -, -, -, h4, -⟩ | ⟨-, -, -, -, h3, h4⟩
  · rw [hf]
    exact hback
  · have hil : some i = some l := hcur.symm.trans h4
    cases hil
    exact absurd rfl hl
  · have hret : (afterSync env m (lostInSvc regs) (syscallDispatch env regs m.kernel)).cpu = .returned :=
      if_pos ⟨h3, h4⟩
    rw [hret] at hframe
    cases hframe

/-- Contexts are kept across scheduling: what is dispatched is what the process lost or was started
with, and a system call that returns to its caller changes `x0` only. -/
structure ContextHolds (m : Machine ρ) (e : Event) (m' : Machine ρ) : Prop where
  dispatch : ∀ j frame, DispatchedTo m m' j frame → m.owed j = some frame
  svc : ∀ regs frame, e = .svc → m.cpu = .user regs → m'.kernel.current = m.kernel.current →
    m'.cpu = .user frame → ∃ v, frame = regs.setX0 v

/-- Every process is entered with its own EL0 context. -/
structure EntryHolds (m : Machine ρ) (e : Event) (m' : Machine ρ) : Prop where
  dispatch : ∀ j frame, DispatchedTo m m' j frame → m.owed j = some frame ∧ isEl0t frame.spsr = true
  /-- `user_enter_el0` is given the program counter, the stack and the program status. -/
  launch : ∀ x, e = .launch x → ∃ own frame, m.owed m.panel = some own ∧ m'.cpu = .user frame ∧
    isEl0t frame.spsr = true ∧ frame.elr = own.elr ∧ frame.spEl0 = own.spEl0 ∧ frame.spsr = own.spsr
  eret : ∀ frame, e = .eret → m.cpu = .resuming frame → m'.cpu = .user frame
  saved : ∀ j, (m'.kernel.processes j).state = .ready →
    m'.owed j = some (processLoadContext (m'.kernel.processes j)) ∧
      isEl0t (m'.kernel.processes j).pstate = true

/-- With interrupts from EL0 only, contexts are kept in every step of every run. -/
theorem machineRun_contextHolds {m₀ : Machine ρ} {e : Event} (hm : Booted m₀)
    (hrun : Run (machineStep env IrqFromEl0) m₀ m) (he : IrqFromEl0 m e) (hstep : m.next env e = some m') :
    ContextHolds m e m' := by
  have hinv := machineRun_ctxInv (fun _ _ h => h.idle) hm hrun
  refine ⟨fun j frame hd => ?_, fun regs frame hsvc hc hcur hframe => ?_⟩
  · obtain ⟨hready, rfl⟩ := next_dispatched hinv he.idle hstep hd
    exact (hinv.ready j hready).1
  · subst hsvc
    exact next_svc hinv hc hstep hcur hframe

/-! A machine of 64 pages on which every program has one entry. The panel is started, spawns a program and
yields to it. -/

/-- The header of a flat image with the entry offset 80, and four bytes. -/
def sampleImage : List UInt8 :=
  [0x4b, 0x4c, 0x49, 0x31, 80, 0, 1, 0, 84, 0, 0, 0, 0, 0, 0, 0, 80] ++ List.replicate 67 0

/-- The image of the panel holds the path `/armonios/a`. -/
def sampleEnv : Env Unit where
  destroyWindows _ _ := ()
  bootfsFind _ := some sampleImage
  byte a := (armoniosRoot ++ [97]).getD (a - 0x400000) 0
  poll _ _ := ()
  other _ _ := none
  irqWork _ _ := ()
  returnAddress := 0x80000

def sampleMachine : Machine Unit where
  kernel := {
    vm := ⟨pmmInit 0x40000000 (64 * pageSize), fun _ _ => 0⟩
    processes := fun _ => { processInit 0 [] with state := .unused }
    current := none
    processCount := 0
    ttbr0 := 0
    nextSpawnPid := 2
    spawnMemoryBase := 0
    spawnMemorySize := 0
    spawnMapMmio := none
    rest := () }
  cpu := .kernel
  irqOn := true
  panel := firstSlot
  kernelPageTable := 0
  owed _ := none

def sampleRegs : Vector UInt64 31 := Vector.replicate 31 0

def sampleSpawn : Frame := ⟨setReg 0 0x400000 (setReg 8 sysSpawnNr sampleRegs), 0x400100, spsrEl0t, 0x801000⟩

def sampleYield : Frame := ⟨setReg 7 7 (setReg 8 sysYieldNr sampleRegs), 0x400104, spsrEl0t, 0x801000⟩

def sampleBoot : Event := .boot 0x40000000 pageSize none

def sampleEvents : List Event :=
  [sampleBoot, .launch sampleRegs, .run sampleSpawn, .svc, .run sampleYield]

theorem sampleMachine_booted : Booted sampleMachine := ⟨rfl, rfl, fun _ => rfl⟩

theorem sampleEvents_fromEl0 : ∀ e ∈ sampleEvents, ∀ m : Machine Unit, IrqFromEl0 m e := by
  intro e he m irq regs heq
  subst heq
  simp [sampleEvents, sampleBoot] at he

/-- The state of a run on the sample in which `f` is `v`. -/
theorem exists_sampleRun {α : Type} (es : List Event) (f : Machine Unit → α) (v : α)
    (h : (sampleMachine.run sampleEnv es).map f = some v) :
    ∃ m, sampleMachine.run sampleEnv es = some m ∧ f m = v :=
  Option.map_eq_some_iff.mp h

theorem machineRun_contextHolds_sample : ∃ m m' : Machine Unit,
    Run (machineStep sampleEnv IrqFromEl0) sampleMachine m ∧ m.kernel.current = some 0 ∧
      m.next sampleEnv .svc = some m' ∧ m'.kernel.current = some 1 ∧ ContextHolds m .svc m' := by
  obtain ⟨m, hm, hf⟩ := exists_sampleRun sampleEvents
    (fun m => (m.kernel.current, (m.next sampleEnv .svc).map fun m' => m'.kernel.current))
    (some 0, some (some 1)) (by decide +kernel)
  obtain ⟨hcur, hnext⟩ := Prod.mk.inj hf
  obtain ⟨m', hstep, hcur'⟩ := Option.map_eq_some_iff.mp hnext
  have hrun := Machine.run_steps sampleEvents_fromEl0 hm
  exact ⟨m, m', hrun, hcur, hstep, hcur', machineRun_contextHolds sampleMachine_booted hrun
    (fun _ _ h => by cases h) hstep⟩

/-- With interrupts at EL1 only while no process is current, every process is entered with its own EL0
context, in every step of every run. -/
theorem machineRun_entryHolds {m₀ : Machine ρ} {e : Event} (hm : Booted m₀)
    (hrun : Run (machineStep env IrqIdle) m₀ m) (he : IrqIdle m e) (hstep : m.next env e = some m') :
    EntryHolds m e m' := by
  have hinv := machineRun_ctxInv (fun _ _ h => h) hm hrun
  have hcpu := hinv.cpu
  unfold CpuOk at hcpu
  refine ⟨fun j frame hd => ?_, fun x hx => ?_, fun frame heret hc => ?_, (next_ctxInv hinv he hstep).ready⟩
  · obtain ⟨hready, rfl⟩ := next_dispatched hinv he hstep hd
    exact hinv.ready j hready
  · subst hx
    simp only [Machine.next] at hstep
    split at hstep
    · rename_i hc
      rw [hc] at hcpu
      cases hstep
      exact ⟨_, _, hcpu.2.1, enter_user hcpu.2.2, hcpu.2.2, rfl, rfl, rfl⟩
    · cases hstep
  · subst heret
    rw [hc] at hcpu
    simp only [Machine.next, hc] at hstep
    cases hstep
    exact enter_user hcpu.1

/-- The registers of the kernel in `panel_boot_run`. -/
def sampleKernelRegs : Frame := ⟨sampleRegs, 0x40001000, 0x305, 0⟩

/-- An interrupt before the panel is started, and then the run above. -/
theorem machineRun_entryHolds_sample : ∃ m m' : Machine Unit,
    Run (machineStep sampleEnv IrqIdle) sampleMachine m ∧ m.kernel.current = some 0 ∧
      m.next sampleEnv .svc = some m' ∧ m'.kernel.current = some 1 ∧ EntryHolds m .svc m' := by
  obtain ⟨m, hm, hf⟩ := exists_sampleRun (.irqEl1 (some 30) sampleKernelRegs :: sampleEvents)
    (fun m => (m.kernel.current, (m.next sampleEnv .svc).map fun m' => m'.kernel.current))
    (some 0, some (some 1)) (by decide +kernel)
  obtain ⟨hcur, hnext⟩ := Prod.mk.inj hf
  obtain ⟨m', hstep, hcur'⟩ := Option.map_eq_some_iff.mp hnext
  obtain ⟨m₁, hirq, hrest⟩ := Option.bind_eq_some_iff.mp hm
  have hrun : Run (machineStep sampleEnv IrqIdle) sampleMachine m :=
    .head ⟨_, _, ⟨rfl, rfl⟩, fun _ _ _ => rfl, hirq⟩
      (Machine.run_steps (fun e he m => (sampleEvents_fromEl0 e he m).idle) hrest)
  exact ⟨m, m', hrun, hcur, hstep, hcur', machineRun_entryHolds sampleMachine_booted hrun
    (fun _ _ h => by cases h) hstep⟩

/-- An interrupt between `process_set_current` and `user_enter_el0` replaces the context of the panel,
which is then entered at EL1, in the middle of `panel_boot_run`. -/
theorem irq_before_launch_replaces_context : ∃ m m' : Machine Unit,
    Run (machineStep sampleEnv fun _ _ => True) sampleMachine m ∧
      m.next sampleEnv (.launch sampleRegs) = some m' ∧
      m'.cpu.frame.map (fun frame => (frame.elr, frame.spsr)) = some (0x40001000, 0x305) ∧
      ¬EntryHolds m (.launch sampleRegs) m' := by
  obtain ⟨m, hm, hf⟩ := exists_sampleRun [sampleBoot, .irqEl1 (some 30) sampleKernelRegs]
    (fun m => (m.next sampleEnv (.launch sampleRegs)).map fun m' =>
      m'.cpu.frame.map fun frame => (frame.elr, frame.spsr))
    (some (some (0x40001000, 0x305))) (by decide +kernel)
  obtain ⟨m', hstep, hframe⟩ := Option.map_eq_some_iff.mp hf
  refine ⟨m, m', Machine.run_steps (fun _ _ _ => trivial) hm, hstep, hframe, fun h => ?_⟩
  obtain ⟨own, frame, -, hcpu, hel, -⟩ := h.launch sampleRegs rfl
  rw [hcpu] at hframe
  simp only [Cpu.frame, Option.map_some, Option.some.injEq, Prod.mk.injEq] at hframe
  rw [hframe.2] at hel
  exact absurd hel (by decide)

end Armonios
