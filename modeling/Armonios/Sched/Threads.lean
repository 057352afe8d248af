import Mathlib
import Armonios.Lib.Run

/-!
# Kernel threads

The cooperative scheduler of `kernel/sched/sched.c` with `switch_context` of `kernel/sched/switch.S`. A thread has the
processor until it yields or ends. Its context is what the C calling convention lets it rely on: the callee-saved
registers, the stack pointer and the return address.

A step of the system is a call of the scheduler, a timer tick, or some work of whoever has the processor, which may
leave any values in the registers. The registers of a call are those of its caller; the frames of the scheduler's own
functions are left out. What `pmm_alloc_pages` returns is an input.

* `schedStep_turn`: what a step is for a thread that waits;
* `schedRun_turn`: a thread that is ready has the processor after at most three calls of others;
* `schedRun_resumes`: a thread that yields has it again, with its registers;
* `schedRun_threads`: the threads, their numbers and the counters in every run.
-/

namespace Armonios

/-! ## The scheduler -/

abbrev schedMaxThreads : Nat := 4

def schedStackPages : UInt64 := 4

abbrev ThreadId := Fin schedMaxThreads

/-- `sched_context_t`, which is also what `switch_context` stores and loads. -/
structure SchedContext where
  x19 : UInt64
  x20 : UInt64
  x21 : UInt64
  x22 : UInt64
  x23 : UInt64
  x24 : UInt64
  x25 : UInt64
  x26 : UInt64
  x27 : UInt64
  x28 : UInt64
  x29 : UInt64
  sp : UInt64
  lr : UInt64
  deriving DecidableEq, Repr

/-- `thread_state_t`. -/
inductive ThreadState
  | unused
  | ready
  | running
  | zombie
  deriving DecidableEq, Repr

/-- `kernel_thread_t`; the name is a pointer. -/
structure KernelThread where
  pid : UInt32
  state : ThreadState
  context : SchedContext
  stackBase : UInt64
  name : UInt64

/-- The variables of `sched.c`. -/
structure Sched where
  ticks : UInt64
  quantums : UInt64
  quantumTicks : UInt32
  ticksLeft : UInt32
  threads : ThreadId → KernelThread
  current : Option ThreadId
  threadCount : UInt32
  nextPid : UInt32

namespace Sched

variable (s : Sched)

def setThread (i : ThreadId) (thread : KernelThread) : Sched :=
  { s with threads := Function.update s.threads i thread }

def setState (i : ThreadId) (state : ThreadState) : Sched := s.setThread i { s.threads i with state }

def schedInit (quantumTicks : UInt32) : Sched :=
  let quantumTicks := if quantumTicks = 0 then 1 else quantumTicks
  { ticks := 0, quantums := 0, quantumTicks, ticksLeft := quantumTicks, current := none, threadCount := 0, nextPid := 1,
    threads := fun i => { s.threads i with pid := 0, state := .unused, stackBase := 0, name := 0 } }

def nextRunnableThread : Option ThreadId :=
  let start := match s.current with
    | none => 0
    | some i => i.val + 1
  ((List.range schedMaxThreads).map fun offset => Fin.ofNat schedMaxThreads (start + offset)).find? fun i =>
    (s.threads i).state = .ready

/-- `sched_create_kernel_thread`, where `pmm_alloc_pages` returns `stack` and `sched_thread_trampoline` is at
`trampoline`; `none` is -1. -/
def schedCreateKernelThread (trampoline entry arg name stack : UInt64) : Option Sched :=
  if entry = 0 then none
  else
    match (List.finRange schedMaxThreads).find? fun i => (s.threads i).state = .unused with
    | none => none
    | some i =>
      if stack = 0 then none
      else
        let context : SchedContext :=
          { x19 := entry, x20 := arg, x21 := 0, x22 := 0, x23 := 0, x24 := 0, x25 := 0, x26 := 0, x27 := 0, x28 := 0,
            x29 := 0, sp := stack + schedStackPages * 4096, lr := trampoline }
        let thread : KernelThread := { pid := s.nextPid, state := .ready, context, stackBase := stack, name }
        some { s.setThread i thread with nextPid := s.nextPid + 1, threadCount := s.threadCount + 1 }

def schedOnTimerTick : Sched :=
  let ticksLeft := if 0 < s.ticksLeft then s.ticksLeft - 1 else s.ticksLeft
  if ticksLeft = 0 then { s with ticks := s.ticks + 1, quantums := s.quantums + 1, ticksLeft := s.quantumTicks }
  else { s with ticks := s.ticks + 1, ticksLeft }

@[simp] theorem schedOnTimerTick_threads : s.schedOnTimerTick.threads = s.threads := by
  unfold schedOnTimerTick
  extract_lets
  split <;> rfl

@[simp] theorem schedOnTimerTick_current : s.schedOnTimerTick.current = s.current := by
  unfold schedOnTimerTick
  extract_lets
  split <;> rfl

@[simp] theorem schedOnTimerTick_threadCount : s.schedOnTimerTick.threadCount = s.threadCount := by
  unfold schedOnTimerTick
  extract_lets
  split <;> rfl

@[simp] theorem schedOnTimerTick_nextPid : s.schedOnTimerTick.nextPid = s.nextPid := by
  unfold schedOnTimerTick
  extract_lets
  split <;> rfl

end Sched

/-- The scheduler, the registers of the processor, and whether it spins in `sched_thread_exit`. -/
structure SchedSystem where
  sched : Sched
  regs : SchedContext
  idle : Bool

namespace SchedSystem

variable (w : SchedSystem)

/-- `next` is the running thread, and `switch_context` has loaded its registers. -/
def switchTo (next : ThreadId) : SchedSystem :=
  { w with
    sched := { w.sched.setState next .running with current := some next }
    regs := (w.sched.threads next).context }

/-- `switch_context` has stored the registers in the context of `old`. -/
def saveTo (old : ThreadId) (state : ThreadState) : SchedSystem :=
  { w with sched := w.sched.setThread old { w.sched.threads old with state, context := w.regs } }

/-- `sched_start`: the boot context is stored on the stack and never loaded. -/
def schedStart : SchedSystem :=
  match w.sched.nextRunnableThread with
  | none => w
  | some next => w.switchTo next

def schedYield : SchedSystem :=
  match w.sched.current with
  | none => w
  | some old =>
    match w.sched.nextRunnableThread with
    | none => w
    | some next => if next = old then w else (w.saveTo old .ready).switchTo next

/-- `sched_thread_exit`. Without another thread the processor waits for events for ever. -/
def schedThreadExit : SchedSystem :=
  match w.sched.current with
  | none => { w with idle := true }
  | some old =>
    let ended := { w.sched.setState old .zombie with
      threadCount := if 0 < w.sched.threadCount then w.sched.threadCount - 1 else w.sched.threadCount }
    match ended.nextRunnableThread with
    | none => { w with sched := ended, idle := true }
    | some next => ({ w with sched := ended }.saveTo old .zombie).switchTo next

end SchedSystem

inductive SchedEvent
  /-- Whoever has the processor works. -/
  | work (regs : SchedContext)
  | create (entry arg name stack : UInt64)
  | start
  | yield
  | exit
  | tick

/-- The calls with which the processor is given away. -/
def SchedEvent.gives : SchedEvent → Bool
  | .yield | .exit => true
  | _ => false

/-- A step. The kernel starts the threads once, and a processor that waits for ever has its timer only. -/
def schedStep (trampoline : UInt64) (w : SchedSystem) : SchedEvent → Option SchedSystem
  | .tick => some { w with sched := w.sched.schedOnTimerTick }
  | .work regs => if w.idle then none else some { w with regs }
  | .create entry arg name stack =>
    if w.idle then none
    else some { w with sched := (w.sched.schedCreateKernelThread trampoline entry arg name stack).getD w.sched }
  | .start => if w.idle ∨ w.sched.current ≠ none then none else some w.schedStart
  | .yield => if w.idle then none else some w.schedYield
  | .exit => if w.idle then none else some w.schedThreadExit

/-- The steps one after the other. -/
def schedRun (trampoline : UInt64) (w : SchedSystem) : List SchedEvent → Option SchedSystem
  | [] => some w
  | e :: es => (schedStep trampoline w e).bind fun w => schedRun trampoline w es

/-! ## The next thread -/

/-- How many threads the search after `c` looks at before `i`. -/
def roundDistance (c i : ThreadId) : Nat := (i.val + schedMaxThreads - (c.val + 1)) % schedMaxThreads

theorem roundDistance_le {c i : ThreadId} (h : i ≠ c) : roundDistance c i ≤ 2 := by
  revert h
  decide +revert

/-- From a thread that is met earlier, `i` is closer. -/
theorem roundDistance_lt {c n i : ThreadId} (h : roundDistance c n ≤ roundDistance c i) (hne : n ≠ i) :
    roundDistance n i < roundDistance c i := by
  revert h hne
  decide +revert

section Search

variable {s : Sched} {c n i : ThreadId}

/-- The threads in the order of the search. -/
theorem round_places (c : ThreadId) : ((List.range schedMaxThreads).map fun offset =>
    Fin.ofNat schedMaxThreads (c.val + 1 + offset)) = [c + 1, c + 2, c + 3, c] := by
  decide +revert

theorem round_cases (c i : ThreadId) : i = c + 1 ∨ i = c + 2 ∨ i = c + 3 ∨ i = c := by
  decide +revert

theorem roundDistance_places (c : ThreadId) : roundDistance c (c + 1) = 0 ∧ roundDistance c (c + 2) = 1 ∧
    roundDistance c (c + 3) = 2 ∧ roundDistance c c = 3 := by
  decide +revert

theorem nextRunnableThread_some (hc : s.current = some c) (h : s.nextRunnableThread = some n) :
    (s.threads n).state = .ready ∧ ∀ i, (s.threads i).state = .ready → roundDistance c n ≤ roundDistance c i := by
  unfold Sched.nextRunnableThread at h
  simp only [hc] at h
  rw [round_places] at h
  obtain ⟨h1, h2, h3, h4⟩ := roundDistance_places c
  have hready := List.find?_some h
  refine ⟨by simpa using hready, fun i hi => ?_⟩
  simp only [List.find?_cons] at h
  rcases round_cases c i with rfl | rfl | rfl | rfl <;> grind

theorem exists_nextRunnable (hc : s.current = some c) (hi : (s.threads i).state = .ready) :
    ∃ n, s.nextRunnableThread = some n := by
  unfold Sched.nextRunnableThread
  simp only [hc]
  rw [round_places, ← Option.isSome_iff_exists, List.find?_isSome]
  refine ⟨i, ?_, by simpa using hi⟩
  rcases round_cases c i with rfl | rfl | rfl | rfl <;> simp

end Search

/-! ## A thread that waits -/

section Turn

variable {trampoline : UInt64} {w w' : SchedSystem} {c n i : ThreadId} {context : SchedContext} {e : SchedEvent}
  {es : List SchedEvent}

/-- The thread has the processor, with these registers. -/
structure HasTurn (w : SchedSystem) (i : ThreadId) (context : SchedContext) : Prop where
  current : w.sched.current = some i
  running : (w.sched.threads i).state = .running
  regs : w.regs = context

/-- The thread waits with these registers in its context, and `c` has the processor. -/
structure AwaitsTurn (w : SchedSystem) (c i : ThreadId) (context : SchedContext) : Prop where
  current : w.sched.current = some c
  running : (w.sched.threads c).state = .running
  ready : (w.sched.threads i).state = .ready
  kept : (w.sched.threads i).context = context

theorem AwaitsTurn.ne (h : AwaitsTurn w c i context) : i ≠ c := by
  rintro rfl
  have hrunning := h.running
  rw [h.ready] at hrunning
  cases hrunning

/-- The processor goes from `c` to the next thread. -/
theorem AwaitsTurn.switch (h : AwaitsTurn w c i context) {s : Sched} {state : ThreadState}
    (hcurrent : s.current = some c) (hthreads : ∀ j, j ≠ c → s.threads j = w.sched.threads j)
    (hn : s.nextRunnableThread = some n) (hnc : n ≠ c) :
    HasTurn (({ w with sched := s }.saveTo c state).switchTo n) i context ∨
      AwaitsTurn (({ w with sched := s }.saveTo c state).switchTo n) n i context ∧
        roundDistance n i < roundDistance c i := by
  have hi : s.threads i = w.sched.threads i := hthreads i h.ne
  by_cases hni : n = i
  · subst hni
    left
    refine ⟨rfl, ?_, ?_⟩
    · simp [SchedSystem.switchTo, Sched.setState, Sched.setThread]
    · simp [SchedSystem.switchTo, SchedSystem.saveTo, Sched.setThread, hnc, hi, h.kept]
  · right
    have hready : (s.threads i).state = .ready := by rw [hi, h.ready]
    have hle := (nextRunnableThread_some hcurrent hn).2 i hready
    refine ⟨⟨rfl, ?_, ?_, ?_⟩, roundDistance_lt hle hni⟩
    · simp [SchedSystem.switchTo, Sched.setState, Sched.setThread]
    · simp [SchedSystem.switchTo, SchedSystem.saveTo, Sched.setState, Sched.setThread, Ne.symm hni, h.ne, hready]
    · simp [SchedSystem.switchTo, SchedSystem.saveTo, Sched.setState, Sched.setThread, Ne.symm hni, h.ne, hi, h.kept]

/-- A new thread takes the first unused place. -/
theorem schedCreateKernelThread_some {s s' : Sched} {entry arg name stack : UInt64}
    (h : s.schedCreateKernelThread trampoline entry arg name stack = some s') :
    ∃ j thread, (s.threads j).state = .unused ∧ (∀ i, i.val < j.val → (s.threads i).state ≠ .unused) ∧
      thread.state = .ready ∧ thread.pid = s.nextPid ∧
      s' = { s.setThread j thread with nextPid := s.nextPid + 1, threadCount := s.threadCount + 1 } := by
  unfold Sched.schedCreateKernelThread at h
  split at h
  · cases h
  · split at h
    · cases h
    · rename_i j hj
      split at h
      · cases h
      · cases h
        refine ⟨j, _, by simpa using List.find?_some hj, fun i hi hunused => ?_, rfl, rfl, rfl⟩
        obtain ⟨-, k, hk, hkj, hbefore⟩ := List.find?_eq_some_iff_getElem.1 hj
        simp only [List.getElem_finRange] at hkj
        have := hbefore i.val (by rw [← hkj] at hi; simpa using hi)
        simp [hunused] at this

theorem AwaitsTurn.create (h : AwaitsTurn w c i context) (entry arg name stack : UInt64) :
    AwaitsTurn { w with sched := (w.sched.schedCreateKernelThread trampoline entry arg name stack).getD w.sched } c i
      context := by
  cases hs : w.sched.schedCreateKernelThread trampoline entry arg name stack with
  | none => exact h
  | some s' =>
    obtain ⟨j, thread, hunused, -, -, -, rfl⟩ := schedCreateKernelThread_some hs
    have hjc : c ≠ j := by
      rintro rfl
      rw [h.running] at hunused
      cases hunused
    have hji : i ≠ j := by
      rintro rfl
      rw [h.ready] at hunused
      cases hunused
    refine ⟨h.current, ?_, ?_, ?_⟩
    · simpa [Sched.setThread, hjc] using h.running
    · simpa [Sched.setThread, hji] using h.ready
    · simpa [Sched.setThread, hji] using h.kept

theorem AwaitsTurn.yield (h : AwaitsTurn w c i context) : HasTurn w.schedYield i context ∨
    ∃ n, AwaitsTurn w.schedYield n i context ∧ roundDistance n i < roundDistance c i := by
  obtain ⟨n, hn⟩ := exists_nextRunnable h.current h.ready
  have hnc : n ≠ c := by
    rintro rfl
    have hready := (nextRunnableThread_some h.current hn).1
    rw [h.running] at hready
    cases hready
  have hyield : w.schedYield = ({ w with sched := w.sched }.saveTo c .ready).switchTo n := by
    simp only [SchedSystem.schedYield, h.current, hn, if_neg hnc]
  rw [hyield]
  exact (h.switch h.current (fun _ _ => rfl) hn hnc).imp_right fun h => ⟨n, h⟩

theorem AwaitsTurn.exit (h : AwaitsTurn w c i context) : HasTurn w.schedThreadExit i context ∨
    ∃ n, AwaitsTurn w.schedThreadExit n i context ∧ roundDistance n i < roundDistance c i := by
  let ended := { w.sched.setState c .zombie with
    threadCount := if 0 < w.sched.threadCount then w.sched.threadCount - 1 else w.sched.threadCount }
  have hcurrent : ended.current = some c := h.current
  have hthreads : ∀ j, j ≠ c → ended.threads j = w.sched.threads j := fun j hj => Function.update_of_ne hj _ _
  have hready : (ended.threads i).state = .ready := by rw [hthreads i h.ne, h.ready]
  obtain ⟨n, hn⟩ := exists_nextRunnable hcurrent hready
  have hnc : n ≠ c := by
    rintro rfl
    have hready := (nextRunnableThread_some hcurrent hn).1
    simp [ended, Sched.setState, Sched.setThread] at hready
  have hexit : w.schedThreadExit = ({ w with sched := ended }.saveTo c .zombie).switchTo n := by
    simp only [SchedSystem.schedThreadExit, h.current]
    change (match ended.nextRunnableThread with
      | none => { w with sched := ended, idle := true }
      | some next => ({ w with sched := ended }.saveTo c .zombie).switchTo next) = _
    rw [hn]
  rw [hexit]
  exact (h.switch hcurrent hthreads hn hnc).imp_right fun h => ⟨n, h⟩

/-- A step is no call of another thread, or it brings the turn nearer. -/
theorem schedStep_turn (h : AwaitsTurn w c i context) (hstep : schedStep trampoline w e = some w') :
    e.gives = false ∧ AwaitsTurn w' c i context ∨
      e.gives = true ∧ (HasTurn w' i context ∨
        ∃ n, AwaitsTurn w' n i context ∧ roundDistance n i < roundDistance c i) := by
  cases e with
  | tick =>
    cases hstep
    exact .inl ⟨rfl, by simpa using h.current, by simpa using h.running, by simpa using h.ready,
      by simpa using h.kept⟩
  | work regs =>
    simp only [schedStep, Option.ite_none_left_eq_some] at hstep
    cases hstep.2
    exact .inl ⟨rfl, h.current, h.running, h.ready, h.kept⟩
  | create entry arg name stack =>
    simp only [schedStep, Option.ite_none_left_eq_some] at hstep
    cases hstep.2
    exact .inl ⟨rfl, h.create entry arg name stack⟩
  | start =>
    simp [schedStep, h.current] at hstep
  | yield =>
    simp only [schedStep, Option.ite_none_left_eq_some] at hstep
    cases hstep.2
    exact .inr ⟨rfl, h.yield⟩
  | exit =>
    simp only [schedStep, Option.ite_none_left_eq_some] at hstep
    cases hstep.2
    exact .inr ⟨rfl, h.exit⟩

/-- A thread that waits has the processor before the calls of others are more than its distance. -/
theorem AwaitsTurn.run (h : AwaitsTurn w c i context) (hrun : schedRun trampoline w es = some w')
    (hes : roundDistance c i < es.countP SchedEvent.gives) :
    ∃ es' v, es'.IsPrefix es ∧ es'.countP SchedEvent.gives ≤ roundDistance c i + 1 ∧
      schedRun trampoline w es' = some v ∧ HasTurn v i context := by
  induction es generalizing w c with
  | nil => simp at hes
  | cons e es ih =>
    simp only [schedRun, Option.bind_eq_some_iff] at hrun
    obtain ⟨v, hstep, hrun⟩ := hrun
    obtain ⟨hgives, hv⟩ | ⟨hgives, hv | ⟨n, hv, hlt⟩⟩ := schedStep_turn h hstep
    · rw [List.countP_cons_of_neg (by simp [hgives])] at hes
      obtain ⟨es', u, hes', hle, hu, hturn⟩ := ih hv hrun hes
      refine ⟨e :: es', u, List.cons_prefix_cons.2 ⟨rfl, hes'⟩, ?_, ?_, hturn⟩
      · rwa [List.countP_cons_of_neg (by simp [hgives])]
      · simpa [schedRun, hstep] using hu
    · refine ⟨[e], v, by simp, ?_, by simp [schedRun, hstep], hv⟩
      rw [List.countP_cons_of_pos hgives]
      simp
    · rw [List.countP_cons_of_pos hgives] at hes
      obtain ⟨es', u, hes', hle, hu, hturn⟩ := ih hv hrun (by omega)
      refine ⟨e :: es', u, List.cons_prefix_cons.2 ⟨rfl, hes'⟩, ?_, ?_, hturn⟩
      · rw [List.countP_cons_of_pos hgives]
        omega
      · simpa [schedRun, hstep] using hu

end Turn

/-! ## The threads in every run -/

section Threads

variable {trampoline : UInt64} {w w' : SchedSystem} {c n i : ThreadId} {e : SchedEvent} {es : List SchedEvent}

/-- The threads that have not ended. -/
def Sched.live (s : Sched) : Finset ThreadId :=
  Finset.univ.filter fun i => (s.threads i).state = .ready ∨ (s.threads i).state = .running

/-- The places are taken in their order and never again, the one thread that runs is the current one, and the count is
that of the threads which have not ended. -/
structure SchedOk (w : SchedSystem) : Prop where
  running : ∀ i, (w.sched.threads i).state = .running ↔ w.sched.current = some i ∧ w.idle = false
  unused : ∀ i, (w.sched.threads i).state = .unused ↔ w.sched.nextPid.toNat ≤ i.val + 1
  pid : ∀ i, (w.sched.threads i).state ≠ .unused → (w.sched.threads i).pid.toNat = i.val + 1
  nextPid : 1 ≤ w.sched.nextPid.toNat ∧ w.sched.nextPid.toNat ≤ schedMaxThreads + 1
  threadCount : w.sched.threadCount.toNat = w.sched.live.card

theorem mem_live_threads {s : Sched} : i ∈ s.live ↔ (s.threads i).state = .ready ∨ (s.threads i).state = .running := by
  simp [Sched.live]

/-- The system when `sched_init` has run. -/
def SchedSystem.boot (s : Sched) (quantumTicks : UInt32) (regs : SchedContext) : SchedSystem :=
  { sched := s.schedInit quantumTicks, regs, idle := false }

theorem schedOk_boot (s : Sched) (quantumTicks : UInt32) (regs : SchedContext) :
    SchedOk (SchedSystem.boot s quantumTicks regs) := by
  refine ⟨fun i => ?_, fun i => ?_, fun i hi => absurd rfl hi, ?_, ?_⟩
  · simp [SchedSystem.boot, Sched.schedInit]
  · simp [SchedSystem.boot, Sched.schedInit]
  · simp [SchedSystem.boot, Sched.schedInit]
  · simp [SchedSystem.boot, Sched.schedInit, Sched.live]

theorem live_card_le (s : Sched) : s.live.card ≤ 4 := by
  simpa using Finset.card_le_univ s.live

/-- The number of the new thread is that of the first unused place. -/
theorem SchedOk.create (h : SchedOk w) (entry arg name stack : UInt64) :
    SchedOk { w with
      sched := (w.sched.schedCreateKernelThread trampoline entry arg name stack).getD w.sched } := by
  cases hs : w.sched.schedCreateKernelThread trampoline entry arg name stack with
  | none => exact h
  | some s' =>
    obtain ⟨j, thread, hj, hbefore, hstate, hpid, rfl⟩ := schedCreateKernelThread_some hs
    have hplace : w.sched.nextPid.toNat = j.val + 1 := by
      have hle := (h.unused j).1 hj
      by_contra hne
      have hpos := h.nextPid.1
      let i : ThreadId := ⟨w.sched.nextPid.toNat - 1, by omega⟩
      exact hbefore i (by simp only [i]; omega) ((h.unused i).2 (by simp only [i]; omega))
    have hnext : (w.sched.nextPid + 1).toNat = j.val + 2 := by
      have hlt : j.val < 4 := j.isLt
      rw [UInt32.toNat_add, hplace, UInt32.toNat_one]
      omega
    have hfree : j ∉ w.sched.live := by simp [mem_live_threads, hj]
    have hlive : Sched.live { w.sched.setThread j thread with
        nextPid := w.sched.nextPid + 1, threadCount := w.sched.threadCount + 1 } = insert j w.sched.live := by
      ext i
      rw [mem_live_threads, Finset.mem_insert, mem_live_threads]
      by_cases hij : i = j
      · subst hij
        simp [Sched.setThread, hstate]
      · simp [Sched.setThread, hij]
    have hcurrent : ¬ (w.sched.current = some j ∧ w.idle = false) := fun hcurrent => by
      have hrunning := (h.running j).2 hcurrent
      rw [hj] at hrunning
      cases hrunning
    refine ⟨fun i => ?_, fun i => ?_, fun i => ?_, ?_, ?_⟩
    · by_cases hij : i = j
      · subst hij
        simpa [Sched.setThread, hstate] using hcurrent
      · simpa [Sched.setThread, hij] using h.running i
    · have hi := h.unused i
      by_cases hij : i = j
      · subst hij
        simp [Sched.setThread, hstate, hnext]
      · have hval : i.val ≠ j.val := fun hval => hij (Fin.ext hval)
        simp only [Option.getD_some, Sched.setThread, Function.update_of_ne hij, hi, hplace, hnext]
        omega
    · by_cases hij : i = j
      · subst hij
        simp [Sched.setThread, hpid, hplace]
      · simpa [Sched.setThread, hij] using h.pid i
    · have hlt := j.isLt
      simp only [Option.getD_some, hnext]
      omega
    · have hle := live_card_le w.sched
      have hcount := h.threadCount
      simp only [Option.getD_some]
      rw [hlive, Finset.card_insert_of_notMem hfree, UInt32.toNat_add, hcount, UInt32.toNat_one]
      omega

theorem switch_state (w : SchedSystem) (s : Sched) (c n i : ThreadId) (state : ThreadState) :
    ((({ w with sched := s }.saveTo c state).switchTo n).sched.threads i).state =
      if i = n then .running else if i = c then state else (s.threads i).state := by
  simp only [SchedSystem.switchTo, SchedSystem.saveTo, Sched.setState, Sched.setThread, Function.update_apply]
  split_ifs <;> rfl

theorem switch_pid (w : SchedSystem) (s : Sched) (c n i : ThreadId) (state : ThreadState) :
    ((({ w with sched := s }.saveTo c state).switchTo n).sched.threads i).pid = (s.threads i).pid := by
  simp only [SchedSystem.switchTo, SchedSystem.saveTo, Sched.setState, Sched.setThread, Function.update_apply]
  split_ifs <;> simp_all

/-- The processor goes from `c` to the next thread. -/
theorem SchedOk.switch (h : SchedOk w) {s : Sched} {state : ThreadState} (hc : w.sched.current = some c)
    (hidle : w.idle = false) (hstate : state = .ready ∨ state = .zombie) (hpid : s.nextPid = w.sched.nextPid)
    (hthreads : ∀ i, i ≠ c → s.threads i = w.sched.threads i) (hold : (s.threads c).pid = (w.sched.threads c).pid)
    (hn : (s.threads n).state = .ready) (hnc : n ≠ c)
    (hcount : s.threadCount.toNat = (({ w with sched := s }.saveTo c state).switchTo n).sched.live.card) :
    SchedOk (({ w with sched := s }.saveTo c state).switchTo n) := by
  have hrunning := (h.running c).2 ⟨hc, hidle⟩
  have hn' : (w.sched.threads n).state = .ready := by rw [← hthreads n hnc, hn]
  have hpids : ∀ i, (s.threads i).pid = (w.sched.threads i).pid := fun i => by
    by_cases hic : i = c
    · rw [hic, hold]
    · rw [hthreads i hic]
  -- The new states are unused where the old ones are.
  have hunused : ∀ i, ((({ w with sched := s }.saveTo c state).switchTo n).sched.threads i).state = .unused ↔
      (w.sched.threads i).state = .unused := fun i => by
    have hi := hthreads i
    rw [switch_state]
    grind
  refine ⟨fun i => ?_, fun i => ?_, fun i hi => ?_, ?_, hcount⟩
  · have hi := hthreads i
    have hother := h.running i
    rw [switch_state]
    change _ ↔ some n = some i ∧ w.idle = false
    grind
  · rw [hunused, h.unused]
    change _ ↔ s.nextPid.toNat ≤ _
    rw [hpid]
  · rw [switch_pid, hpids]
    exact h.pid i (mt (hunused i).2 hi)
  · change 1 ≤ s.nextPid.toNat ∧ s.nextPid.toNat ≤ _
    rw [hpid]
    exact h.nextPid

theorem SchedOk.yield (h : SchedOk w) (hidle : w.idle = false) : SchedOk w.schedYield := by
  unfold SchedSystem.schedYield
  split
  · exact h
  · rename_i c hc
    split
    · exact h
    · rename_i n hn
      split
      · exact h
      · rename_i hnc
        have hready := (nextRunnableThread_some hc hn).1
        have hrunning := (h.running c).2 ⟨hc, hidle⟩
        have hlive : (({ w with sched := w.sched }.saveTo c .ready).switchTo n).sched.live = w.sched.live := by
          ext i
          rw [mem_live_threads, mem_live_threads, switch_state]
          grind
        exact h.switch hc hidle (.inl rfl) rfl (fun _ _ => rfl) rfl hready hnc (by rw [hlive, h.threadCount])

/-- The thread ends; the count goes down with it. -/
theorem SchedOk.exit (h : SchedOk w) (hidle : w.idle = false) : SchedOk w.schedThreadExit := by
  unfold SchedSystem.schedThreadExit
  split
  · rename_i hc
    refine ⟨fun i => ?_, h.unused, h.pid, h.nextPid, h.threadCount⟩
    have hi := h.running i
    simp [hi, hc]
  · rename_i c hc
    have hrunning := (h.running c).2 ⟨hc, hidle⟩
    have hmem : c ∈ w.sched.live := mem_live_threads.2 (.inr hrunning)
    have hcard := Finset.card_erase_of_mem hmem
    have hpos : 0 < w.sched.live.card := Finset.card_pos.2 ⟨c, hmem⟩
    have hcount := h.threadCount
    let ended := { w.sched.setState c .zombie with
      threadCount := if 0 < w.sched.threadCount then w.sched.threadCount - 1 else w.sched.threadCount }
    have hended : ∀ i, i ≠ c → ended.threads i = w.sched.threads i := fun i hi => Function.update_of_ne hi _ _
    have hzombie : (ended.threads c).state = .zombie := by simp [ended, Sched.setState, Sched.setThread]
    have hold : (ended.threads c).pid = (w.sched.threads c).pid := by simp [ended, Sched.setState, Sched.setThread]
    have hless : ended.threadCount.toNat = (w.sched.live.erase c).card := by
      have hpos' : 0 < w.sched.threadCount := UInt32.lt_iff_toNat_lt.2 (by simpa [hcount] using hpos)
      have hone : (1 : UInt32) ≤ w.sched.threadCount := UInt32.le_iff_toNat_le.2 (by simpa [hcount] using hpos)
      simp only [ended, if_pos hpos']
      rw [UInt32.toNat_sub_of_le _ _ hone, hcount, hcard, UInt32.toNat_one]
    change SchedOk (match ended.nextRunnableThread with
      | none => { w with sched := ended, idle := true }
      | some next => ({ w with sched := ended }.saveTo c .zombie).switchTo next)
    split
    · refine ⟨fun i => ?_, fun i => ?_, fun i hi => ?_, h.nextPid, ?_⟩
      · have hi := hended i
        have hother := h.running i
        simp only [reduceCtorEq, and_false, iff_false]
        grind
      · change (ended.threads i).state = .unused ↔ w.sched.nextPid.toNat ≤ i.val + 1
        rw [← h.unused i]
        by_cases hic : i = c
        · rw [hic, hzombie, hrunning]
          simp
        · rw [hended i hic]
      · by_cases hic : i = c
        · subst hic
          have hused : (w.sched.threads i).state ≠ .unused := by simp [hrunning]
          exact (congrArg UInt32.toNat hold).trans (h.pid i hused)
        · change (ended.threads i).pid.toNat = _
          change (ended.threads i).state ≠ _ at hi
          rw [hended i hic] at hi ⊢
          exact h.pid i hi
      · change ended.threadCount.toNat = ended.live.card
        rw [hless]
        congr 1
        ext i
        have hi := hended i
        rw [mem_live_threads, Finset.mem_erase, mem_live_threads]
        grind
    · rename_i n hn
      have hcurrent : ended.current = some c := hc
      have hready := (nextRunnableThread_some hcurrent hn).1
      have hnc : n ≠ c := by
        rintro rfl
        rw [hzombie] at hready
        cases hready
      have hlive : (({ w with sched := ended }.saveTo c .zombie).switchTo n).sched.live = w.sched.live.erase c := by
        ext i
        have hi := hended i
        rw [mem_live_threads, Finset.mem_erase, mem_live_threads, switch_state]
        grind
      exact h.switch hc hidle (.inr rfl) rfl hended hold hready hnc (by rw [hlive, hless])

/-- Nothing runs before the start. -/
theorem SchedOk.start (h : SchedOk w) (hc : w.sched.current = none) (hidle : w.idle = false) :
    SchedOk w.schedStart := by
  unfold SchedSystem.schedStart
  split
  · exact h
  · rename_i n hn
    have hready : (w.sched.threads n).state = .ready := by
      unfold Sched.nextRunnableThread at hn
      simpa using List.find?_some hn
    have hstate : ∀ i, ((w.switchTo n).sched.threads i).state =
        if i = n then .running else (w.sched.threads i).state := fun i => by
      simp only [SchedSystem.switchTo, Sched.setState, Sched.setThread, Function.update_apply]
      split_ifs <;> rfl
    have hpid : ∀ i, ((w.switchTo n).sched.threads i).pid = (w.sched.threads i).pid := fun i => by
      simp only [SchedSystem.switchTo, Sched.setState, Sched.setThread, Function.update_apply]
      split_ifs <;> simp_all
    refine ⟨fun i => ?_, fun i => ?_, fun i hi => ?_, h.nextPid, ?_⟩
    · have hother := h.running i
      rw [hstate]
      change _ ↔ some n = some i ∧ w.idle = false
      grind
    · have hother := h.unused i
      rw [hstate]
      change _ ↔ w.sched.nextPid.toNat ≤ _
      grind
    · rw [hpid]
      rw [hstate] at hi
      refine h.pid i fun hunused => ?_
      grind
    · change w.sched.threadCount.toNat = _
      rw [h.threadCount]
      congr 1
      ext i
      rw [mem_live_threads, mem_live_threads, hstate]
      grind

theorem schedStep_ok (h : SchedOk w) (hstep : schedStep trampoline w e = some w') : SchedOk w' := by
  cases e with
  | tick =>
    cases hstep
    exact ⟨by simpa using h.running, by simpa using h.unused, by simpa using h.pid, by simpa using h.nextPid,
      by simpa [Sched.live] using h.threadCount⟩
  | work regs =>
    simp only [schedStep, Option.ite_none_left_eq_some] at hstep
    cases hstep.2
    exact ⟨h.running, h.unused, h.pid, h.nextPid, h.threadCount⟩
  | create entry arg name stack =>
    simp only [schedStep, Option.ite_none_left_eq_some] at hstep
    cases hstep.2
    exact h.create entry arg name stack
  | start =>
    simp only [schedStep, Option.ite_none_left_eq_some, not_or, not_not] at hstep
    cases hstep.2
    exact h.start hstep.1.2 (by simpa using hstep.1.1)
  | yield =>
    simp only [schedStep, Option.ite_none_left_eq_some] at hstep
    cases hstep.2
    exact h.yield (by simpa using hstep.1)
  | exit =>
    simp only [schedStep, Option.ite_none_left_eq_some] at hstep
    cases hstep.2
    exact h.exit (by simpa using hstep.1)

theorem run_of_schedRun (hrun : schedRun trampoline w es = some w') :
    Run (fun w v => ∃ e, schedStep trampoline w e = some v) w w' := by
  induction es generalizing w with
  | nil =>
    cases hrun
    exact .refl
  | cons e es ih =>
    simp only [schedRun, Option.bind_eq_some_iff] at hrun
    obtain ⟨v, hstep, hrun⟩ := hrun
    exact .head ⟨e, hstep⟩ (ih hrun)

end Threads

/-! ## Runs from `sched_init` -/

section Runs

variable {trampoline : UInt64} {s : Sched} {quantumTicks : UInt32} {regs : SchedContext} {w w' : SchedSystem}
  {c i : ThreadId} {e : SchedEvent} {es es' : List SchedEvent}

/-- The invariant of the threads, in every run. -/
theorem schedRun_ok (hrun : schedRun trampoline (.boot s quantumTicks regs) es = some w) : SchedOk w :=
  Run.invariant SchedOk (fun _ _ h ⟨_, hstep⟩ => schedStep_ok h hstep) (schedOk_boot s quantumTicks regs)
    (run_of_schedRun hrun)

/-- A processor that waits for ever calls nothing. -/
theorem schedRun_idle (hidle : w.idle = true) (hrun : schedRun trampoline w es = some w') :
    es.countP SchedEvent.gives = 0 := by
  induction es generalizing w with
  | nil => rfl
  | cons e es ih =>
    simp only [schedRun, Option.bind_eq_some_iff] at hrun
    obtain ⟨v, hstep, hrun⟩ := hrun
    cases e with
    | tick =>
      cases hstep
      rw [List.countP_cons_of_neg (by simp [SchedEvent.gives])]
      refine ih ?_ hrun
      exact hidle
    | work | create | start | yield | exit => simp [schedStep, hidle] at hstep

/-- A thread that is ready has the processor after at most three calls of others, with the registers of its context. -/
theorem schedRun_turn (hrun : schedRun trampoline (.boot s quantumTicks regs) es = some w)
    (hc : w.sched.current = some c) (hi : (w.sched.threads i).state = .ready)
    (hrun' : schedRun trampoline w es' = some w') (hcalls : 3 ≤ es'.countP SchedEvent.gives) :
    ∃ es'' v, es''.IsPrefix es' ∧ es''.countP SchedEvent.gives ≤ 3 ∧ schedRun trampoline w es'' = some v ∧
      HasTurn v i (w.sched.threads i).context := by
  have hidle : w.idle = false := by
    by_contra hidle
    have hnone := schedRun_idle (by simpa using hidle) hrun'
    omega
  have hwaits : AwaitsTurn w c i (w.sched.threads i).context :=
    ⟨hc, ((schedRun_ok hrun).running c).2 ⟨hc, hidle⟩, hi, rfl⟩
  have hle := roundDistance_le hwaits.ne
  obtain ⟨es'', v, hes, hcount, hv, hturn⟩ := hwaits.run hrun' (by omega)
  exact ⟨es'', v, hes, by omega, hv, hturn⟩

/-- What a thread that yields leaves. -/
theorem schedYield_waits (hc : w.sched.current = some i) :
    w.schedYield = w ∨ ∃ n, AwaitsTurn w.schedYield n i w.regs := by
  unfold SchedSystem.schedYield
  simp only [hc]
  split
  · exact .inl rfl
  · rename_i n hn
    split
    · exact .inl rfl
    · rename_i hni
      right
      refine ⟨n, rfl, ?_, ?_, ?_⟩
      · simp [SchedSystem.switchTo, Sched.setState, Sched.setThread]
      · simp [SchedSystem.switchTo, SchedSystem.saveTo, Sched.setState, Sched.setThread, Ne.symm hni]
      · simp [SchedSystem.switchTo, SchedSystem.saveTo, Sched.setState, Sched.setThread, Ne.symm hni]

/-- For the thread that calls it, `sched_yield` is a call which keeps the callee-saved registers, the stack pointer and
the return address, and it returns before others have called the scheduler more than three times. -/
theorem schedRun_resumes (hrun : schedRun trampoline (.boot s quantumTicks regs) es = some w)
    (hi : w.sched.current = some i) (hrun' : schedRun trampoline w (.yield :: es') = some w')
    (hcalls : 3 ≤ es'.countP SchedEvent.gives) :
    ∃ es'' v, es''.IsPrefix es' ∧ es''.countP SchedEvent.gives ≤ 3 ∧
      schedRun trampoline w (.yield :: es'') = some v ∧ HasTurn v i w.regs := by
  have hok := schedRun_ok hrun
  have hidle : w.idle = false := by
    by_contra hidle
    have hnone := schedRun_idle (by simpa using hidle) hrun'
    rw [List.countP_cons_of_pos rfl] at hnone
    omega
  have hstep : schedStep trampoline w .yield = some w.schedYield := by simp [schedStep, hidle]
  simp only [schedRun, hstep, Option.bind_some] at hrun' ⊢
  obtain hsame | ⟨n, hwaits⟩ := schedYield_waits hi
  · refine ⟨[], w, ⟨_, rfl⟩, by simp, by rw [hsame, schedRun], hi, (hok.running i).2 ⟨hi, hidle⟩, rfl⟩
  · have hle := roundDistance_le hwaits.ne
    obtain ⟨es'', v, hes, hcount, hv, hturn⟩ := hwaits.run hrun' (by omega)
    exact ⟨es'', v, hes, by omega, hv, hturn⟩

/-- The variables before `sched_init`. -/
def sampleThreads : Sched :=
  let context : SchedContext :=
    { x19 := 0, x20 := 0, x21 := 0, x22 := 0, x23 := 0, x24 := 0, x25 := 0, x26 := 0, x27 := 0, x28 := 0, x29 := 0,
      sp := 0, lr := 0 }
  { ticks := 0, quantums := 0, quantumTicks := 1, ticksLeft := 1, current := none, threadCount := 0, nextPid := 1,
    threads := fun _ => { pid := 0, state := .unused, context, stackBase := 0, name := 0 } }

/-- The registers at boot. -/
def sampleContext : SchedContext := (sampleThreads.threads 0).context

theorem sampleStart_isSome : (schedRun 8 (.boot sampleThreads 0 sampleContext)
    [.create 16 0 0 4096, .create 32 0 0 20480, .start]).isSome := by decide

/-- The first of two threads is started. -/
def sampleStarted : SchedSystem := Option.get _ sampleStart_isSome

/-- A thread yields to another one, which yields back. -/
theorem schedRun_resumes_sample : ∃ es'' v, es''.IsPrefix [.yield, .yield, .yield] ∧
    es''.countP SchedEvent.gives ≤ 3 ∧ schedRun 8 sampleStarted (.yield :: es'') = some v ∧
    HasTurn v 0 sampleStarted.regs := by
  have hsome : (schedRun 8 sampleStarted [.yield, .yield, .yield, .yield]).isSome := by decide
  exact schedRun_resumes (Option.some_get sampleStart_isSome).symm (by decide) (Option.some_get hsome).symm (by decide)

end Runs

/-! ## The timer -/

section Timer

variable {trampoline : UInt64} {s : Sched} {q n : Nat} {w w' : SchedSystem} {e : SchedEvent} {es : List SchedEvent}

def SchedEvent.ticks : SchedEvent → Bool
  | .tick => true
  | _ => false

/-- The counters after `n` ticks, with quantums of `q` ticks. -/
structure TicksOk (s : Sched) (q n : Nat) : Prop where
  quantumTicks : s.quantumTicks.toNat = q
  ticks : s.ticks = UInt64.ofNat n
  quantums : s.quantums = UInt64.ofNat (n / q)
  ticksLeft : s.ticksLeft.toNat = q - n % q

theorem TicksOk.tick (hq : 0 < q) (h : TicksOk s q n) : TicksOk s.schedOnTimerTick q (n + 1) := by
  have hdiv := Nat.div_add_mod n q
  have hmod := Nat.mod_lt n hq
  have hpos : 0 < s.ticksLeft := UInt32.lt_iff_toNat_lt.2 (by rw [h.ticksLeft, UInt32.toNat_zero]; omega)
  have hone : (1 : UInt32) ≤ s.ticksLeft :=
    UInt32.le_iff_toNat_le.2 (by rw [h.ticksLeft, UInt32.toNat_one]; omega)
  have hless : (s.ticksLeft - 1).toNat = q - n % q - 1 := by
    rw [UInt32.toNat_sub_of_le _ _ hone, h.ticksLeft, UInt32.toNat_one]
  have hticks : s.ticks + 1 = UInt64.ofNat (n + 1) := by rw [h.ticks, UInt64.ofNat_add]; rfl
  simp only [Sched.schedOnTimerTick, if_pos hpos]
  split
  · rename_i hzero
    rw [hzero, UInt32.toNat_zero] at hless
    have hnext : n + 1 = q * (n / q + 1) := by
      rw [Nat.mul_add, Nat.mul_one]
      omega
    refine ⟨h.quantumTicks, hticks, ?_, ?_⟩
    · rw [hnext, Nat.mul_div_cancel_left _ hq]
      change s.quantums + 1 = _
      rw [h.quantums, UInt64.ofNat_add]
      rfl
    · rw [hnext, Nat.mul_mod_right]
      exact h.quantumTicks
  · rename_i hzero
    have hne : (s.ticksLeft - 1).toNat ≠ 0 := fun hne => hzero (UInt32.toNat_inj.1 hne)
    have hnext : n + 1 = q * (n / q) + (n % q + 1) := by omega
    have hlt : n % q + 1 < q := by omega
    refine ⟨h.quantumTicks, hticks, ?_, ?_⟩
    · rw [hnext, Nat.mul_add_div hq, Nat.div_eq_of_lt hlt]
      exact h.quantums
    · rw [hnext, Nat.mul_add_mod, Nat.mod_eq_of_lt hlt]
      change (s.ticksLeft - 1).toNat = _
      omega

/-- Only the timer changes the counters. -/
theorem schedStep_ticks (hq : 0 < q) (h : TicksOk w.sched q n) (hstep : schedStep trampoline w e = some w') :
    TicksOk w'.sched q (n + if e.ticks then 1 else 0) := by
  cases e with
  | tick =>
    cases hstep
    exact h.tick hq
  | work regs =>
    simp only [schedStep, Option.ite_none_left_eq_some] at hstep
    cases hstep.2
    exact h
  | create entry arg name stack =>
    simp only [schedStep, Option.ite_none_left_eq_some] at hstep
    cases hstep.2
    cases hs : w.sched.schedCreateKernelThread trampoline entry arg name stack with
    | none => exact h
    | some s' =>
      obtain ⟨j, thread, -, -, -, -, rfl⟩ := schedCreateKernelThread_some hs
      exact ⟨h.quantumTicks, h.ticks, h.quantums, h.ticksLeft⟩
  | start =>
    simp only [schedStep, Option.ite_none_left_eq_some] at hstep
    cases hstep.2
    simp only [SchedSystem.schedStart]
    split
    · exact h
    · exact ⟨h.quantumTicks, h.ticks, h.quantums, h.ticksLeft⟩
  | yield =>
    simp only [schedStep, Option.ite_none_left_eq_some] at hstep
    cases hstep.2
    simp only [SchedSystem.schedYield]
    split
    · exact h
    · split
      · exact h
      · split
        · exact h
        · exact ⟨h.quantumTicks, h.ticks, h.quantums, h.ticksLeft⟩
  | exit =>
    simp only [schedStep, Option.ite_none_left_eq_some] at hstep
    cases hstep.2
    simp only [SchedSystem.schedThreadExit]
    split
    · exact h
    · split <;> exact ⟨h.quantumTicks, h.ticks, h.quantums, h.ticksLeft⟩

theorem TicksOk.run (hq : 0 < q) (h : TicksOk w.sched q n) (hrun : schedRun trampoline w es = some w') :
    TicksOk w'.sched q (n + es.countP SchedEvent.ticks) := by
  induction es generalizing w n with
  | nil =>
    cases hrun
    simpa using h
  | cons e es ih =>
    simp only [schedRun, Option.bind_eq_some_iff] at hrun
    obtain ⟨v, hstep, hrun⟩ := hrun
    have hv := ih (schedStep_ticks hq h hstep) hrun
    rwa [List.countP_cons, Nat.add_comm (es.countP _), ← Nat.add_assoc]

/-- In every run the places of the threads are taken in their order, one thread runs at most, and the counters are those
of the ticks that came; quantums of no ticks are quantums of one. -/
theorem schedRun_threads {quantumTicks : UInt32} {regs : SchedContext}
    (hrun : schedRun trampoline (.boot s quantumTicks regs) es = some w) :
    SchedOk w ∧ TicksOk w.sched (max 1 quantumTicks.toNat) (es.countP SchedEvent.ticks) := by
  refine ⟨schedRun_ok hrun, ?_⟩
  have hboot : TicksOk (SchedSystem.boot s quantumTicks regs).sched (max 1 quantumTicks.toNat) 0 := by
    have hquantum : (if quantumTicks = 0 then 1 else quantumTicks).toNat = max 1 quantumTicks.toNat := by
      split
      · rename_i hzero
        rw [hzero]
        rfl
      · rename_i hzero
        have hne : quantumTicks.toNat ≠ 0 := fun hne => hzero (UInt32.toNat_inj.1 hne)
        omega
    refine ⟨hquantum, rfl, by simp [SchedSystem.boot, Sched.schedInit], ?_⟩
    rw [Nat.zero_mod, Nat.sub_zero]
    exact hquantum
  simpa using hboot.run (by omega) hrun

theorem schedRun_threads_sample : ∃ w, schedRun 8 (.boot sampleThreads 0 sampleContext)
    [.create 16 0 0 4096, .tick, .start, .exit, .tick] = some w ∧
    SchedOk w ∧ TicksOk w.sched (max 1 (0 : UInt32).toNat) 2 := by
  have hsome : (schedRun 8 (.boot sampleThreads 0 sampleContext)
      [.create 16 0 0 4096, .tick, .start, .exit, .tick]).isSome := by decide
  exact ⟨_, (Option.some_get hsome).symm, schedRun_threads (Option.some_get hsome).symm⟩

end Timer

end Armonios
