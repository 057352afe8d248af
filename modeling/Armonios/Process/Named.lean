import Armonios.Process.OpenFiles
import Armonios.Process.Roster

/-!
# Processes that the rest of the kernel names

Messages and windows name a process by its pid. `names` is the set of these pids, as a function of the
rest of the kernel; it is the parameter of this module.

* `Lasting`: what the functions that end no process do to the table;
* `simpleCall_cases`: a system call is one of these, or kills a process, or is one of the rest of the
  kernel;
* `next_namesOk`: a step of the machine keeps that all named processes are there and have not ended, if
  the process that it ends is not named and the call that it makes names processes that are there.
-/

namespace Armonios

variable {ρ : Type} {env : Env ρ} {k k' q : Kernel ρ} {m m' : Machine ρ} {i j slot : SlotId}
  {regs frame : Frame}

/-! ## Processes that have not ended -/

def Living (p : Process) : Prop := p.state ≠ .unused ∧ p.state ≠ .zombie

/-- The process in `i` has the pid, and it has not ended. -/
def Holds (k : Kernel ρ) (i : SlotId) (pid : UInt32) : Prop :=
  Living (k.processes i) ∧ UInt32.ofNat (k.processes i).pid = pid

/-- There is a process with the pid that has not ended. -/
def Alive (k : Kernel ρ) (pid : UInt32) : Prop := ∃ i, Holds k i pid

/-- No process has ended, and none waits for its loader that did not wait before. -/
structure Lasting (k k' : Kernel ρ) : Prop where
  living : ∀ i, Living (k.processes i) → Living (k'.processes i) ∧ (k'.processes i).pid = (k.processes i).pid
  blocked : ∀ i, (k'.processes i).state = .blocked → (k.processes i).state = .blocked

theorem Lasting.refl (k : Kernel ρ) : Lasting k k := ⟨fun _ h => ⟨h, rfl⟩, fun _ h => h⟩

theorem Lasting.trans (h : Lasting k q) (h' : Lasting q k') : Lasting k k' := by
  refine ⟨fun i hi => ?_, fun i hi => h.blocked i (h'.blocked i hi)⟩
  obtain ⟨h1, h2⟩ := h.living i hi
  obtain ⟨h3, h4⟩ := h'.living i h1
  exact ⟨h3, h4.trans h2⟩

theorem Lasting.holds {pid : UInt32} (h : Lasting k k') (hp : Holds k i pid) : Holds k' i pid := by
  obtain ⟨hliving, hpid⟩ := h.living i hp.1
  exact ⟨hliving, hpid ▸ hp.2⟩

theorem Lasting.of_roster (h : k'.roster = k.roster) : Lasting k k' := by
  have hstate : ∀ i, (k'.processes i).state = (k.processes i).state :=
    fun i => congrFun (congrArg Roster.state h) i
  have hpid : ∀ i, (k'.processes i).pid = (k.processes i).pid := fun i => congrFun (congrArg Roster.pid h) i
  refine ⟨fun i hi => ⟨?_, hpid i⟩, fun i hi => (hstate i).symm.trans hi⟩
  unfold Living
  rw [hstate i]
  exact hi

/-- One slot changes, which had no live process. -/
theorem Lasting.update {p : Process} (h : k'.processes = Function.update k.processes i p)
    (hi : ¬ Living (k.processes i)) (hp : p.state ≠ .blocked) : Lasting k k' := by
  refine ⟨fun j hj => ?_, fun j hj => ?_⟩
  · have hji : j ≠ i := by
      rintro rfl
      exact hi hj
    rw [h, Function.update_of_ne hji]
    exact ⟨hj, rfl⟩
  · rw [h] at hj
    by_cases hji : j = i
    · subst hji
      rw [Function.update_self] at hj
      exact absurd hj hp
    · rwa [Function.update_of_ne hji] at hj

theorem processRelease_lasting (hi : ¬ Living (k.processes i)) : Lasting k (processRelease i k) := by
  unfold processRelease
  dsimp only
  split
  · exact .refl k
  · refine Lasting.update (i := i) rfl hi ?_
    simp

theorem Reclaimed.lasting (h : Reclaimed k k') : Lasting k k' := by
  refine ⟨fun j hj => ?_, fun j hj => ?_⟩
  · rw [h.processes, if_neg hj.2]
    exact ⟨hj, rfl⟩
  · rw [h.processes] at hj
    split at hj
    · cases hj
    · exact hj

theorem Retaken.lasting (h : Retaken slot k k') (hslot : (k'.processes slot).state ≠ .blocked) : Lasting k k' := by
  refine ⟨fun j hj => ?_, fun j hj => ?_⟩
  · have hjs : j ≠ slot := by
      rintro rfl
      rcases h.was with hun | hz
      · exact hj.1 hun
      · exact hj.2 hz
    rw [h.others j hjs, if_neg hj.2]
    exact ⟨hj, rfl⟩
  · by_cases hjs : j = slot
    · exact absurd (hjs ▸ hj) hslot
    · rw [h.others j hjs] at hj
      split at hj
      · cases hj
      · exact hj

theorem SpawnOutcome.lasting (h : SpawnOutcome k k') : Lasting k k' := by
  cases h with
  | same current processes =>
    refine ⟨fun i hi => ?_, fun i hi => ?_⟩
    · rw [processes]
      exact ⟨hi, rfl⟩
    · rwa [processes] at hi
  | reclaimed zombies current => exact zombies.lasting
  | loaded slot taken current new =>
    refine taken.lasting ?_
    rcases new with hun | ⟨hready, -⟩
    · simp [hun]
    · simp [hready]

theorem setProcess_pid {p : Process} (hp : p.pid = (k.processes i).pid) (l : SlotId) :
    ((k.setProcess i p).processes l).pid = (k.processes l).pid := by
  unfold Kernel.setProcess
  dsimp only
  by_cases hl : l = i
  · subst hl
    simpa using hp
  · rw [Function.update_of_ne hl]

theorem switchTo_pid (next : SlotId) (k : Kernel ρ) (l : SlotId) :
    ((switchTo next k).2.processes l).pid = (k.processes l).pid :=
  setProcess_pid (i := next) (p := { k.processes next with state := .running }) rfl l

theorem dispatchNext_pid {policy : DispatchPolicy} (h : processDispatchNext (some i) policy k = some (frame, k'))
    (l : SlotId) : (k'.processes l).pid = (k.processes l).pid := by
  unfold processDispatchNext at h
  rw [if_neg (by simp)] at h
  split at h
  · cases h
  · rename_i next _
    simp only [Option.some.injEq] at h
    obtain rfl := congrArg Prod.snd h
    rw [switchTo_pid]
    split
    · exact setProcess_pid (p := { k.processes i with state := .ready }) rfl l
    · rfl

theorem dispatchNext_lasting {policy : DispatchPolicy} (h : processDispatchNext (some i) policy k = some (frame, k')) :
    Lasting k k' := by
  obtain ⟨j, hj⟩ := dispatchNext_spec h
  have hold : (k'.processes i).state = .ready ∨ k'.processes i = k.processes i := by
    rw [hj.old]
    split
    · exact .inl rfl
    · exact .inr rfl
  refine ⟨fun l hl => ⟨?_, dispatchNext_pid h l⟩, fun l hl => ?_⟩
  · by_cases hlj : l = j
    · subst hlj
      simp [Living, hj.running]
    by_cases hli : l = i
    · subst hli
      rcases hold with hready | hsame
      · simp [Living, hready]
      · rwa [hsame]
    · rwa [hj.keep l hli hlj]
  · by_cases hlj : l = j
    · subst hlj
      simp [hj.running] at hl
    by_cases hli : l = i
    · subst hli
      rcases hold with hready | hsame
      · simp [hready] at hl
      · rwa [hsame] at hl
    · rwa [hj.keep l hli hlj] at hl

/-! ## System calls -/

theorem spawnResult_lasting (hk : ∀ i, k.current = some i → (k.processes i).state = .running) (path : Path)
    (entryIndex argvPtr argc : Nat) : Lasting k (spawnResult env path entryIndex argvPtr argc k).2 := by
  have h := appSpawnVfs_outcome env path entryIndex argvPtr argc hk
  unfold Wp at h
  unfold spawnResult
  split at h <;> rename_i heq <;> rw [heq]
  · dsimp only
    split <;> exact h.lasting
  · exact h.lasting

theorem sysWait_lasting (pid : UInt64) : Lasting k (sysWait pid k).2 ∧ SameRest k (sysWait pid k).2 := by
  have hsame : Lasting k k ∧ SameRest k k := ⟨.refl k, rfl⟩
  rcases sysWait_leaves pid k with heq | ⟨i, -, -, hzombie, heq⟩ <;> rw [heq]
  · exact hsame
  · exact ⟨processRelease_lasting fun hliving => hliving.2 hzombie, processRelease_rest _ _⟩

/-- What a system call does that only sets `x0`. -/
inductive CallOutcome (env : Env ρ) (frame : Frame) (k k' : Kernel ρ) : Prop
  | lasting (processes : Lasting k k') (rest : SameRest k k')
  | killed (i : SlotId) (nr : frame.arg 8 = sysKillNr) (pid : (k.processes i).pid = (frame.arg 0).toNat)
      (other : k.current ≠ some i) (live : (k.processes i).state ≠ .unused)
      (kernel : k' = processMarkExited env i kernelUserKillExitCode k)
  | other (x0 : UInt64) (rest : ρ) (call : env.other k frame = some (x0, rest)) (kernel : k' = { k with rest })

theorem sysKill_outcome (hnr : frame.arg 8 = sysKillNr) : CallOutcome env frame k (sysKill env (frame.arg 0) k).2 := by
  rcases sysKill_leaves env (frame.arg 0) k with heq | ⟨i, hfind, hcurrent, -, heq⟩ <;> rw [heq]
  · exact .lasting (.refl k) rfl
  · obtain ⟨hlive, hpid⟩ := processFind_some hfind
    exact .killed i hnr hpid hcurrent hlive rfl

theorem simpleCall_cases (env : Env ρ) (hk : ∀ i, k.current = some i → (k.processes i).state = .running)
    (frame : Frame) :
    CallOutcome env frame k (simpleCall env frame k).2 := by
  have hsame : CallOutcome env frame k k := .lasting (.refl k) rfl
  have hspawn : ∀ path entryIndex argvPtr argc,
      CallOutcome env frame k (spawnResult env path entryIndex argvPtr argc k).2 :=
    fun _ _ _ _ => .lasting (spawnResult_lasting hk _ _ _ _) (spawnResult_rest _ _ _ _)
  have hcurrent : ∀ {m : SpaceM Int}, Moves SpaceCtx m → CallOutcome env frame k (onCurrent m k).2 :=
    fun hm => .lasting (.of_roster (onCurrent_roster hm)) (onCurrent_rest _)
  unfold simpleCall
  dsimp only
  split
  · exact hsame
  split
  · unfold sysSpawn
    split
    · exact hsame
    split
    · exact hsame
    · exact hspawn _ _ _ _
  split
  · unfold sysSpawnArgv
    split
    · exact hsame
    split
    · exact hsame
    · dsimp only
      generalize (if frame.arg 3 = 0 then decide (frame.arg 2 = 0) else _) = argvOk
      cases argvOk with
      | true => exact hspawn _ _ _ _
      | false => exact hsame
  split
  · exact .lasting (sysWait_lasting _).1 (sysWait_lasting _).2
  split
  · exact sysKill_outcome ‹_›
  split
  · exact hcurrent (userVmMapAnonymous_keeps _ _ _)
  split
  · exact hcurrent (userVmUnmapAnonymous_keeps _ _)
  split
  · exact hsame
  · rename_i x0 rest hother
    exact .other x0 rest hother rfl

/-! ## Names -/

section Names

variable {names : ρ → Set UInt32} {k₀ : Kernel ρ}

/-- Every named process is there and has not ended, and it is one that was there in `k₀`; no process waits
for its loader. -/
structure NamesOk (names : ρ → Set UInt32) (k₀ k : Kernel ρ) : Prop where
  holder : ∀ pid ∈ names k.rest, ∃ i, Holds k₀ i pid ∧ Holds k i pid
  awake : ∀ i, (k.processes i).state ≠ .blocked

theorem NamesOk.now (h : NamesOk names k₀ k) : NamesOk names k k := by
  refine ⟨fun pid hpid => ?_, h.awake⟩
  obtain ⟨i, -, hi⟩ := h.holder pid hpid
  exact ⟨i, hi, hi⟩

/-- The rest of the kernel names no process that it did not name. -/
def NoNewNames (names : ρ → Set UInt32) (s s' : ρ) : Prop := names s' ⊆ names s

instance : Std.Refl (NoNewNames names) := ⟨fun _ => subset_rfl⟩

instance : IsTrans ρ (NoNewNames names) := ⟨fun _ _ _ h h' => h'.trans h⟩

theorem NamesOk.lasting (h : NamesOk names k₀ k) (hk : Lasting k k') (hrest : NoNewNames names k.rest k'.rest) :
    NamesOk names k₀ k' := by
  refine ⟨fun pid hpid => ?_, fun i hi => h.awake i (hk.blocked i hi)⟩
  obtain ⟨i, h₀, hi⟩ := h.holder pid (hrest hpid)
  exact ⟨i, h₀, hk.holds hi⟩

theorem NamesOk.withCurrent {f : Process → Process} (h : NamesOk names k₀ k)
    (hf : ∀ p, (f p).pid = p.pid ∧ (f p).state = p.state) : NamesOk names k₀ (withCurrent f k) :=
  h.lasting (.of_roster (withCurrent_roster hf k)) (withCurrent_rest f k).related

theorem NamesOk.markExited (h : NamesOk names k₀ k) (hwindows : Unasked env (NoNewNames names)) (code : UInt64)
    (hi : UInt32.ofNat (k.processes i).pid ∉ names (env.destroyWindows (k.processes i).pid k.rest)) :
    NamesOk names k₀ (processMarkExited env i code k) := by
  unfold processMarkExited
  dsimp only
  split
  · exact h
  refine ⟨fun pid hpid => ?_, fun j => ?_⟩
  · obtain ⟨j, h₀, hj, rfl⟩ := h.holder pid (hwindows.windows _ _ hpid)
    -- the named process is another one
    have hji : j ≠ i := by
      rintro rfl
      exact hi hpid
    refine ⟨j, h₀, ?_⟩
    simp only [Holds, Kernel.setProcess, Function.update_of_ne hji]
    exact ⟨hj, trivial⟩
  · by_cases hji : j = i
    · simp [Kernel.setProcess, hji]
    · simpa [Kernel.setProcess, hji] using h.awake j

theorem NamesOk.endCurrent (h : NamesOk names k₀ k) (hat : AtUser k i) (hwindows : Unasked env (NoNewNames names))
    (code : UInt64) (hi : UInt32.ofNat (k.processes i).pid ∉ names (env.destroyWindows (k.processes i).pid k.rest)) :
    NamesOk names k₀ (endCurrent env code regs k).2 := by
  have hmark := h.markExited hwindows code hi
  unfold Armonios.endCurrent
  simp only [hat.current]
  split
  · rename_i next hd
    exact hmark.lasting (dispatchNext_lasting hd) (dispatchNext_rest hd).related
  · exact hmark

/-- The kernel when a system call is looked at: the devices are polled and the context is saved. -/
def polled (env : Env ρ) (regs : Frame) (k : Kernel ρ) : Kernel ρ :=
  withCurrent (processSaveContext regs) { k with rest := env.poll k regs }

theorem polled_roster (env : Env ρ) (regs : Frame) (k : Kernel ρ) : (polled env regs k).roster = k.roster :=
  withCurrent_roster (f := processSaveContext regs) (fun _ => ⟨rfl, rfl⟩) { k with rest := env.poll k regs }

theorem polled_rest (env : Env ρ) (regs : Frame) (k : Kernel ρ) : (polled env regs k).rest = env.poll k regs :=
  withCurrent_rest _ _

theorem AtUser.polled (hat : AtUser k i) (env : Env ρ) (regs : Frame) : AtUser (polled env regs k) i :=
  AtUser.withCurrent ⟨hat.current, hat.running⟩ fun _ => rfl

theorem polled_pid (env : Env ρ) (regs : Frame) (k : Kernel ρ) (j : SlotId) :
    ((polled env regs k).processes j).pid = (k.processes j).pid :=
  congrFun (congrArg Roster.pid (polled_roster env regs k)) j

/-- The pid of the process that an event ends, if there is a process with this pid. `SYS_KILL` does not
end its caller. -/
def endedPid (m : Machine ρ) (e : Event) : Option Nat :=
  let currentPid := m.kernel.current.map fun i => (m.kernel.processes i).pid
  match e, m.cpu with
  | .fault, _ => currentPid
  | .svc, .user regs =>
    if regs.arg 8 = sysExitNr then currentPid
    else if regs.arg 8 = sysKillNr ∧ currentPid ≠ some (regs.arg 0).toNat then some (regs.arg 0).toNat
    else none
  | _, _ => none

theorem NamesOk.syscallDispatch (h : NamesOk names m.kernel m.kernel) (hroster : RosterOk m.kernel.roster)
    (hat : AtUser m.kernel i) (hcpu : m.cpu = .user regs) (hquiet : Unasked env (NoNewNames names))
    (hends : ∀ pid ∈ endedPid m .svc, ∀ s, NoNewNames names m.kernel.rest s →
      UInt32.ofNat pid ∉ names (env.destroyWindows pid s))
    (hcall : ∀ x0 s, env.other (polled env regs m.kernel) regs = some (x0, s) →
      ∀ pid ∈ names s, pid ∈ names (env.poll m.kernel regs) ∨ Alive m.kernel pid) :
    NamesOk names m.kernel (syscallDispatch env regs m.kernel).2 := by
  have hpoll : NoNewNames names m.kernel.rest (polled env regs m.kernel).rest := by
    rw [polled_rest]
    exact hquiet.poll _ _
  have hlasting : Lasting m.kernel (polled env regs m.kernel) := .of_roster (polled_roster env regs m.kernel)
  have hstart := h.lasting hlasting hpoll
  have hat' := hat.polled env regs
  have hpid := polled_pid env regs m.kernel
  unfold Armonios.syscallDispatch
  refine NamesOk.withCurrent ?_ fun _ => ⟨rfl, rfl⟩
  dsimp only
  rw [show Armonios.withCurrent (processSaveContext regs) { m.kernel with rest := env.poll m.kernel regs } =
    polled env regs m.kernel from rfl]
  split
  · rename_i hnr
    refine hstart.endCurrent hat' hquiet _ (hends _ ?_ _ hpoll)
    rw [hpid]
    simp [endedPid, hcpu, hnr, hat.current]
  split
  · unfold sysYield
    dsimp only
    have hyield := hstart.withCurrent (f := fun p => { p with regs := setReg 0 0 p.regs }) fun _ => ⟨rfl, rfl⟩
    rw [hat'.current]
    split
    · rename_i next hd
      exact hyield.lasting (dispatchNext_lasting hd) (dispatchNext_rest hd).related
    · exact hyield
  · dsimp only
    have hrunning : ∀ j, (polled env regs m.kernel).current = some j →
        ((polled env regs m.kernel).processes j).state = .running := by
      intro j hj
      rw [hat'.current] at hj
      cases hj
      exact hat'.running
    cases simpleCall_cases env hrunning regs with
    | lasting processes rest => exact hstart.lasting processes rest.related
    | killed j nr pid other live kernel =>
      rw [kernel]
      refine hstart.markExited hquiet _ (hends _ ?_ _ hpoll)
      rw [pid]
      rw [hpid] at pid
      -- another slot has another pid
      have hne : (m.kernel.processes i).pid ≠ (regs.arg 0).toNat := by
        intro heq
        have hlive : (m.kernel.processes j).state ≠ .unused := by
          rwa [show ((polled env regs m.kernel).processes j).state = (m.kernel.processes j).state from
            congrFun (congrArg Roster.state (polled_roster env regs m.kernel)) j] at live
        have hij := hroster.distinct i j (by simp [Kernel.roster, hat.running]) hlive (heq.trans pid.symm)
        exact other (hij ▸ hat'.current)
      have hnr : sysKillNr ≠ sysExitNr := by decide
      simp [endedPid, hcpu, nr, hnr, hat.current, hne]
    | other x0 rest call kernel =>
      rw [kernel]
      refine ⟨fun pid hpid => ?_, hstart.awake⟩
      rcases hcall x0 rest call pid hpid with hold | halive
      · rw [← polled_rest env regs m.kernel] at hold
        exact hstart.holder pid hold
      · obtain ⟨j, hj⟩ := halive
        exact ⟨j, hj, hlasting.holds hj⟩

theorem NamesOk.irqHandlerFrame (h : NamesOk names k₀ k) (hquiet : Unasked env (NoNewNames names))
    (hat : k.current = none ∨ ∃ i, AtUser k i) (irq : Option UInt32) (regs : Frame) :
    NamesOk names k₀ (irqHandlerFrame env irq regs k).2 := by
  have hrest := hquiet.irqHandlerFrame irq regs k
  refine h.lasting ?_ hrest
  rcases hat with hnone | ⟨i, hat⟩
  · obtain ⟨rest, hkernel⟩ := irqHandlerFrame_idle env hnone irq regs
    rw [hkernel]
    exact .of_roster rfl
  have hsave := withCurrent_roster (f := processSaveContext regs) (fun _ => ⟨rfl, rfl⟩) k
  have hat' := hat.withCurrent (f := processSaveContext regs) fun _ => rfl
  unfold Armonios.irqHandlerFrame
  dsimp only
  split
  · exact .of_roster hsave
  rename_i n
  generalize hq : Armonios.withCurrent _ { Armonios.withCurrent (processSaveContext regs) k with
    rest := env.irqWork (Armonios.withCurrent (processSaveContext regs) k) n } = q
  have hframe := withCurrent_roster (f := fun p => { p with pc := regs.elr, pstate := regs.spsr, sp := regs.spEl0 })
    (fun _ => ⟨rfl, rfl⟩) { Armonios.withCurrent (processSaveContext regs) k with
      rest := env.irqWork (Armonios.withCurrent (processSaveContext regs) k) n }
  have hroster : q.roster = k.roster := by
    rw [← hq]
    exact hframe.trans hsave
  have hcur : q.current = some i := (congrArg Roster.current hroster).trans hat.current
  rw [hcur]
  split
  · rename_i next hd
    exact (Lasting.of_roster hroster).trans (dispatchNext_lasting hd)
  · exact .of_roster hroster

/-- `panel_boot_run` releases what is in the panel's slot when every process has ended. -/
theorem NamesOk.panelBootLeave {kernelPageTable : Nat} {panel : SlotId} (h : NamesOk names k₀ k)
    (hroster : RosterOk k.roster) (hidle : Idle k) (hcur : k.current = some i)
    (hz : (k.processes i).state = .zombie) : NamesOk names k₀ (panelBootLeave kernelPageTable panel k) := by
  have hdead : ∀ j, ¬ Living (k.processes j) := by
    intro j hj
    have hrunning : (k.processes j).state ≠ .running := by
      intro hrun
      have hij := hroster.running j hrun
      rw [show k.roster.current = k.current from rfl, hcur] at hij
      cases hij
      rw [hz] at hrun
      cases hrun
    cases hs : (k.processes j).state with
    | unused => exact hj.1 hs
    | ready => exact hidle j hs
    | running => exact hrunning hs
    | blocked => exact h.awake j hs
    | zombie => exact hj.2 hs
  have hrec := reclaimZombies_spec { k with ttbr0 := if kernelPageTable ≠ 0 then kernelPageTable else k.ttbr0 }
  unfold Armonios.panelBootLeave
  have hlasting : Lasting k _ := (Lasting.of_roster (by rfl)).trans hrec.lasting
  refine h.lasting (hlasting.trans (processRelease_lasting ?_)) ?_
  · rw [hrec.processes]
    by_cases hpanel : (k.processes panel).state = .zombie
    · rw [if_pos hpanel]
      simp [Living, freeSlot]
    · rw [if_neg hpanel]
      exact hdead panel
  · exact ((reclaimZombies_rest _).trans (processRelease_rest _ _)).related

/-- One step. The process that it ends must not be named afterwards, and a call of the rest of the kernel
may name only processes that are there. -/
theorem next_namesOk {e : Event} (hplaced : Placed m) (hroster : RosterOk m.kernel.roster)
    (hquiet : Unasked env (NoNewNames names))
    (hends : ∀ pid ∈ endedPid m e, ∀ s, NoNewNames names m.kernel.rest s →
      UInt32.ofNat pid ∉ names (env.destroyWindows pid s))
    (hcall : ∀ regs x0 s, e = .svc → m.cpu = .user regs → env.other (polled env regs m.kernel) regs = some (x0, s) →
      ∀ pid ∈ names s, pid ∈ names (env.poll m.kernel regs) ∨ Alive m.kernel pid)
    (h : NamesOk names m.kernel m.kernel) (hstep : m.next env e = some m') : NamesOk names m.kernel m'.kernel := by
  have hcpu := hplaced.cpu
  unfold CpuPlace at hcpu
  cases e with
  | boot memoryBase memorySize mapMmio =>
    simp only [Machine.next] at hstep
    split at hstep
    · rename_i hc
      rw [hc] at hcpu
      have hspec := Wp.and (panelBootEnter_slot env memoryBase memorySize mapMmio hcpu.1)
        (panelBootEnter_rest env memoryBase memorySize mapMmio m.kernel)
      unfold Wp at hspec
      split at hspec <;> rename_i r k' heq <;> rw [heq] at hstep <;> cases hstep
      · obtain ⟨⟨hat, -, htaken⟩, hrest⟩ := hspec
        exact h.lasting (htaken.lasting (by rw [hat.running]; simp)) hrest.related
      · obtain ⟨⟨-, hrec | ⟨slot, htaken, hun⟩⟩, hrest⟩ := hspec
        · exact h.lasting hrec.lasting hrest.related
        · exact h.lasting (htaken.lasting (by rw [hun]; simp)) hrest.related
    · cases hstep
  | launch x =>
    simp only [Machine.next] at hstep
    split at hstep <;> cases hstep
    exact h
  | run regs =>
    simp only [Machine.next] at hstep
    split at hstep
    · split at hstep <;> cases hstep
      exact h
    · cases hstep
  | svc =>
    simp only [Machine.next] at hstep
    split at hstep
    · rename_i regs hc
      rw [hc] at hcpu
      cases hstep
      obtain ⟨-, i, hat⟩ := hcpu
      exact h.syscallDispatch hroster hat hc hquiet hends fun x0 s => hcall regs x0 s rfl hc
    · cases hstep
  | fault =>
    simp only [Machine.next] at hstep
    split at hstep
    · rename_i regs hc
      rw [hc] at hcpu
      cases hstep
      obtain ⟨-, i, hat⟩ := hcpu
      have hsave := h.withCurrent (f := processSaveContext regs) fun _ => ⟨rfl, rfl⟩
      have hat' := hat.withCurrent (f := processSaveContext regs) fun _ => rfl
      have hroster' := withCurrent_roster (f := processSaveContext regs) (fun _ => ⟨rfl, rfl⟩) m.kernel
      have hpid : ((withCurrent (processSaveContext regs) m.kernel).processes i).pid = (m.kernel.processes i).pid :=
        congrFun (congrArg Roster.pid hroster') i
      refine hsave.endCurrent hat' hquiet _ (hends _ ?_ _ (withCurrent_rest _ _).related)
      rw [hpid]
      simp [endedPid, hat.current]
    · cases hstep
  | irq irq =>
    simp only [Machine.next] at hstep
    split at hstep
    · rename_i regs hc
      rw [hc] at hcpu
      cases hstep
      exact h.irqHandlerFrame hquiet (.inr hcpu.2) irq regs
    · cases hstep
  | irqEl1 irq regs =>
    simp only [Machine.next] at hstep
    split at hstep
    · cases hstep
    rw [Option.map_eq_some_iff] at hstep
    obtain ⟨cpu, hback, rfl⟩ := hstep
    refine h.irqHandlerFrame hquiet ?_ irq regs
    split at hcpu
    · exact .inl hcpu.1
    · exact .inr ⟨_, hcpu⟩
    · exact .inr hcpu.2
    · exact .inr hcpu
    · rename_i hc
      rw [hc] at hback
      cases hback
    · exact .inr hcpu
  | eret =>
    simp only [Machine.next] at hstep
    split at hstep <;> cases hstep
    exact h
  | leave =>
    simp only [Machine.next] at hstep
    split at hstep
    · rename_i hc
      rw [hc] at hcpu
      cases hstep
      obtain ⟨⟨i, hcur, hz⟩, hidle⟩ := hcpu
      exact h.panelBootLeave hroster hidle hcur hz
    · cases hstep

end Names

end Armonios
