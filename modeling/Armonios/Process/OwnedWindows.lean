import Armonios.Gui.Owners
import Armonios.Process.Files
import Armonios.Process.Pids

/-!
# Windows and the end of processes

The machine with the desktop. `GuiRest` is what the rest of the kernel keeps, with the desktop of
`kernel/gui_compositor.c` taken out of it; before a system call and in a timer interrupt, the events of the input queue
go to the desktop.

* `next_windows`: a step of the machine creates a window for the process that is current, or none;
* `WatchedMachine`: which process created the window in each place, as a ghost;
* `watchedRun_owned`: this process has not ended.
-/

namespace Armonios

structure GuiRest (β : Type) where
  /-- `gui_desktop`, where there is one. -/
  desktop : Option Desktop
  others : β

abbrev GuiKernel (β : Type) := Kernel (GuiRest β)

/-- The rest of the kernel, the desktop apart. -/
structure GuiEnv (β : Type) where
  bootfsFind : Path → Option (List UInt8)
  returnAddress : UInt64
  byte : Nat → UInt8
  kmalloc : Kmalloc
  /-- The events in the input queue. -/
  queued : GuiKernel β → List InputEvent
  destroyed : Nat → β → β
  poll : GuiKernel β → Frame → β
  irqWork : GuiKernel β → UInt32 → β
  drawn : GuiKernel β → WindowCall → β
  /-- The system calls on files, messages and information. -/
  call : GuiKernel β → Frame → Option (UInt64 × β)

variable {β : Type} {env env' : GuiEnv β} {k : GuiKernel β} {m m' m₀ : Machine (GuiRest β)} {s s' : GuiRest β}
  {regs : Frame} {j : WindowId} {pid : UInt32}

/-- `gui_window_owner_dead`. -/
def guiWindowOwnerDead {ρ : Type} (k : Kernel ρ) (window : Window) : Bool :=
  if window.used = false ∨ window.ownerPid = guiNoOwner then false
  else
    match processFind window.ownerPid.toNat k with
    | none => true
    | some i => (k.processes i).state = .zombie ∨ (k.processes i).state = .unused

/-- `gui_handle_input`. -/
def guiHandleInput (k : GuiKernel β) (s : GuiRest β) (event : InputEvent) : GuiRest β :=
  { s with desktop := s.desktop.map fun d => (guiHandleDesktopInput (guiWindowOwnerDead k) event d).desktop }

/-- The loops on the input queue. -/
def handleQueued (k : GuiKernel β) (events : List InputEvent) (s : GuiRest β) : GuiRest β :=
  events.foldl (guiHandleInput k) s

namespace GuiEnv

variable (env : GuiEnv β)

/-- A system call on windows, of the process that is current. -/
def windowCall (k : GuiKernel β) (call : WindowCall) : Int × GuiRest β :=
  let r := call.run env.byte env.kmalloc (k.current.map k.processes) ⟨k.rest.desktop, [], []⟩
  (r.1, ⟨r.2.desktop, env.drawn k call⟩)

/-- The environment of the process and trap code. -/
def toEnv : Env (GuiRest β) where
  destroyWindows pid s :=
    { desktop := s.desktop.map fun d => (guiDestroyWindowsForPid (UInt32.ofNat pid) d).desktop
      others := env.destroyed pid s.others }
  bootfsFind := env.bootfsFind
  byte := env.byte
  poll k frame :=
    -- a process that reads its standard input finds it in the queue
    let events := if frame.arg 8 = sysReadNr then [] else env.queued k
    { handleQueued k events k.rest with others := env.poll k frame }
  irqWork k irq := { handleQueued k (env.queued k) k.rest with others := env.irqWork k irq }
  returnAddress := env.returnAddress
  other k frame :=
    match WindowCall.ofFrame frame with
    | some call => some (toWord (env.windowCall k call).1, (env.windowCall k call).2)
    | none => (env.call k frame).map fun r => (r.1, { k.rest with others := r.2 })

/-- The same kernel; what it works on may be different. -/
structure Sibling (env env' : GuiEnv β) : Prop where
  bootfs : env'.bootfsFind = env.bootfsFind
  returnAddress : env'.returnAddress = env.returnAddress

end GuiEnv

theorem GuiEnv.Sibling.toEnv (h : env.Sibling env') : env.toEnv.Sibling env'.toEnv := ⟨h.bootfs, h.returnAddress⟩

/-! ## The windows and their owners -/

/-- The window in `j` is there and has this owner. -/
def GuiRest.Owns (s : GuiRest β) (j : WindowId) (pid : UInt32) : Prop :=
  ∃ d ∈ s.desktop, (d.windows j).used = true ∧ (d.windows j).ownerPid = pid

def GuiRest.usedAt (s : GuiRest β) (j : WindowId) : Bool := s.desktop.any fun d => (d.windows j).used

/-- The processes that have windows. -/
def windowOwners (s : GuiRest β) : Set UInt32 := { pid | pid ≠ guiNoOwner ∧ ∃ j, s.Owns j pid }

/-- No window has got an owner. -/
def NoneCreated (s s' : GuiRest β) : Prop := ∀ j pid, s'.Owns j pid → s.Owns j pid

instance : Std.Refl (NoneCreated : GuiRest β → GuiRest β → Prop) := ⟨fun _ _ _ h => h⟩

instance : IsTrans (GuiRest β) NoneCreated := ⟨fun _ _ _ h h' j pid hj => h j pid (h' j pid hj)⟩

theorem NoneCreated.noNewNames (h : NoneCreated s s') : NoNewNames windowOwners s s' := by
  rintro pid ⟨hpid, j, hj⟩
  exact ⟨hpid, j, h j pid hj⟩

theorem GuiRest.Owns.usedAt (h : s.Owns j pid) : s.usedAt j = true := by
  obtain ⟨d, hd, hused, -⟩ := h
  rw [Option.mem_def] at hd
  simp [GuiRest.usedAt, hd, hused]

theorem OwnersKept.noneCreated {d d' : Desktop} (h : OwnersKept d d') (hs : s.desktop = some d)
    (hs' : s'.desktop = some d') : NoneCreated s s' := by
  rintro j pid ⟨e, he, hused, howner⟩
  rw [hs', Option.mem_some_iff] at he
  subst he
  obtain ⟨hused₀, howner₀⟩ := h j hused
  exact ⟨d, hs, hused₀, howner₀.symm.trans howner⟩

theorem noneCreated_map {f : Desktop → Desktop} (hf : ∀ d, OwnersKept d (f d))
    (hs' : s'.desktop = s.desktop.map f) : NoneCreated s s' := by
  cases hs : s.desktop with
  | none =>
    rintro j pid ⟨d, hd, -⟩
    rw [hs', hs] at hd
    cases hd
  | some d =>
    rw [hs] at hs'
    exact (hf d).noneCreated hs hs'

theorem handleQueued_created (k : GuiKernel β) (events : List InputEvent) (s : GuiRest β) :
    NoneCreated s (handleQueued k events s) := by
  induction events generalizing s with
  | nil => exact Std.Refl.refl s
  | cons event events ih =>
    have hfirst : NoneCreated s (guiHandleInput k s event) :=
      noneCreated_map (guiHandleDesktopInput_owners _ event) rfl
    exact IsTrans.trans _ _ _ hfirst (ih _)

theorem GuiEnv.unasked (env : GuiEnv β) : Unasked env.toEnv NoneCreated where
  windows _ _ := noneCreated_map (guiDestroyWindowsForPid_owners _) rfl
  poll k _ := handleQueued_created k _ _
  irqWork k _ := handleQueued_created k _ _

theorem GuiEnv.unasked_names (env : GuiEnv β) : Unasked env.toEnv (NoNewNames windowOwners) where
  windows pid s := (env.unasked.windows pid s).noNewNames
  poll k frame := (env.unasked.poll k frame).noNewNames
  irqWork k irq := (env.unasked.irqWork k irq).noNewNames

/-- The process that ends has no window afterwards. -/
theorem destroyWindows_owners (env : GuiEnv β) (pid : Nat) (s : GuiRest β) :
    UInt32.ofNat pid ∉ windowOwners (env.toEnv.destroyWindows pid s) := by
  rintro ⟨hpid, j, e, he, hused, howner⟩
  obtain ⟨d, -, rfl⟩ := Option.map_eq_some_iff.mp he
  exact destroyWindowsForPid_gone hpid hused howner

/-! ## System calls -/

/-- A system call on windows creates one for the process that is current, or none. -/
theorem windowCall_owns {call : WindowCall} {i : SlotId} (hcur : k.current = some i)
    (h : (env.windowCall k call).2.Owns j pid) :
    k.rest.Owns j pid ∨ k.rest.usedAt j = false ∧ UInt32.ofNat (k.processes i).pid = pid := by
  obtain ⟨d', hd', hused, howner⟩ := h
  simp only [GuiEnv.windowCall, hcur, Option.map_some, Option.mem_def] at hd'
  cases hd : k.rest.desktop with
  | none =>
    rw [call.run_off hd] at hd'
    cases hd'
  | some d =>
    obtain ⟨e, he, heffect⟩ :=
      call.run_effect env.byte env.kmalloc (p := k.processes i) (s := ⟨k.rest.desktop, [], []⟩) hd
    obtain rfl : e = d' := Option.some.inj (he.symm.trans hd')
    rcases heffect.owners with hkeep | ⟨l, hfree, hcreated, hothers⟩
    · obtain ⟨hused₀, howner₀⟩ := hkeep j hused
      exact .inl ⟨d, hd, hused₀, howner₀.symm.trans howner⟩
    · by_cases hjl : j = l
      · subst hjl
        refine .inr ⟨?_, hcreated.symm.trans howner⟩
        simp [GuiRest.usedAt, hd, hfree]
      · rw [hothers j hjl] at hused howner
        exact .inl ⟨d, hd, hused, howner⟩

theorem other_owns {i : SlotId} {x0 : UInt64} (hcur : k.current = some i)
    (h : env.toEnv.other k regs = some (x0, s)) (hj : s.Owns j pid) :
    k.rest.Owns j pid ∨ k.rest.usedAt j = false ∧ UInt32.ofNat (k.processes i).pid = pid := by
  simp only [GuiEnv.toEnv] at h
  split at h
  · cases h
    exact windowCall_owns hcur hj
  · obtain ⟨r, -, heq⟩ := Option.map_eq_some_iff.mp h
    cases heq
    exact .inl hj

/-- What is left of `Unasked.syscallDispatch` when the devices have been polled. -/
theorem polledCall {ρ : Type} {env : Env ρ} {Q : ρ → ρ → Prop} [Std.Refl Q] [IsTrans ρ Q] (h : Unasked env Q)
    (regs : Frame) (k : Kernel ρ) : Q (env.poll k regs) (syscallDispatch env regs k).2.rest ∨
      env.other (polled env regs k) regs =
        some ((syscallDispatch env regs k).1.arg 0, (syscallDispatch env regs k).2.rest) := by
  have hrest := polled_rest env regs k
  unfold syscallDispatch
  dsimp only
  rw [show withCurrent (processSaveContext regs) { k with rest := env.poll k regs } = polled env regs k from rfl]
  rw [← hrest]
  generalize polled env regs k = q
  split
  · exact .inl (IsTrans.trans _ _ _ (h.endCurrent _ _ _) (withCurrent_rest _ _).related)
  split
  · left
    refine IsTrans.trans _ _ _ ?_ (withCurrent_rest _ _).related
    unfold sysYield
    dsimp only
    split
    · rename_i next hd
      exact ((withCurrent_rest _ _).trans (dispatchNext_rest hd)).related
    · exact (withCurrent_rest _ _).related
  · rcases h.simpleCall regs q with hsame | hother
    · exact .inl (IsTrans.trans _ _ _ hsame (withCurrent_rest _ _).related)
    · right
      rw [hother, withCurrent_rest]
      congr 2
      simp [Frame.arg, Frame.setX0, setReg, Vector.getD]

/-! ## Steps -/

/-- The step creates a window in `j`: there is one afterwards, and none when the call is looked at. -/
def createdAt (env : GuiEnv β) (m : Machine (GuiRest β)) (e : Event) (m' : Machine (GuiRest β)) (j : WindowId) : Bool :=
  match e, m.cpu with
  | .svc, .user regs => !(env.toEnv.poll m.kernel regs).usedAt j && m'.kernel.rest.usedAt j
  | _, _ => false

/-- A window was there before, with its owner; or the step creates it for the process that is current. -/
theorem next_windows {e : Event} (hplaced : Placed m) (hstep : m.next env.toEnv e = some m')
    (hj : m'.kernel.rest.Owns j pid) :
    createdAt env m e m' j = false ∧ m.kernel.rest.Owns j pid ∨
      createdAt env m e m' j = true ∧
        ∃ i, AtUser m.kernel i ∧ UInt32.ofNat (m.kernel.processes i).pid = pid := by
  have hnext := env.unasked.next hstep
  have hsame : e ≠ .svc → m.kernel.rest.Owns j pid := by
    intro he
    rcases hnext with hnone | ⟨_, _, hsvc, -⟩
    · exact hnone j pid hj
    · exact absurd hsvc he
  have hcpu := hplaced.cpu
  unfold CpuPlace at hcpu
  cases e with
  | svc =>
    simp only [Machine.next] at hstep
    split at hstep
    · rename_i regs hc
      rw [hc] at hcpu
      obtain ⟨-, i, hat⟩ := hcpu
      cases hstep
      simp only [createdAt, hc, hj.usedAt, Bool.and_true]
      have hstill : (env.toEnv.poll m.kernel regs).Owns j pid →
          (env.toEnv.poll m.kernel regs).usedAt j = true ∧ m.kernel.rest.Owns j pid :=
        fun hpoll => ⟨hpoll.usedAt, env.unasked.poll m.kernel regs j pid hpoll⟩
      rcases polledCall env.unasked regs m.kernel with hkept | hother
      · obtain ⟨hused, howns⟩ := hstill (hkept j pid hj)
        exact .inl ⟨by simp [hused], howns⟩
      · have hat' := hat.polled env.toEnv regs
        have howns := other_owns hat'.current hother hj
        rw [polled_rest, polled_pid] at howns
        rcases howns with hpoll | ⟨hfree, hpid⟩
        · obtain ⟨hused, howns⟩ := hstill hpoll
          exact .inl ⟨by simp [hused], howns⟩
        · exact .inr ⟨by simp [hfree], i, hat, hpid⟩
    · cases hstep
  | boot memoryBase memorySize mapMmio => exact .inl ⟨rfl, hsame (by simp)⟩
  | launch x => exact .inl ⟨rfl, hsame (by simp)⟩
  | run regs => exact .inl ⟨rfl, hsame (by simp)⟩
  | fault => exact .inl ⟨rfl, hsame (by simp)⟩
  | irq irq => exact .inl ⟨rfl, hsame (by simp)⟩
  | irqEl1 irq regs => exact .inl ⟨rfl, hsame (by simp)⟩
  | eret => exact .inl ⟨rfl, hsame (by simp)⟩
  | leave => exact .inl ⟨rfl, hsame (by simp)⟩

/-- The processes with windows are there in every state, and have not ended. -/
theorem next_ownersOk {e : Event} (hplaced : Placed m) (hroster : RosterOk m.kernel.roster)
    (h : NamesOk windowOwners m.kernel m.kernel) (hstep : m.next env.toEnv e = some m') :
    NamesOk windowOwners m.kernel m'.kernel := by
  have hcpu := hplaced.cpu
  unfold CpuPlace at hcpu
  refine next_namesOk hplaced hroster env.unasked_names ?_ ?_ h hstep
  · exact fun pid _ s _ => destroyWindows_owners env pid s
  · rintro regs x0 s rfl hc hother pid ⟨hpid, j, hj⟩
    rw [hc] at hcpu
    obtain ⟨-, i, hat⟩ := hcpu
    have hat' := hat.polled env.toEnv regs
    have howns := other_owns hat'.current hother hj
    rw [polled_rest, polled_pid] at howns
    rcases howns with hpoll | ⟨-, hcaller⟩
    · exact .inl ⟨hpid, j, hpoll⟩
    · exact .inr ⟨i, ⟨by simp [hat.running], by simp [hat.running]⟩, hcaller⟩

/-! ## The creators -/

instance (p : Process) : Decidable (Living p) := inferInstanceAs (Decidable (_ ∧ _))

structure WatchedMachine (β : Type) where
  machine : Machine (GuiRest β)
  /-- How many processes there have been in each slot. -/
  lives : SlotId → Nat
  /-- The slot of the process that created the window in each place. -/
  creator : WindowId → Option SlotId
  /-- Which process of this slot it was. -/
  creatorLife : WindowId → Nat

/-- One step, with the ghosts. -/
def WatchedMachine.after (env : GuiEnv β) (e : Event) (s : WatchedMachine β) (m' : Machine (GuiRest β)) : WatchedMachine β where
  machine := m'
  lives i :=
    if ¬ Living (s.machine.kernel.processes i) ∧ Living (m'.kernel.processes i) then s.lives i + 1 else s.lives i
  creator j := if createdAt env s.machine e m' j then s.machine.kernel.current else s.creator j
  creatorLife j :=
    if createdAt env s.machine e m' j then (s.machine.kernel.current.elim 0 s.lives) else s.creatorLife j

def watchStep (env : GuiEnv β) (s s' : WatchedMachine β) : Prop :=
  ∃ env' e m', env.Sibling env' ∧ s.machine.next env'.toEnv e = some m' ∧ s' = s.after env' e m'

/-- The process that created the window in `j` has the pid and has not ended, and no other process has it. -/
def CreatorLives (s : WatchedMachine β) (j : WindowId) (pid : UInt32) : Prop :=
  ∃ i, s.creator j = some i ∧ s.creatorLife j = s.lives i ∧ Holds s.machine.kernel i pid ∧
    ∀ l, Holds s.machine.kernel l pid → l = i

/-- No window belongs to a process that is not there. -/
def NoGhosts (s : WatchedMachine β) : Prop :=
  ∀ j pid, s.machine.kernel.rest.Owns j pid → pid ≠ guiNoOwner → CreatorLives s j pid

variable {w w₀ : WatchedMachine β}

theorem watchRun_machine (h : Run (watchStep env) w₀ w) :
    Run (machineStep env.toEnv AnyEvent) w₀.machine w.machine := by
  induction h with
  | refl => exact .refl
  | tail _ hst ih =>
    obtain ⟨env', e, m', hsib, hnext, rfl⟩ := hst
    exact ih.tail ⟨env'.toEnv, e, hsib.toEnv, trivial, hnext⟩

theorem next_noGhosts {e : Event} (hplaced : Placed w.machine) (hroster : RosterOk w.machine.kernel.roster)
    (hpids : PidsFit w.machine.kernel) (hroster' : RosterOk m'.kernel.roster) (hpids' : PidsFit m'.kernel)
    (howners : NamesOk windowOwners w.machine.kernel m'.kernel) (h : NoGhosts w)
    (hstep : w.machine.next env.toEnv e = some m') : NoGhosts (w.after env e m') := by
  intro j pid hj hpid
  obtain ⟨i, hi, hi'⟩ := howners.holder pid ⟨hpid, j, hj⟩
  -- a process that was there before the step is still the same one
  have hlives : (w.after env e m').lives i = w.lives i := if_neg fun hno => hno.1 hi.1
  have honly : ∀ l, Holds m'.kernel l pid → l = i := fun l hl => Holds.unique hpids' hroster' hl hi'
  rcases next_windows hplaced hstep hj with ⟨hold, howns⟩ | ⟨hnew, c, hat, hcaller⟩
  · obtain ⟨i₀, hcreator, hlife, hholds, -⟩ := h j pid howns hpid
    obtain rfl := Holds.unique hpids hroster hi hholds
    refine ⟨i, ?_, ?_, hi', honly⟩
    · simpa [WatchedMachine.after, hold] using hcreator
    · rw [hlives]
      simpa [WatchedMachine.after, hold] using hlife
  · have hc : Holds w.machine.kernel c pid := ⟨⟨by simp [hat.running], by simp [hat.running]⟩, hcaller⟩
    obtain rfl := Holds.unique hpids hroster hi hc
    refine ⟨i, ?_, ?_, hi', honly⟩
    · simp [WatchedMachine.after, hnew, hat.current]
    · rw [hlives]
      simp [WatchedMachine.after, hnew, hat.current]

theorem watchRun_ownersOk (hm : Booted w₀.machine) (hcount : w₀.machine.kernel.processCount = 0)
    (hnone : windowOwners w₀.machine.kernel.rest = ∅) (hrun : Run (watchStep env) w₀ w) :
    NamesOk windowOwners w.machine.kernel w.machine.kernel := by
  induction hrun with
  | refl =>
    refine ⟨fun pid hpid => ?_, fun i => ?_⟩
    · rw [hnone] at hpid
      exact hpid.elim
    · rw [hm.unused]
      simp
  | tail hbefore hst ih =>
    obtain ⟨env', e, m', -, hnext, rfl⟩ := hst
    have hmachine := watchRun_machine hbefore
    exact (next_ownersOk (machineRun_placed hm hmachine) (machineRun_rosterOk hm hcount hmachine) ih hnext).now

theorem watchRun_noGhosts (hm : Booted w₀.machine) (hcount : w₀.machine.kernel.processCount = 0)
    (hpids : PidsFit w₀.machine.kernel) (hnone : windowOwners w₀.machine.kernel.rest = ∅)
    (hrun : Run (watchStep env) w₀ w) : NoGhosts w := by
  induction hrun with
  | refl =>
    intro j pid hj hpid
    have hmem : pid ∈ windowOwners w₀.machine.kernel.rest := ⟨hpid, j, hj⟩
    rw [hnone] at hmem
    exact hmem.elim
  | tail hbefore hst ih =>
    have howners := watchRun_ownersOk hm hcount hnone hbefore
    have hmachine := watchRun_machine hbefore
    have hafter := watchRun_machine (.tail hbefore hst)
    obtain ⟨env', e, m', -, hnext, rfl⟩ := hst
    have hplaced := machineRun_placed hm hmachine
    have hroster := machineRun_rosterOk hm hcount hmachine
    exact next_noGhosts hplaced hroster (machineRun_pids hm hpids hmachine) (machineRun_rosterOk hm hcount hafter)
      (machineRun_pids hm hpids hafter) (next_ownersOk hplaced hroster howners hnext) ih hnext

/-- In every run, a window is owned by the process that created it, and this process has not ended. -/
theorem watchedRun_owned (hm : Booted w₀.machine) (hcount : w₀.machine.kernel.processCount = 0)
    (hpids : PidsFit w₀.machine.kernel) (hnone : windowOwners w₀.machine.kernel.rest = ∅)
    (hrun : Run (watchStep env) w₀ w) (howns : w.machine.kernel.rest.Owns j pid) (hpid : pid ≠ guiNoOwner) :
    CreatorLives w j pid :=
  watchRun_noGhosts hm hcount hpids hnone hrun j pid howns hpid

/-! The sample machine with a desktop. -/

def sampleGuiEnv : GuiEnv Unit where
  bootfsFind := sampleEnv.bootfsFind
  returnAddress := sampleEnv.returnAddress
  byte := sampleEnv.byte
  kmalloc _ := none
  queued _ := []
  destroyed _ _ := ()
  poll _ _ := ()
  irqWork _ _ := ()
  drawn _ _ := ()
  call _ _ := none

def sampleWatched : WatchedMachine Unit where
  machine :=
    { kernel := { sampleMachine.kernel with rest := ⟨some (sampleDesktop ⟨64, 48⟩), ()⟩ }
      cpu := .kernel
      irqOn := true
      panel := firstSlot
      kernelPageTable := 0
      owed _ := none }
  lives _ := 0
  creator _ := none
  creatorLife _ := 0

theorem sampleWatched_booted : Booted sampleWatched.machine := ⟨rfl, rfl, fun _ => rfl⟩

theorem sampleWatched_pids : PidsFit sampleWatched.machine.kernel := ⟨by decide, fun _ => Nat.two_pow_pos 32⟩

theorem sampleWatched_owners : windowOwners sampleWatched.machine.kernel.rest = ∅ := by
  ext pid
  constructor
  · rintro ⟨-, j, d, hd, hfree, -⟩
    cases hd
    cases hfree
  · exact False.elim

/-- The registers of a process that creates a window. -/
def sampleCreate : Event :=
  .run ⟨setReg 0 4 (setReg 1 4 (setReg 2 20 (setReg 3 20 (setReg 8 70 sampleRegs)))), 0x400100, spsrEl0t, 0x801000⟩

/-- The window gets its title, and a bar with buttons. -/
def sampleTitle : Event :=
  .run ⟨setReg 0 0 (setReg 1 0x400000 (setReg 2 12 (setReg 8 75 sampleRegs))), 0x400100, spsrEl0t, 0x801000⟩

/-- The panel spawns the shell and creates a window with a close box. -/
def sampleWindowEvents : List Event := sampleShell ++ [sampleCreate, .svc, sampleTitle, .svc]

/-- The events one after the other, with the ghosts. -/
def WatchedMachine.run (env : GuiEnv β) (w : WatchedMachine β) : List Event → Option (WatchedMachine β)
  | [] => some w
  | e :: es => (w.machine.next env.toEnv e).bind fun m => (w.after env e m).run env es

theorem watched_run {es : List Event} (h : w₀.run env es = some w) : Run (watchStep env) w₀ w := by
  induction es generalizing w₀ with
  | nil =>
    cases h
    exact .refl
  | cons e es ih =>
    obtain ⟨m, hnext, hrest⟩ := Option.bind_eq_some_iff.mp h
    exact .head ⟨env, e, m, ⟨rfl, rfl⟩, hnext, rfl⟩ (ih hrest)

theorem exists_sampleWindow :
    ∃ w, Run (watchStep sampleGuiEnv) sampleWatched w ∧ w.machine.kernel.rest.Owns 0 1 ∧
      ∃ d ∈ w.machine.kernel.rest.desktop, guiCloseBoxRect (d.windows 0) = some ⟨14, 6, 8, 8⟩ ∧
        d.cursor.x = 32 ∧ d.cursor.y = 24 := by
  have h : (sampleWatched.run sampleGuiEnv sampleWindowEvents).map (fun w =>
      w.machine.kernel.rest.desktop.map fun d => decide ((d.windows 0).used = true ∧ (d.windows 0).ownerPid = 1 ∧
        guiCloseBoxRect (d.windows 0) = some ⟨14, 6, 8, 8⟩ ∧ d.cursor.x = 32 ∧ d.cursor.y = 24)) =
      some (some true) := by
    decide +kernel
  obtain ⟨w, hw, hf⟩ := Option.map_eq_some_iff.mp h
  obtain ⟨d, hd, hd0⟩ := Option.map_eq_some_iff.mp hf
  obtain ⟨hused, howner, hbox, hx, hy⟩ := of_decide_eq_true hd0
  exact ⟨w, watched_run hw, ⟨d, hd, hused, howner⟩, d, hd, hbox, hx, hy⟩

theorem watchedRun_owned_sample : ∃ w, Run (watchStep sampleGuiEnv) sampleWatched w ∧
    w.machine.kernel.rest.Owns 0 1 ∧ CreatorLives w 0 1 := by
  obtain ⟨w, hrun, howns, -⟩ := exists_sampleWindow
  exact ⟨w, hrun, howns, watchedRun_owned sampleWatched_booted rfl sampleWatched_pids sampleWatched_owners hrun howns
    (by decide)⟩

/-! ## The close button -/

/-- The owner of a window on the desktop is there, in the eyes of `gui_window_owner_dead`. -/
theorem ownerDead_false (hpids : PidsFit w.machine.kernel) (hroster : RosterOk w.machine.kernel.roster)
    (h : NoGhosts w) {d d' : Desktop} (hd : w.machine.kernel.rest.desktop = some d) (hkept : OwnersKept d d')
    (i : WindowId) : guiWindowOwnerDead w.machine.kernel (d'.windows i) = false := by
  unfold guiWindowOwnerDead
  split
  · rfl
  rename_i howned
  simp only [not_or, Bool.not_eq_false] at howned
  obtain ⟨hused, howner⟩ := hkept i howned.1
  obtain ⟨l, -, -, ⟨hliving, hpid⟩, -⟩ := h i _ ⟨d, hd, hused, rfl⟩ (howner ▸ howned.2)
  have hto : (w.machine.kernel.processes l).pid = (d'.windows i).ownerPid.toNat := by
    rw [howner, ← hpid, UInt32.toNat_ofNat_of_lt' (hpids.pids l)]
  split
  · rename_i hnone
    rw [← hto] at hnone
    unfold processFind at hnone
    have hpos : (w.machine.kernel.processes l).pid ≠ 0 := hroster.nonzero l hliving.1
    rw [if_neg hpos] at hnone
    have hno := List.find?_eq_none.mp hnone l (List.mem_finRange l)
    simp [hliving.1] at hno
  · rename_i a hfind
    obtain ⟨hlive, ha⟩ := processFind_some hfind
    have hla : a = l := hroster.distinct a l hlive hliving.1 (ha.trans hto.symm)
    subst hla
    simp [hliving.1, hliving.2]

/-- Whether owners have ended matters for the window under the cursor only. -/
theorem input_ownerDead {ownerDead : Window → Bool} {d : Desktop}
    (h : ∀ d', OwnersKept d d' → ∀ i, ownerDead (d'.windows i) = false) (event : InputEvent) :
    guiHandleDesktopInput ownerDead event d = guiHandleDesktopInput (fun _ => false) event d := by
  cases event with
  | mouseButton button pressed =>
    have hclicked := h _ (GuiOp.owners (d := d) (.cursorButton button pressed) trivial)
    unfold guiHandleDesktopInput guiPressOn
    simp only [GuiOp.run] at hclicked
    simp only [hclicked]
  | mouseMove dx dy => rfl
  | keyPress key => rfl
  | keyRelease key => rfl

/-- The input of a desktop on which no owner has ended. -/
def handleAllLive (events : List InputEvent) (s : GuiRest β) : GuiRest β :=
  events.foldl (fun s event =>
    { s with desktop := s.desktop.map fun d => (guiHandleDesktopInput (fun _ => false) event d).desktop }) s

theorem handleQueued_live {events : List InputEvent}
    (h : ∀ d ∈ s.desktop, ∀ d', OwnersKept d d' → ∀ i, guiWindowOwnerDead k (d'.windows i) = false) :
    handleQueued k events s = handleAllLive events s := by
  induction events generalizing s with
  | nil => rfl
  | cons event events ih =>
    have hfirst : guiHandleInput k s event =
        { s with desktop := s.desktop.map fun d => (guiHandleDesktopInput (fun _ => false) event d).desktop } := by
      unfold guiHandleInput
      congr 1
      exact Option.map_congr fun d hd => congrArg Step.desktop (input_ownerDead (h d hd) event)
    refine (ih (s := guiHandleInput k s event) ?_).trans (congrArg (handleAllLive events) hfirst)
    -- no window has got an owner
    intro e he d' hd'
    obtain ⟨d, hd, rfl⟩ := Option.map_eq_some_iff.mp he
    exact h d hd d' ((guiHandleDesktopInput_owners _ event d).trans hd')

/-- In every run the close button of a window never destroys it: the input loops do what they do where no owner
has ended. -/
theorem watchedRun_closes (hm : Booted w₀.machine) (hcount : w₀.machine.kernel.processCount = 0)
    (hpids : PidsFit w₀.machine.kernel) (hnone : windowOwners w₀.machine.kernel.rest = ∅)
    (hrun : Run (watchStep env) w₀ w) (events : List InputEvent) :
    handleQueued w.machine.kernel events w.machine.kernel.rest = handleAllLive events w.machine.kernel.rest := by
  have hmachine := watchRun_machine hrun
  have hghosts := watchRun_noGhosts hm hcount hpids hnone hrun
  have hroster := machineRun_rosterOk hm hcount hmachine
  have hpids' := machineRun_pids hm hpids hmachine
  exact handleQueued_live fun d hd d' hkept i => ownerDead_false hpids' hroster hghosts hd hkept i

/-- A press of the left button on the close box, at (15, 8). -/
theorem watchedRun_closes_sample : ∃ w, Run (watchStep sampleGuiEnv) sampleWatched w ∧
    w.machine.kernel.rest.Owns 0 1 ∧
      (∃ d ∈ w.machine.kernel.rest.desktop, guiCloseBoxRect (d.windows 0) = some ⟨14, 6, 8, 8⟩ ∧
        d.cursor.x = 32 ∧ d.cursor.y = 24) ∧
      handleQueued w.machine.kernel [.mouseMove (-17) (-16), .mouseButton 0 true] w.machine.kernel.rest =
        handleAllLive [.mouseMove (-17) (-16), .mouseButton 0 true] w.machine.kernel.rest := by
  obtain ⟨w, hrun, howns, hbox⟩ := exists_sampleWindow
  exact ⟨w, hrun, howns, hbox,
    watchedRun_closes sampleWatched_booted rfl sampleWatched_pids sampleWatched_owners hrun _⟩

end Armonios
