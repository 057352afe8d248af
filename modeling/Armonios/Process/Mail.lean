import Armonios.Process.Named
import Armonios.Ipc.Queue

/-!
# Messages and the end of processes

The system calls of `kernel/syscall.c` on messages, in the machine. `MailState` is what the rest of the
kernel keeps, with the queue of `kernel/ipc.c` taken out of it; nothing else in the kernel uses the queue.

`sys_ipc_send` does not look its target up, and `process_mark_exited` destroys the windows of a process but
leaves its messages where they are. `machineRun_mail` says when no slot is lost by that.
-/

namespace Armonios

def sysIpcSendNr : UInt64 := 60
def sysIpcRecvNr : UInt64 := 61

structure MailState (β : Type) where
  ipc : Ipc
  others : β

abbrev MailKernel (β : Type) := Kernel (MailState β)

/-- The rest of the kernel, the messages apart. -/
structure MailEnv (β : Type) where
  bootfsFind : Path → Option (List UInt8)
  returnAddress : UInt64
  byte : Nat → UInt8
  destroyWindows : Nat → β → β
  poll : MailKernel β → Frame → β
  irqWork : MailKernel β → UInt32 → β
  /-- The system calls on files, windows and information. -/
  call : MailKernel β → Frame → Option (UInt64 × β)

variable {β : Type} {env env' : MailEnv β} {k : MailKernel β} {m m' m₀ : Machine (MailState β)} {regs : Frame}

namespace MailEnv

variable (env : MailEnv β)

/-- The pid of the caller as the `uint32_t` that it is. -/
def callerPid (k : MailKernel β) : UInt32 :=
  match k.current with
  | none => 0
  | some i => UInt32.ofNat (k.processes i).pid

/-- The value for `x0` and the queue. -/
def sysIpcSend (targetPid buf len : UInt64) (k : MailKernel β) : Int × Ipc :=
  if k.current = none ∨ targetPid = 0 ∨ len = 0 ∨ 2 ^ 32 ≤ targetPid.toNat ∨ ipcMaxMessageSize < len.toNat then
    (errInval, k.rest.ipc)
  else if currentBuf k buf len = false then (errInval, k.rest.ipc)
  else
    let data := if buf = 0 then none else some fun i => env.byte (buf.toNat + i)
    let (status, ipc) := ipcSend (callerPid k) targetPid.toUInt32 data len.toUInt32 k.rest.ipc
    if status ≠ 0 then (errAgain, ipc) else (len.toNat, ipc)

/-- The value for `x0` and the queue; the bytes go to the memory of the caller. -/
def sysIpcRecv (buf capacity : UInt64) (k : MailKernel β) : Int × Ipc :=
  if k.current = none ∨ capacity.toNat ≠ ipcMaxMessageSize then (errInval, k.rest.ipc)
  else if currentBuf k buf capacity = false then (errInval, k.rest.ipc)
  else
    match ipcRecv (callerPid k) (some ipcClearSlot.message) k.rest.ipc with
    | (0, some message, ipc) =>
      if capacity.toNat < message.size.toNat then (errInval, ipc) else (message.size.toNat, ipc)
    | (_, _, ipc) => (errAgain, ipc)

/-- The environment of the process and trap code. -/
def toEnv : Env (MailState β) where
  destroyWindows pid s := { s with others := env.destroyWindows pid s.others }
  bootfsFind := env.bootfsFind
  byte := env.byte
  poll k frame := { k.rest with others := env.poll k frame }
  irqWork k irq := { k.rest with others := env.irqWork k irq }
  returnAddress := env.returnAddress
  other k frame :=
    if frame.arg 8 = sysIpcSendNr then
      let (value, ipc) := env.sysIpcSend (frame.arg 0) (frame.arg 1) (frame.arg 2) k
      some (toWord value, { k.rest with ipc })
    else if frame.arg 8 = sysIpcRecvNr then
      let (value, ipc) := sysIpcRecv (frame.arg 0) (frame.arg 1) k
      some (toWord value, { k.rest with ipc })
    else (env.call k frame).map fun (x0, others) => (x0, { k.rest with others })

/-- The same kernel; what it works on may be different. -/
structure Sibling (env env' : MailEnv β) : Prop where
  bootfs : env'.bootfsFind = env.bootfsFind
  returnAddress : env'.returnAddress = env.returnAddress

end MailEnv

theorem MailEnv.Sibling.toEnv (h : env.Sibling env') : env.toEnv.Sibling env'.toEnv := ⟨h.bootfs, h.returnAddress⟩

/-! ## Targets -/

/-- The pids to which the queued messages are addressed. -/
def ipcTargets (s : Ipc) : Set UInt32 :=
  { pid | ∃ i, (s.slots i).used = true ∧ (s.slots i).message.targetPid = pid }

def mailTargets (s : MailState β) : Set UInt32 := ipcTargets s.ipc

theorem ipcTargets_init : ipcTargets ipcInit = ∅ := by
  ext pid
  simp [ipcTargets, ipcInit, ipcClearSlot]

/-- A send that fills a slot adds its target. -/
theorem ipcSend_targets {senderPid targetPid size : UInt32} {data : Option (Nat → UInt8)} {s : Ipc} {pid : UInt32}
    (h : pid ∈ ipcTargets (ipcSend senderPid targetPid data size s).2) :
    pid ∈ ipcTargets s ∨ pid = targetPid ∧ ∃ i, (s.slots i).used = false := by
  unfold ipcSend at h
  split at h
  · exact .inl h
  split at h
  · exact .inl h
  split at h
  · exact .inl h
  · rename_i i hfree
    obtain ⟨j, hused, rfl⟩ := h
    by_cases hj : j = i
    · subst hj
      refine .inr ⟨by simp, j, ?_⟩
      unfold ipcFindFreeSlot at hfree
      simpa using List.find?_some hfree
    · refine .inl ⟨j, ?_, ?_⟩
      · simpa [hj] using hused
      · simp [hj]

theorem ipcRecv_targets (targetPid : UInt32) (message : Option IpcMessage) (s : Ipc) :
    ipcTargets (ipcRecv targetPid message s).2.2 ⊆ ipcTargets s := by
  unfold ipcRecv
  split
  · exact subset_rfl
  split
  · exact subset_rfl
  · rename_i i _
    rintro pid ⟨j, hused, rfl⟩
    by_cases hj : j = i
    · simp [hj, ipcClearSlot] at hused
    · refine ⟨j, ?_, ?_⟩
      · simpa [hj] using hused
      · simp [hj]

/-- The call queues a message: its arguments pass the checks and there is a free slot. -/
def QueuesMessage (k : MailKernel β) (regs : Frame) : Prop :=
  regs.arg 8 = sysIpcSendNr ∧ (regs.arg 2).toNat ≤ ipcMaxMessageSize ∧ (regs.arg 0).toNat < 2 ^ 32 ∧
    currentBuf k (regs.arg 1) (regs.arg 2) = true ∧ ∃ i, (k.rest.ipc.slots i).used = false

/-- Apart from these calls, nothing touches the queue. -/
theorem MailEnv.unasked (env : MailEnv β) : Unasked env.toEnv (NoNewNames mailTargets) :=
  ⟨fun _ _ => subset_rfl, fun _ _ => subset_rfl, fun _ _ => subset_rfl⟩

theorem sysIpcSend_targets {targetPid buf len : UInt64} {pid : UInt32}
    (h : pid ∈ ipcTargets (env.sysIpcSend targetPid buf len k).2) :
    pid ∈ ipcTargets k.rest.ipc ∨ pid = targetPid.toUInt32 ∧ len.toNat ≤ ipcMaxMessageSize ∧
      targetPid.toNat < 2 ^ 32 ∧ currentBuf k buf len = true ∧ ∃ i, (k.rest.ipc.slots i).used = false := by
  unfold MailEnv.sysIpcSend at h
  split at h
  · exact .inl h
  split at h
  · exact .inl h
  rename_i hargs hbuf
  simp only [not_or, not_le, not_lt] at hargs
  obtain ⟨-, -, -, htarget, hlen⟩ := hargs
  have hpid : pid ∈ ipcTargets (ipcSend (MailEnv.callerPid k) targetPid.toUInt32
      (if buf = 0 then none else some fun i => env.byte (buf.toNat + i)) len.toUInt32 k.rest.ipc).2 := by
    generalize (if buf = 0 then none else some fun i => env.byte (buf.toNat + i)) = data at h ⊢
    dsimp only at h
    split at h <;> exact h
  rcases ipcSend_targets hpid with hold | ⟨rfl, hfree⟩
  · exact .inl hold
  · exact .inr ⟨rfl, hlen, htarget, by simpa using hbuf, hfree⟩

theorem sysIpcRecv_targets {buf capacity : UInt64} :
    ipcTargets (MailEnv.sysIpcRecv buf capacity k).2 ⊆ ipcTargets k.rest.ipc := by
  unfold MailEnv.sysIpcRecv
  split
  · exact subset_rfl
  split
  · exact subset_rfl
  have hsub := ipcRecv_targets (MailEnv.callerPid k) (some ipcClearSlot.message) k.rest.ipc
  split <;> rename_i heq <;> rw [heq] at hsub
  · split <;> exact hsub
  · exact hsub

theorem other_targets {x0 : UInt64} {s : MailState β} (h : env.toEnv.other k regs = some (x0, s)) {pid : UInt32}
    (hpid : pid ∈ mailTargets s) :
    pid ∈ mailTargets k.rest ∨ pid = (regs.arg 0).toUInt32 ∧ QueuesMessage k regs := by
  simp only [MailEnv.toEnv] at h
  split at h
  · rename_i hnr
    cases h
    rcases sysIpcSend_targets hpid with hold | ⟨hpid, hlen, htarget, hbuf, hfree⟩
    · exact .inl hold
    · exact .inr ⟨hpid, hnr, hlen, htarget, hbuf, hfree⟩
  split at h
  · cases h
    exact .inl (sysIpcRecv_targets hpid)
  · obtain ⟨⟨x, others⟩, -, heq⟩ := Option.map_eq_some_iff.mp h
    cases heq
    exact .inl hpid

/-! ## Runs -/

/-- The process that the step ends has no message waiting, and a message that the step queues is for a
process that is there and has not ended. -/
structure Deliverable (m : Machine (MailState β)) (e : Event) : Prop where
  ends : ∀ pid ∈ endedPid m e, UInt32.ofNat pid ∉ mailTargets m.kernel.rest
  sends : ∀ regs, e = .svc → m.cpu = .user regs → QueuesMessage m.kernel regs →
    Alive m.kernel (regs.arg 0).toUInt32

/-- One step with an event that satisfies `cond`. -/
def mailStep (env : MailEnv β) (cond : Machine (MailState β) → Event → Prop) (m m' : Machine (MailState β)) : Prop :=
  ∃ env' e, env.Sibling env' ∧ cond m e ∧ m.next env'.toEnv e = some m'

theorem mailRun_steps {es : List Event} (h : m.run env.toEnv es = some m') :
    Run (mailStep env fun _ _ => True) m m' := by
  induction es generalizing m with
  | nil =>
    cases h
    exact .refl
  | cons e es ih =>
    obtain ⟨m₁, hnext, hrest⟩ := Option.bind_eq_some_iff.mp h
    exact .head ⟨env, e, ⟨rfl, rfl⟩, trivial, hnext⟩ (ih hrest)

theorem mailRun_machine {cond : Machine (MailState β) → Event → Prop} (h : Run (mailStep env cond) m m') :
    Run (machineStep env.toEnv AnyEvent) m m' := by
  induction h with
  | refl => exact .refl
  | tail _ hst ih =>
    obtain ⟨env', e, hsib, -, hnext⟩ := hst
    exact ih.tail ⟨env'.toEnv, e, hsib.toEnv, trivial, hnext⟩

/-- The current process and its buffers are the same when the call is looked at. -/
theorem queuesMessage_polled (h : QueuesMessage (polled env.toEnv regs k) regs) : QueuesMessage k regs := by
  obtain ⟨hnr, hlen, htarget, hbuf, hfree⟩ := h
  have hipc : (polled env.toEnv regs k).rest.ipc = k.rest.ipc := by
    rw [polled_rest]
    rfl
  refine ⟨hnr, hlen, htarget, ?_, hipc ▸ hfree⟩
  unfold currentBuf polled withCurrent at hbuf
  unfold currentBuf
  cases hcur : k.current with
  | none => simp [hcur] at hbuf
  | some i =>
    simpa [hcur, Kernel.setProcess, userBufRange, processUserRangeContains, processSaveContext] using hbuf

theorem next_mail {e : Event} (hplaced : Placed m) (hroster : RosterOk m.kernel.roster) (hcond : Deliverable m e)
    (h : NamesOk mailTargets m.kernel m.kernel) (hstep : m.next env.toEnv e = some m') :
    NamesOk mailTargets m.kernel m'.kernel := by
  refine next_namesOk hplaced hroster env.unasked ?_ ?_ h hstep
  · intro pid hpid s hs hnamed
    exact hcond.ends pid hpid (hs hnamed)
  · intro regs x0 s he hcpu hother pid hpid
    rcases other_targets hother hpid with hold | ⟨rfl, hqueues⟩
    · rw [polled_rest] at hold
      exact .inl hold
    · exact .inr (hcond.sends regs he hcpu (queuesMessage_polled hqueues))

theorem mailRun_namesOk (hm : Booted m₀) (hcount : m₀.kernel.processCount = 0)
    (hipc : m₀.kernel.rest.ipc = ipcInit) (hrun : Run (mailStep env Deliverable) m₀ m) :
    NamesOk mailTargets m.kernel m.kernel := by
  induction hrun with
  | refl =>
    refine ⟨fun pid hpid => ?_, fun j => ?_⟩
    · rw [mailTargets, hipc, ipcTargets_init] at hpid
      exact hpid.elim
    · rw [hm.unused]
      simp
  | tail hbefore hst ih =>
    obtain ⟨env', e, -, hcond, hnext⟩ := hst
    have hmachine := mailRun_machine hbefore
    exact (next_mail (machineRun_placed hm hmachine) (machineRun_rosterOk hm hcount hmachine) hcond ih hnext).now

/-- The slots in every state of every run in which processes end with no message waiting for them and
messages are sent to processes that are there. -/
theorem machineRun_mail (hm : Booted m₀) (hcount : m₀.kernel.processCount = 0) (hipc : m₀.kernel.rest.ipc = ipcInit)
    (hrun : Run (mailStep env Deliverable) m₀ m) (i : IpcSlotId) (hi : (m.kernel.rest.ipc.slots i).used = true) :
    Alive m.kernel (m.kernel.rest.ipc.slots i).message.targetPid := by
  obtain ⟨j, -, hj⟩ := (mailRun_namesOk hm hcount hipc hrun).holder _ ⟨i, hi, rfl⟩
  exact ⟨j, hj⟩

/-! The sample machine with messages. -/

def sampleMailEnv : MailEnv Unit where
  bootfsFind := sampleEnv.bootfsFind
  returnAddress := sampleEnv.returnAddress
  byte := sampleFileEnv.byte
  destroyWindows _ _ := ()
  poll _ _ := ()
  irqWork _ _ := ()
  call _ _ := none

def sampleMailMachine : Machine (MailState Unit) where
  kernel := { sampleMachine.kernel with rest := ⟨ipcInit, ()⟩ }
  cpu := .kernel
  irqOn := true
  panel := firstSlot
  kernelPageTable := 0
  owed _ := none

theorem sampleMail_booted : Booted sampleMailMachine := ⟨rfl, rfl, fun _ => rfl⟩

/-- The registers of a process that sends the first byte of its image to `target`. -/
def sampleSend (target : UInt64) : Event :=
  .run ⟨setReg 0 target (setReg 1 0x400000 (setReg 2 1 (setReg 8 sysIpcSendNr sampleRegs))), 0x400100, spsrEl0t,
    0x801000⟩

/-- The panel spawns the shell and sends it a message. -/
def sampleMailEvents : List Event := sampleShell ++ [sampleSend 2, .svc]

/-- Whether the event ends no process, and sends only to processes that are there. -/
def sends (m : Machine (MailState β)) (e : Event) : Bool :=
  (endedPid m e).isNone && match m.cpu with
    | .user regs => regs.arg 8 != sysIpcSendNr || slots.any fun i =>
      (m.kernel.processes i).state != .unused && (m.kernel.processes i).state != .zombie &&
        UInt32.ofNat (m.kernel.processes i).pid == (regs.arg 0).toUInt32
    | _ => true

theorem deliverable_of_sends {e : Event} (h : sends m e = true) : Deliverable m e := by
  rw [sends, Bool.and_eq_true, Option.isNone_iff_eq_none] at h
  obtain ⟨hends, hsends⟩ := h
  refine ⟨fun pid hpid => ?_, fun regs _ hcpu hqueues => ?_⟩
  · rw [hends] at hpid
    cases hpid
  · rw [hcpu] at hsends
    simpa [hqueues.1, slots, Alive, Holds, Living, and_assoc] using hsends

/-- The events one after the other, each with a check of the state before it. -/
def checkedRun (env : MailEnv β) (m : Machine (MailState β)) : List Event → Option (Machine (MailState β))
  | [] => some m
  | e :: es => if sends m e then (m.next env.toEnv e).bind fun m => checkedRun env m es else none

theorem checkedRun_steps {es : List Event} (h : checkedRun env m es = some m') :
    Run (mailStep env Deliverable) m m' := by
  induction es generalizing m with
  | nil =>
    cases h
    exact .refl
  | cons e es ih =>
    rw [checkedRun] at h
    split at h
    · rename_i hsends
      obtain ⟨m₁, hnext, hrest⟩ := Option.bind_eq_some_iff.mp h
      exact .head ⟨env, e, ⟨rfl, rfl⟩, deliverable_of_sends hsends, hnext⟩ (ih hrest)
    · cases h

theorem machineRun_mail_sample : ∃ m, Run (mailStep sampleMailEnv Deliverable) sampleMailMachine m ∧
    (m.kernel.rest.ipc.slots 0).used = true ∧ Alive m.kernel 2 := by
  have h : (checkedRun sampleMailEnv sampleMailMachine sampleMailEvents).map (fun m =>
      ((m.kernel.rest.ipc.slots 0).used, (m.kernel.rest.ipc.slots 0).message.targetPid)) = some (true, 2) := by
    decide +kernel
  obtain ⟨m, hm, hf⟩ := Option.map_eq_some_iff.mp h
  obtain ⟨hused, htarget⟩ := Prod.mk.inj hf
  have hrun := checkedRun_steps hm
  have halive := machineRun_mail sampleMail_booted rfl rfl hrun 0 hused
  rw [htarget] at halive
  exact ⟨m, hrun, hused, halive⟩

/-- The panel kills the shell, for which a message is queued. -/
theorem message_outlives_target : ∃ m, Run (mailStep sampleMailEnv fun _ _ => True) sampleMailMachine m ∧
    (m.kernel.rest.ipc.slots 0).used = true ∧
      ¬ Alive m.kernel (m.kernel.rest.ipc.slots 0).message.targetPid := by
  have h : (sampleMailMachine.run sampleMailEnv.toEnv (sampleMailEvents ++ [sampleCall sysKillNr 2, .svc])).map
      (fun m => ((m.kernel.rest.ipc.slots 0).used, (m.kernel.rest.ipc.slots 0).message.targetPid,
        slots.all fun i => UInt32.ofNat (m.kernel.processes i).pid ≠ 2 ∨ (m.kernel.processes i).state = .zombie)) =
      some (true, 2, true) := by
    decide +kernel
  obtain ⟨m, hm, hf⟩ := Option.map_eq_some_iff.mp h
  simp only [Prod.mk.injEq] at hf
  obtain ⟨hused, htarget, hall⟩ := hf
  refine ⟨m, ?_, hused, ?_⟩
  · exact mailRun_steps hm
  · rw [htarget]
    rintro ⟨i, hliving, hpid⟩
    have hi := List.all_eq_true.mp hall i (List.mem_finRange i)
    rcases of_decide_eq_true hi with hne | hz
    · exact hne hpid
    · exact hliving.2 hz

end Armonios
