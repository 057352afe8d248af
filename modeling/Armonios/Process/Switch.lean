import Armonios.Process.Keep

/-!
# What a trap does to the contexts

One lemma for each way into the kernel: after it the process that was running goes on, or another one
goes on with its saved context, or the last process has ended (`TrapOutcome`), and the processes that
are ready have the contexts they had (`ReadyAfter`). The context is saved when a trap is taken, for a
system call once more at its end.
-/

namespace Armonios

variable {ρ : Type} {env : Env ρ} {k k' q q' : Kernel ρ} {m m' : Machine ρ} {i j : SlotId}
  {regs frame lost : Frame} {ends : Prop}

/-! ## The dispatcher -/

theorem slotsAfter_ne (h : j ∈ slotsAfter (some i)) : j ≠ i := by
  unfold slotsAfter at h
  simp only [List.mem_map, List.mem_range] at h
  obtain ⟨offset, ho, rfl⟩ := h
  intro he
  have hval := congrArg Fin.val he
  have hi := i.isLt
  simp only [Fin.ofNat, processMaxProcesses] at hval ho hi
  omega

/-- How far `process_next_runnable` looks from the slot `i` to get to `j`. -/
def slotDistance (i j : SlotId) : Nat := (j.val + processMaxProcesses - i.val) % processMaxProcesses

/-- The slot that is looked at after `offset` others. -/
theorem slotDistance_offset {offset : Nat} (h : offset < processMaxProcesses - 1) :
    slotDistance i (Fin.ofNat processMaxProcesses (i.val + 1 + offset)) = offset + 1 := by
  have hi := i.isLt
  unfold slotDistance
  simp only [Fin.ofNat, processMaxProcesses] at h hi ⊢
  omega

theorem slotDistance_pos (h : j ≠ i) : 0 < slotDistance i j ∧ slotDistance i j < processMaxProcesses := by
  have hval : j.val ≠ i.val := fun he => h (Fin.ext he)
  have hi := i.isLt
  have hj := j.isLt
  unfold slotDistance
  simp only [processMaxProcesses] at hi hj ⊢
  omega

theorem slotDistance_surj (h : j ≠ i) :
    Fin.ofNat processMaxProcesses (i.val + 1 + (slotDistance i j - 1)) = j := by
  have hval : j.val ≠ i.val := fun he => h (Fin.ext he)
  have hi := i.isLt
  have hj := j.isLt
  refine Fin.ext ?_
  unfold slotDistance
  simp only [Fin.ofNat, processMaxProcesses] at hi hj ⊢
  omega

theorem mem_slotsAfter (h : j ≠ i) : j ∈ slotsAfter (some i) := by
  obtain ⟨hpos, hlt⟩ := slotDistance_pos h
  refine List.mem_map.mpr ⟨slotDistance i j - 1, List.mem_range.mpr (by omega), slotDistance_surj h⟩

/-- The process that is found is the first ready one. -/
theorem nextRunnable_first (h : processNextRunnable (some i) k = some j) {l : SlotId} (hl : l ≠ i)
    (hready : (k.processes l).state = .ready) : slotDistance i j ≤ slotDistance i l := by
  unfold processNextRunnable slotsAfter at h
  rw [List.find?_map, Option.map_eq_some_iff] at h
  obtain ⟨offset, hfind, rfl⟩ := h
  rw [List.find?_range_eq_some] at hfind
  obtain ⟨-, hmem, hbefore⟩ := hfind
  rw [slotDistance_offset (List.mem_range.mp hmem)]
  by_contra hlt
  obtain ⟨hpos, -⟩ := slotDistance_pos hl
  have hno := hbefore (slotDistance i l - 1) (by omega)
  rw [Function.comp_apply, slotDistance_surj hl, hready] at hno
  cases hno

/-- The dispatcher took the CPU from the process in `i` and gave it to the one in `j`. -/
structure Dispatched (policy : DispatchPolicy) (i j : SlotId) (k : Kernel ρ) (frame : Frame) (k' : Kernel ρ) :
    Prop where
  ready : (k.processes j).state = .ready
  other : j ≠ i
  first : ∀ l, l ≠ i → (k.processes l).state = .ready → slotDistance i j ≤ slotDistance i l
  frame : frame = processLoadContext (k.processes j)
  current : k'.current = some j
  running : (k'.processes j).state = .running
  old : k'.processes i = if policy = .preempt ∧ (k.processes i).state = .running then
    { k.processes i with state := .ready } else k.processes i
  keep : ∀ l, l ≠ i → l ≠ j → k'.processes l = k.processes l

theorem dispatchNext_spec {policy : DispatchPolicy}
    (h : processDispatchNext (some i) policy k = some (frame, k')) :
    ∃ j, Dispatched policy i j k frame k' := by
  unfold processDispatchNext at h
  rw [if_neg (by simp)] at h
  split at h
  · cases h
  rename_i j hj
  have hne : j ≠ i := slotsAfter_ne (List.mem_of_find?_eq_some hj)
  have hready : (k.processes j).state = .ready := by simpa using List.find?_some hj
  have hsame : ∀ l, l ≠ i → (if policy = .preempt ∧ (k.processes i).state = .running then
      k.setProcess i { k.processes i with state := .ready } else k).processes l = k.processes l := by
    intro l hl
    split
    · exact Function.update_of_ne hl _ _
    · rfl
  simp only [switchTo, Option.some.injEq, Prod.mk.injEq] at h
  obtain ⟨rfl, rfl⟩ := h
  refine ⟨j, hready, hne, fun l hl hlr => nextRunnable_first hj hl hlr, ?_, rfl, ?_, ?_, fun l hl hlj => ?_⟩
  · rw [hsame j hne]
    rfl
  · simp [Kernel.setProcess]
  · show Function.update _ j _ i = _
    rw [Function.update_of_ne hne.symm]
    split
    · exact Function.update_self _ _ _
    · rfl
  · show Function.update _ j _ l = _
    rw [Function.update_of_ne hlj]
    exact hsame l hl

/-! ## Traps -/

/-- The process in `i` is running with the saved context `ctx`; the others are as in `k`. -/
structure Saved (k : Kernel ρ) (i : SlotId) (ctx : Frame) (q : Kernel ρ) : Prop where
  current : q.current = some i
  running : (q.processes i).state = .running
  ctx : processLoadContext (q.processes i) = ctx
  keep : ∀ j, j ≠ i → q.processes j = k.processes j

/-- What a trap at EL0 does, taken while the process in `i` runs: it goes on with the frame `back`, or
another process goes on with its saved context, or, where the trap `ends` the process, it was the last. -/
inductive TrapOutcome (env : Env ρ) (k : Kernel ρ) (i : SlotId) (back : Frame → Prop) (ends : Prop)
    (frame : Frame) (k' : Kernel ρ) : Prop
  | back (current : k'.current = some i) (running : (k'.processes i).state = .running) (frame : back frame)
  | switched (j : SlotId) (other : j ≠ i) (ready : (k.processes j).state = .ready)
      (first : ∀ l, l ≠ i → (k.processes l).state = .ready → slotDistance i j ≤ slotDistance i l)
      (frame : frame = processLoadContext (k.processes j)) (current : k'.current = some j)
      (running : (k'.processes j).state = .running)
  | ended (ends : ends) (current : k'.current = some i) (zombie : (k'.processes i).state = .zombie)
      (idle : ∀ j, (k'.processes j).state ≠ .ready) (elr : frame.elr = env.returnAddress) (spsr : frame.spsr = spsrEl1h)

/-- The processes that are ready after a trap: they have the context they had, or were started in the
trap, or lost the CPU in it. -/
def ReadyAfter (k : Kernel ρ) (i : SlotId) (lost : Frame) (k' : Kernel ρ) : Prop :=
  ∀ j, (k'.processes j).state = .ready → SameCtx (k.processes j) (k'.processes j) ∨
    (spawned k k' j = true ∧ isEl0t (k'.processes j).pstate = true) ∨
    (j = i ∧ processLoadContext (k'.processes j) = lost ∧ k'.current ≠ some i)

structure TrapOk (env : Env ρ) (k : Kernel ρ) (i : SlotId) (back : Frame → Prop) (ends : Prop)
    (lost frame : Frame) (k' : Kernel ρ) : Prop where
  outcome : TrapOutcome env k i back ends frame k'
  ready : ReadyAfter k i lost k'

/-- The dispatcher found a process, in a table that differs from `k` in the slot `i` only. -/
theorem Dispatched.outcome {policy : DispatchPolicy} {back : Frame → Prop} (hj : Dispatched policy i j q frame k')
    (hkeep : ∀ l, l ≠ i → q.processes l = k.processes l) : TrapOutcome env k i back ends frame k' := by
  have hk := hkeep j hj.other
  refine .switched j hj.other (by rw [← hk]; exact hj.ready) (fun l hl hlr => ?_) (by rw [← hk]; exact hj.frame)
    hj.current hj.running
  rw [← hkeep l hl] at hlr
  exact hj.first l hl hlr

/-- No process is ready when the dispatcher finds none. -/
theorem dispatchNext_none {policy : DispatchPolicy} (h : processDispatchNext (some i) policy k = none)
    (hi : (k.processes i).state ≠ .ready) : (k.processes j).state ≠ .ready := by
  unfold processDispatchNext at h
  rw [if_neg (by simp)] at h
  split at h
  · rename_i hnone
    unfold processNextRunnable at hnone
    rw [List.find?_eq_none] at hnone
    by_cases hji : j = i
    · rw [hji]
      exact hi
    · simpa using hnone j (mem_slotsAfter hji)
  · cases h

/-- The running process is preempted. -/
theorem Saved.preempt {back : Frame → Prop} (h : Saved k i lost q)
    (hd : processDispatchNext (some i) .preempt q = some (frame, k')) : TrapOk env k i back ends lost frame k' := by
  obtain ⟨j, hj⟩ := dispatchNext_spec hd
  refine ⟨hj.outcome h.keep, fun l hl => ?_⟩
  by_cases hli : l = i
  · subst hli
    refine .inr (.inr ⟨rfl, ?_, by rw [hj.current]; simpa using hj.other⟩)
    rw [hj.old, if_pos ⟨rfl, h.running⟩]
    exact h.ctx
  · by_cases hlj : l = j
    · subst hlj
      rw [hj.running] at hl
      cases hl
    · rw [hj.keep l hli hlj, h.keep l hli]
      exact .inl (.refl _)

/-- The running process goes on. -/
theorem Saved.back {ctx : Frame} {back : Frame → Prop} (h : Saved k i ctx q) (hframe : back frame) :
    TrapOk env k i back ends lost frame q := by
  refine ⟨.back h.current h.running hframe, fun l hl => ?_⟩
  have hli : l ≠ i := by
    rintro rfl
    rw [h.running] at hl
    cases hl
  rw [h.keep l hli]
  exact .inl (.refl _)

/-- The running process ends. -/
theorem Saved.endCurrent {ctx : Frame} {back : Frame → Prop} (h : Saved k i ctx q) (hends : ends)
    (code : UInt64) : TrapOk env k i back ends lost (endCurrent env code regs q).1
      (endCurrent env code regs q).2 := by
  have hmark : ∀ l, (processMarkExited env i code q).processes l =
      if l = i then { q.processes i with exitCode := code, state := .zombie } else q.processes l := by
    intro l
    unfold processMarkExited
    dsimp only
    rw [if_neg (by rw [h.running]; simp)]
    by_cases hl : l = i
    · subst hl
      simp [Kernel.setProcess]
    · simp [Kernel.setProcess, hl]
  have hcur : (processMarkExited env i code q).current = some i := by
    unfold processMarkExited
    dsimp only
    rw [if_neg (by rw [h.running]; simp)]
    exact h.current
  unfold Armonios.endCurrent
  simp only [h.current]
  cases hd : processDispatchNext (some i) .exit (processMarkExited env i code q) with
  | none =>
    have hz : ((processMarkExited env i code q).processes i).state = .zombie := by rw [hmark, if_pos rfl]
    have hidle : ∀ l, ((processMarkExited env i code q).processes l).state ≠ .ready :=
      fun l => dispatchNext_none hd (by rw [hz]; simp)
    refine ⟨.ended hends hcur hz hidle rfl rfl, fun l hl => ?_⟩
    rw [hmark] at hl ⊢
    by_cases hli : l = i
    · rw [if_pos hli] at hl
      cases hl
    · rw [if_neg hli, h.keep l hli]
      exact .inl (.refl _)
  | some r =>
    obtain ⟨frame, k'⟩ := r
    obtain ⟨j, hj⟩ := dispatchNext_spec hd
    refine ⟨hj.outcome fun l hl => by rw [hmark, if_neg hl, h.keep l hl], fun l hl => ?_⟩
    by_cases hli : l = i
    · rw [hli, hj.old, if_neg (by simp), hmark, if_pos rfl] at hl
      cases hl
    · by_cases hlj : l = j
      · rw [hlj, hj.running] at hl
        cases hl
      · rw [hj.keep l hli hlj, hmark, if_neg hli, h.keep l hli]
        exact .inl (.refl _)

/-- A change of the process that is current, which is not ready, does not matter. -/
theorem TrapOk.withCurrent {back : Frame → Prop} {f : Process → Process} (h : TrapOk env k i back ends lost frame k')
    (hf : ∀ p, (f p).state = p.state) : TrapOk env k i back ends lost frame (withCurrent f k') := by
  obtain ⟨c, hc, hready⟩ : ∃ c, k'.current = some c ∧ (k'.processes c).state ≠ .ready := by
    rcases h.outcome with ⟨hc, hs, -⟩ | ⟨j, -, -, -, -, hc, hs⟩ | ⟨-, hc, hs, -, -, -⟩ <;>
      exact ⟨_, hc, by rw [hs]; simp⟩
  have heq : Armonios.withCurrent f k' = k'.setProcess c (f (k'.processes c)) := by
    unfold Armonios.withCurrent
    rw [hc]
  have hstate : ∀ l, ((k'.setProcess c (f (k'.processes c))).processes l).state = (k'.processes l).state := by
    intro l
    by_cases hl : l = c
    · subst hl
      simp [Kernel.setProcess, hf]
    · simp [Kernel.setProcess, hl]
  have hsame : ∀ l, l ≠ c → (k'.setProcess c (f (k'.processes c))).processes l = k'.processes l :=
    fun l hl => Function.update_of_ne hl _ _
  rw [heq]
  refine ⟨?_, fun l hl => ?_⟩
  · rcases h.outcome with ⟨h1, h2, h3⟩ | ⟨j, h1, h2, hfirst, h3, h4, h5⟩ | ⟨h0, h1, h2, hidle, h3, h4⟩
    · exact .back h1 (by rw [hstate]; exact h2) h3
    · exact .switched j h1 h2 hfirst h3 h4 (by rw [hstate]; exact h5)
    · exact .ended h0 h1 (by rw [hstate]; exact h2) (fun l => by rw [hstate]; exact hidle l) h3 h4
  · rw [hstate] at hl
    have hlc : l ≠ c := by
      rintro rfl
      exact hready hl
    have hspawned : spawned k (k'.setProcess c (f (k'.processes c))) l = spawned k k' l := by
      unfold spawned
      rw [hstate]
    rw [hsame l hlc, hspawned]
    exact h.ready l hl

/-! ## System calls -/

/-- Saving a context for the running process. -/
theorem saved_withCurrent {f : Process → Process} {ctx ctx' : Frame} (h : Saved k i ctx q)
    (hstate : ∀ p, (f p).state = p.state) (hctx : ∀ p, processLoadContext p = ctx → processLoadContext (f p) = ctx') :
    Saved k i ctx' (withCurrent f q) := by
  unfold withCurrent
  rw [h.current]
  refine ⟨h.current, ?_, ?_, fun j hj => ?_⟩
  · simp [Kernel.setProcess, hstate, h.running]
  · simpa [Kernel.setProcess] using hctx _ h.ctx
  · rw [← h.keep j hj]
    exact Function.update_of_ne hj _ _

/-- The state that a trap at EL0 finds. -/
structure AtUser (k : Kernel ρ) (i : SlotId) : Prop where
  current : k.current = some i
  running : (k.processes i).state = .running

/-- `process_save_context` at the beginning of a trap. -/
theorem AtUser.saved (h : AtUser k i) (regs : Frame) (rest : ρ) :
    Saved k i regs (withCurrent (processSaveContext regs) { k with rest }) := by
  have hk : Saved k i (processLoadContext (k.processes i)) { k with rest } :=
    ⟨h.current, h.running, rfl, fun _ _ => rfl⟩
  exact saved_withCurrent hk (fun _ => rfl) fun _ _ => rfl

theorem spawnResult_calm (hk : ∀ i, k.current = some i → (k.processes i).state = .running) (path : Path)
    (entryIndex argvPtr argc : Nat) : Calm k (spawnResult env path entryIndex argvPtr argc k).2 := by
  have h := appSpawnVfs_calm env path entryIndex argvPtr argc hk
  unfold spawnResult
  unfold Wp at h
  split at h <;> rename_i heq <;> rw [heq]
  · dsimp only
    split <;> exact h
  · exact h

theorem sysWait_calm (pid : UInt64) : Calm k (sysWait pid k).2 := by
  rcases sysWait_leaves pid k with heq | ⟨i, -, hcurrent, hzombie, heq⟩ <;> rw [heq]
  · exact .refl k
  · obtain ⟨hproc, hcur⟩ := processRelease_zombie hzombie
    exact Calm.ended hcurrent (by simp [freeSlot]) (by rw [hcur, if_neg hcurrent]) hproc

theorem sysKill_calm (pid : UInt64) : Calm k (sysKill env pid k).2 := by
  rcases sysKill_leaves env pid k with heq | ⟨i, -, hcurrent, hzombie, heq⟩ <;> rw [heq]
  · exact .refl k
  · unfold processMarkExited
    dsimp only
    rw [if_neg hzombie]
    exact Calm.ended hcurrent (p := { k.processes i with exitCode := _, state := .zombie }) (by simp) rfl rfl

/-- A call of `user_vm.c` for the current process. -/
theorem onCurrent_calm {m : SpaceM Int} (hm : Moves SpaceCtx m) : Calm k (onCurrent m k).2 := by
  unfold onCurrent
  split
  · exact .refl k
  rename_i i hi
  have h : Wp (onSlot i m) k (fun _ k' => k'.current = k.current ∧ (∀ j, j ≠ i → k'.processes j = k.processes j) ∧
      SameCtx (k.processes i) (k'.processes i)) fun _ k' => k'.current = k.current ∧
        (∀ j, j ≠ i → k'.processes j = k.processes j) ∧ SameCtx (k.processes i) (k'.processes i) := by
    have hput : ∀ s, SpaceCtx ⟨k.vm, k.processes i⟩ s →
        SameCtx (k.processes i) (Function.update k.processes i s.process i) := by
      intro s hs
      rw [Function.update_self]
      exact hs
    refine wp_onPart.mpr (Wp.mono (hm _) (fun _ s hs => ?_) fun _ s hs => ?_)
    · exact ⟨rfl, fun j hj => Function.update_of_ne hj _ _, hput s hs⟩
    · exact ⟨rfl, fun j hj => Function.update_of_ne hj _ _, hput s hs⟩
  have hcalm : ∀ k' : Kernel ρ, k'.current = k.current ∧ (∀ j, j ≠ i → k'.processes j = k.processes j) ∧
      SameCtx (k.processes i) (k'.processes i) → Calm k k' := by
    intro k' h
    obtain ⟨hc, hother, hsame⟩ := h
    have hall : ∀ j, SameCtx (k.processes j) (k'.processes j) := by
      intro j
      by_cases hji : j = i
      · rw [hji]
        exact hsame
      · rw [hother j hji]
        exact .refl _
    exact ⟨fun c hc' _ => ⟨by rw [hc, hc'], hall c⟩, fun j _ => .inl (hall j)⟩
  unfold Wp at h
  split at h <;> rename_i heq <;> rw [heq] <;> exact hcalm _ h

/-- The calls that only set `x0`. -/
theorem simpleCall_calm (env : Env ρ) (frame : Frame)
    (hk : ∀ i, k.current = some i → (k.processes i).state = .running) : Calm k (simpleCall env frame k).2 := by
  unfold simpleCall
  dsimp only
  split
  · exact .refl k
  split
  · unfold sysSpawn
    split
    · exact .refl k
    split
    · exact .refl k
    · exact spawnResult_calm hk _ _ _ _
  split
  · unfold sysSpawnArgv
    split
    · exact .refl k
    split
    · exact .refl k
    rename_i path _
    have hif : ∀ ok : Bool, Calm k (if ok then
        spawnResult env path (frame.arg 1).toNat (frame.arg 2).toNat (frame.arg 3).toNat k else (errInval, k)).2 := by
      intro ok
      cases ok with
      | true => exact spawnResult_calm hk _ _ _ _
      | false => exact .refl k
    exact hif _
  split
  · exact sysWait_calm _
  split
  · exact sysKill_calm _
  split
  · exact onCurrent_calm (userVmMapAnonymous_keeps _ _ _)
  split
  · exact onCurrent_calm (userVmUnmapAnonymous_keeps _ _)
  split
  · exact .refl k
  · exact Calm.of_processes rfl rfl

/-- A call that only sets `x0` returns to its caller. -/
theorem Saved.simpleCall {ctx : Frame} {back : Frame → Prop} (h : Saved k i ctx q) (hframe : back frame) :
    TrapOk env k i back ends lost frame (simpleCall env regs q).2 := by
  have hrun : ∀ c, q.current = some c → (q.processes c).state = .running := by
    intro c hc
    rw [h.current] at hc
    cases hc
    exact h.running
  have hcalm := simpleCall_calm env regs hrun
  obtain ⟨hcur, hsame⟩ := hcalm.current i h.current h.running
  refine ⟨.back hcur (hsame.state.trans h.running) hframe, fun l hl => ?_⟩
  have hli : l ≠ i := by
    rintro rfl
    rw [hsame.state, h.running] at hl
    cases hl
  rcases hcalm.ready l hl with hs | ⟨hs, he⟩
  · rw [h.keep l hli] at hs
    exact .inl hs
  · refine .inr (.inl ⟨?_, he⟩)
    unfold spawned at hs ⊢
    rw [h.keep l hli] at hs
    exact hs

theorem AtUser.syscallDispatch (h : AtUser k i) : TrapOk env k i (fun f => ∃ v, f = regs.setX0 v) True
    (lostInSvc regs) (syscallDispatch env regs k).1 (syscallDispatch env regs k).2 := by
  have hsaved := h.saved regs (env.poll k regs)
  unfold Armonios.syscallDispatch
  dsimp only
  refine TrapOk.withCurrent (f := saveReturn _) ?_ fun _ => rfl
  split
  · exact hsaved.endCurrent trivial _
  split
  · rename_i hy
    have hlost : lostInSvc regs = regs.setX0 0 := if_pos hy
    have hyield : Saved k i (lostInSvc regs) (Armonios.withCurrent (fun p => { p with regs := setReg 0 0 p.regs })
        (Armonios.withCurrent (processSaveContext regs) { k with rest := env.poll k regs })) := by
      refine saved_withCurrent hsaved (fun _ => rfl) fun p hp => ?_
      rw [hlost, ← hp]
      rfl
    unfold sysYield
    dsimp only
    rw [hsaved.current]
    split
    · rename_i next hd
      exact hyield.preempt hd
    · exact hyield.back ⟨0, rfl⟩
  · exact hsaved.simpleCall ⟨_, rfl⟩

/-! ## Faults and interrupts -/

theorem AtUser.handleUserFault (h : AtUser k i) (env : Env ρ) (regs : Frame) : TrapOk env k i (fun _ => False) True regs
    (handleUserFault env regs k).1 (handleUserFault env regs k).2 := by
  unfold Armonios.handleUserFault
  exact (h.saved regs k.rest).endCurrent trivial _

theorem AtUser.irqHandlerFrame (h : AtUser k i) (env : Env ρ) (regs : Frame) (irq : Option UInt32) :
    TrapOk env k i (fun f => f = regs) False regs
    (irqHandlerFrame env irq regs k).1 (irqHandlerFrame env irq regs k).2 := by
  have hsaved := h.saved regs k.rest
  unfold Armonios.irqHandlerFrame
  dsimp only
  split
  · exact hsaved.back rfl
  · rename_i n
    have hk : Saved k i regs (Armonios.withCurrent
        (fun p => { p with pc := regs.elr, pstate := regs.spsr, sp := regs.spEl0 })
        { Armonios.withCurrent (processSaveContext regs) k with
          rest := env.irqWork (Armonios.withCurrent (processSaveContext regs) k) n }) := by
      refine saved_withCurrent ⟨hsaved.current, hsaved.running, hsaved.ctx, hsaved.keep⟩ (fun _ => rfl) fun p hp => ?_
      rw [← hp]
      rfl
    rw [hk.current]
    split
    · rename_i next hd
      exact hk.preempt hd
    · exact hk.back rfl

/-! ## The panel -/

/-- The ready processes of `k'` were ready in `k`, with the same contexts. -/
def ReadyKept (k k' : Kernel ρ) : Prop :=
  ∀ j, (k'.processes j).state = .ready → SameCtx (k.processes j) (k'.processes j)

theorem Reclaimed.readyKept (h : Reclaimed k k') : ReadyKept k k' := by
  intro j hj
  rw [h.processes] at hj ⊢
  split at hj
  · cases hj
  · rename_i hz
    rw [if_neg hz]
    exact .refl _

theorem ReadyKept.elsewhere (slot : SlotId) (h : ReadyKept k k') (hslot : (q.processes slot).state ≠ .ready)
    (hother : ∀ j, j ≠ slot → q.processes j = k'.processes j) : ReadyKept k q := by
  intro j hj
  have hjs : j ≠ slot := by
    rintro rfl
    exact hslot hj
  rw [hother j hjs] at hj ⊢
  exact h j hj

theorem Retaken.readyKept (h : Retaken slot k k') (hslot : (k'.processes slot).state ≠ .ready) : ReadyKept k k' := by
  intro j hj
  by_cases hjs : j = slot
  · exact absurd (hjs ▸ hj) hslot
  rw [h.others j hjs] at hj ⊢
  split at hj
  · cases hj
  · rename_i hz
    rw [if_neg hz]
    exact .refl _

/-- `panel_boot_run` up to `user_enter_el0`: the slot it has taken, or given back. -/
theorem panelBootEnter_slot (env : Env ρ) (memoryBase memorySize : Nat) (mapMmio : Option MapMmio)
    (hk : k.current = none) :
    Wp (panelBootEnter env memoryBase memorySize mapMmio) k
      (fun slot k' => AtUser k' slot ∧ isEl0t (k'.processes slot).pstate = true ∧ Retaken slot k k')
      fun _ k' => k'.current = none ∧
        (Reclaimed k k' ∨ ∃ slot, Retaken slot k k' ∧ (k'.processes slot).state = .unused) := by
  have hrec := reclaimZombies_spec k
  have hrunning : ∀ i, k.current = some i → (k.processes i).state = .running := by simp [hk]
  have hcur := hrec.current_eq hrunning
  unfold panelBootEnter
  refine wp_bind.mpr (wp_modify.mpr ?_)
  generalize processReclaimZombies k = k₀ at hrec hcur ⊢
  refine wp_bind.mpr (wp_get.mpr ?_)
  split
  · exact ⟨hcur.trans hk, .inl hrec⟩
  rename_i slot k₁ halloc
  obtain ⟨hslot, hcur₁, hne, -, hother⟩ := hrec.alloc hcur hrunning halloc
  have hne₁ : k₁.current ≠ some slot := by rwa [hcur₁]
  refine wp_bind.mpr (wp_set.mpr (wp_bind.mpr (wp_onPart.mpr ?_)))
  refine Wp.mono (Wp.and (loaderSteps_elsewhere.loadProcess _ _ _ _ _ _) (loadProcess_spec _ _ _ _ _ _)) ?_ ?_
  · intro _ l h
    obtain ⟨helse, hent⟩ := h
    obtain ⟨-, h2⟩ := helse hne₁
    refine wp_bind.mpr (wp_modify.mpr (wp_bind.mpr (wp_modify.mpr (wp_pure.mpr ⟨⟨rfl, ?_⟩, ?_, hslot, ?_⟩))))
    · simp [Kernel.setProcess]
    · have hps : (l.kernel.processes slot).pstate = spsrEl0t := hent.pstate
      have hdec : isEl0t spsrEl0t = true := by decide
      simpa [Kernel.setProcess, hps] using hdec
    · intro j hj
      rw [← hother j hj, ← h2 j hj]
      exact Function.update_of_ne hj _ _
  · intro _ l h
    obtain ⟨helse, hun⟩ := h
    obtain ⟨h1, h2⟩ := helse hne₁
    exact ⟨h1.trans (hcur₁.trans hk), .inr ⟨slot, ⟨hslot, fun j hj => (h2 j hj).trans (hother j hj)⟩, hun⟩⟩

/-- `panel_boot_run` up to `user_enter_el0`. -/
theorem panelBootEnter_spec (env : Env ρ) (memoryBase memorySize : Nat) (mapMmio : Option MapMmio)
    (hk : k.current = none) :
    Wp (panelBootEnter env memoryBase memorySize mapMmio) k
      (fun slot k' => AtUser k' slot ∧ isEl0t (k'.processes slot).pstate = true ∧ ReadyKept k k')
      fun _ k' => k'.current = none ∧ ReadyKept k k' := by
  refine Wp.mono (panelBootEnter_slot env memoryBase memorySize mapMmio hk) ?_ ?_
  · intro slot k' h
    obtain ⟨hat, hps, htaken⟩ := h
    exact ⟨hat, hps, htaken.readyKept (by rw [hat.running]; simp)⟩
  · intro _ k' h
    obtain ⟨hnone, hrec | ⟨slot, htaken, hun⟩⟩ := h
    · exact ⟨hnone, hrec.readyKept⟩
    · exact ⟨hnone, htaken.readyKept (by rw [hun]; simp)⟩

/-- `panel_boot_run` after the last process has ended. -/
theorem panelBootLeave_spec {kernelPageTable : Nat} {panel : SlotId} (hk : k.current = some i)
    (hz : (k.processes i).state = .zombie) :
    (panelBootLeave kernelPageTable panel k).current = none ∧
      ReadyKept k (panelBootLeave kernelPageTable panel k) := by
  have hrec := reclaimZombies_spec { k with ttbr0 := if kernelPageTable ≠ 0 then kernelPageTable else k.ttbr0 }
  unfold panelBootLeave
  dsimp only
  generalize processReclaimZombies { k with
    ttbr0 := if kernelPageTable ≠ 0 then kernelPageTable else k.ttbr0 } = k₀ at hrec ⊢
  have hcur : k₀.current = none := by
    rw [hrec.current]
    simp [hk, hz, Option.filter]
  obtain ⟨h1, h2⟩ := processRelease_elsewhere panel k₀ (by rw [hcur]; simp)
  refine ⟨h1.trans hcur, ReadyKept.elsewhere panel hrec.readyKept ?_ h2⟩
  rw [processRelease_unused]
  simp

end Armonios
