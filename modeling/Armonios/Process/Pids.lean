import Armonios.Process.Named

/-!
# Pids

`g_next_spawn_pid` is a `uint32_t` that wraps; a process has the pid that it was when the process was spawned, or that of
the panel.

* `machineRun_pids`: every pid is a `uint32_t`;
* `Holds.unique`: so no two processes have the same one.
-/

namespace Armonios

variable {ρ : Type} {env : Env ρ} {k k' q : Kernel ρ} {m m' m₀ : Machine ρ} {i j slot : SlotId} {regs frame : Frame}

structure PidsFit (k : Kernel ρ) : Prop where
  next : k.nextSpawnPid < 2 ^ 32
  pids : ∀ i, (k.processes i).pid < 2 ^ 32

/-- No process has got another pid than the one that it had; a slot may have been released. -/
structure PidsKept (k k' : Kernel ρ) : Prop where
  next : k'.nextSpawnPid = k.nextSpawnPid
  pids : ∀ i, (k'.processes i).pid = (k.processes i).pid ∨ (k'.processes i).pid = 0

def KeepsFit (k k' : Kernel ρ) : Prop := PidsFit k → PidsFit k'

instance : Std.Refl (PidsKept : Kernel ρ → Kernel ρ → Prop) := ⟨fun _ => ⟨rfl, fun _ => .inl rfl⟩⟩

instance : IsTrans (Kernel ρ) PidsKept := by
  refine ⟨fun k k₁ k₂ h h' => ⟨h'.next.trans h.next, fun i => ?_⟩⟩
  rcases h'.pids i with hsame | hzero
  · rw [hsame]
    exact h.pids i
  · exact .inr hzero

instance : Std.Refl (KeepsFit : Kernel ρ → Kernel ρ → Prop) := ⟨fun _ h => h⟩

instance : IsTrans (Kernel ρ) KeepsFit := ⟨fun _ _ _ h h' hk => h' (h hk)⟩

theorem PidsKept.refl (k : Kernel ρ) : PidsKept k k := Std.Refl.refl k

theorem PidsKept.trans (h : PidsKept k q) (h' : PidsKept q k') : PidsKept k k' := IsTrans.trans k q k' h h'

theorem PidsKept.fit (h : PidsKept k k') : KeepsFit k k' := by
  refine fun hk => ⟨h.next.trans_lt hk.next, fun i => ?_⟩
  rcases h.pids i with hsame | hzero
  · exact hsame.trans_lt (hk.pids i)
  · rw [hzero]
    decide

theorem PidsKept.same (hnext : k'.nextSpawnPid = k.nextSpawnPid) (h : ∀ i, (k'.processes i).pid = (k.processes i).pid) :
    PidsKept k k' := ⟨hnext, fun i => .inl (h i)⟩

theorem PidsKept.of_roster (hnext : k'.nextSpawnPid = k.nextSpawnPid) (h : k'.roster = k.roster) : PidsKept k k' :=
  .same hnext fun i => congrFun (congrArg Roster.pid h) i

theorem PidsKept.setProcess {p : Process} (hp : p.pid = (k.processes i).pid) : PidsKept k (k.setProcess i p) :=
  .same rfl (setProcess_pid hp)

/-! ## The table functions -/

theorem processRelease_pids (i : SlotId) (k : Kernel ρ) : PidsKept k (processRelease i k) := by
  unfold processRelease
  dsimp only
  split
  · exact .refl k
  · refine ⟨rfl, fun j => ?_⟩
    dsimp only
    by_cases hji : j = i
    · subst hji
      rw [Function.update_self]
      exact .inr rfl
    · rw [Function.update_of_ne hji]
      exact .inl rfl

theorem reclaimZombies_pids (k : Kernel ρ) : PidsKept k (processReclaimZombies k) := by
  unfold processReclaimZombies
  generalize slots = l
  induction l generalizing k with
  | nil => exact .refl k
  | cons i l ih =>
    rw [List.foldl_cons]
    refine PidsKept.trans ?_ (ih _)
    split
    · exact processRelease_pids i k
    · exact .refl k

theorem processAlloc_fit {pid : Nat} {name : Path} (hpid : pid < 2 ^ 32)
    (h : processAlloc pid name k = some (slot, k')) : KeepsFit k k' := by
  unfold processAlloc at h
  split at h
  · cases h
  split at h
  · cases h
  rename_i i _
  cases h
  refine fun hk => ⟨hk.next, fun j => ?_⟩
  unfold Kernel.setProcess
  dsimp only
  by_cases hj : j = slot
  · subst hj
    rw [Function.update_self]
    exact hpid
  · rw [Function.update_of_ne hj]
    exact hk.pids j

theorem processMarkExited_pids (env : Env ρ) (i : SlotId) (code : UInt64) (k : Kernel ρ) :
    PidsKept k (processMarkExited env i code k) := by
  unfold processMarkExited
  dsimp only
  split
  · exact .refl k
  · exact .same rfl (setProcess_pid (p := { k.processes i with exitCode := code, state := .zombie }) rfl)

theorem withCurrent_pids {f : Process → Process} (hf : ∀ p, (f p).pid = p.pid) (k : Kernel ρ) :
    PidsKept k (withCurrent f k) := by
  unfold withCurrent
  split
  · exact .refl k
  · exact .setProcess (hf _)

theorem dispatchNext_pids {policy : DispatchPolicy} (h : processDispatchNext (some i) policy k = some (frame, k')) :
    PidsKept k k' := by
  refine .same ?_ (dispatchNext_pid h)
  unfold processDispatchNext at h
  rw [if_neg (by simp)] at h
  split at h
  · cases h
  · simp only [Option.some.injEq] at h
    obtain rfl := congrArg Prod.snd h
    unfold switchTo
    dsimp only
    split <;> rfl

/-! ## The loader -/

def LoaderPids (l l' : Loader ρ) : Prop := PidsKept l.kernel l'.kernel

instance : Std.Refl (LoaderPids : Loader ρ → Loader ρ → Prop) := ⟨fun l => .refl l.kernel⟩

instance : IsTrans (Loader ρ) LoaderPids := ⟨fun _ _ _ h h' => PidsKept.trans h h'⟩

def LoaderNext (l l' : Loader ρ) : Prop := l'.kernel.nextSpawnPid = l.kernel.nextSpawnPid

instance : Std.Refl (LoaderNext : Loader ρ → Loader ρ → Prop) := ⟨fun _ => rfl⟩

instance : IsTrans (Loader ρ) LoaderNext := ⟨fun _ _ _ h h' => Eq.trans h' h⟩

theorem onSlot_next {α : Type} (slot : SlotId) (m : SpaceM α) (k : Kernel ρ) :
    Wp (onSlot slot m) k (fun _ k' => k'.nextSpawnPid = k.nextSpawnPid) fun _ k' => k'.nextSpawnPid = k.nextSpawnPid := by
  refine wp_onPart.mpr ?_
  unfold Wp
  split <;> rfl

theorem loaderSteps_next : LoaderSteps slot (LoaderNext : Loader ρ → Loader ρ → Prop) where
  pmm _ := fun _ => rfl
  space m := fun l => wp_onPart.mpr (onSlot_next slot m l.kernel)
  storage _ := Moves.modify fun _ => rfl
  release := Moves.onPart (Moves.modify (R := fun k k' : Kernel ρ => k'.nextSpawnPid = k.nextSpawnPid)
    fun k => (processRelease_pids slot k).next) fun _ _ hk => hk

/-- The table and the next pid stay. -/
theorem Moves.pids {α : Type} {m : LoaderM ρ α} (h : Moves LoaderRoster m) (h' : Moves LoaderNext m) :
    Moves LoaderPids m :=
  fun l => Wp.mono (Wp.and (h l) (h' l)) (fun _ _ hl => .of_roster hl.2 hl.1) fun _ _ hl => .of_roster hl.2 hl.1

theorem loadProcess_pids (name : Path) (entryIndex memoryBase memorySize : Nat) (mapMmio : Option MapMmio) :
    Moves LoaderPids (loadProcess env name slot entryIndex memoryBase memorySize mapMmio) := by
  have hrelease : Moves LoaderPids (onKernel (modify (processRelease slot)) : LoaderM ρ PUnit) :=
    (Moves.modify (processRelease_pids slot)).onPart fun _ _ hk => hk
  have hnext : LoaderSteps slot (LoaderNext : Loader ρ → Loader ρ → Prop) := loaderSteps_next
  have habandon : Moves LoaderPids (abandon slot : LoaderM ρ Unit) :=
    Moves.bind hrelease fun _ => Moves.bind (Moves.pids freeUserStorage_roster hnext.freeUserStorage)
      fun _ => Moves.error _
  refine Moves.bind (Moves.pids (loadNamedImage_roster name entryIndex)
    (hnext.loadNamedImage name entryIndex)).attempt fun r => ?_
  cases r with
  | none => exact habandon
  | some image =>
    refine Moves.bind (Moves.pids (initPanelProcess_roster image _ _ _)
      (hnext.initPanelProcess image _ _ _)).attempt fun r => ?_
    cases r with
    | none => exact habandon
    | some _ => exact Moves.pure _

theorem setArguments_pid (argvVaddr argc : Nat) (p : Process) : (setArguments argvVaddr argc p).pid = p.pid := by
  unfold setArguments
  dsimp only
  split <;> rfl

theorem spawnInto_pids (name : Path) (entryIndex argvPtr argc : Nat) :
    Moves LoaderPids (spawnInto env name slot entryIndex argvPtr argc) := by
  refine Moves.get_bind fun l => Moves.bind (loadProcess_pids _ _ _ _ _) fun _ => ?_
  refine Moves.get_bind fun l => ?_
  split
  · exact Moves.bind ((Moves.modify (processRelease_pids slot)).onPart fun _ _ hk => hk) fun _ => Moves.error _
  · refine (Moves.modify fun k => ?_).onPart fun _ _ hk => hk
    exact PidsKept.setProcess (setArguments_pid _ _ _)

theorem appSpawnVfs_fit (env : Env ρ) (path : Path) (entryIndex argvPtr argc : Nat) :
    Moves KeepsFit (appSpawnVfs env path entryIndex argvPtr argc) := by
  intro k
  unfold appSpawnVfs
  refine wp_bind.mpr (wp_get.mpr (wp_guard (fun _ h => h) fun _ => ?_))
  split
  · exact fun h => h
  refine wp_guard (fun _ h => h) fun _ => ?_
  refine wp_bind.mpr (wp_modify.mpr ?_)
  have hrec := (reclaimZombies_pids k).fit
  generalize processReclaimZombies k = k₀ at hrec ⊢
  refine wp_bind.mpr (wp_get.mpr (wp_bind.mpr (wp_modify.mpr (wp_bind.mpr (wp_get.mpr ?_)))))
  have hnext : KeepsFit k₀ { k₀ with nextSpawnPid := (k₀.nextSpawnPid + 1) % 2 ^ 32 } :=
    fun h => ⟨Nat.mod_lt _ (by decide), h.pids⟩
  split
  · exact fun h => hnext (hrec h)
  · rename_i slot k₁ halloc
    have hblock : KeepsFit k (k₁.setProcess slot { k₁.processes slot with state := .blocked }) := fun h =>
      (PidsKept.setProcess (p := { k₁.processes slot with state := .blocked }) rfl).fit
        (processAlloc_fit (hrec h).next halloc (hnext (hrec h)))
    refine wp_bind.mpr (wp_set.mpr (wp_bind.mpr (wp_onPart.mpr ?_)))
    refine Wp.mono (spawnInto_pids _ _ _ _ _) (fun _ l hl => ?_) fun _ l hl => ?_
    · exact fun h => PidsKept.fit hl (hblock h)
    · exact fun h => PidsKept.fit hl (hblock h)

theorem panelBootEnter_fit (env : Env ρ) (memoryBase memorySize : Nat) (mapMmio : Option MapMmio) :
    Moves KeepsFit (panelBootEnter env memoryBase memorySize mapMmio) := by
  refine Moves.bind (Moves.modify fun k => (reclaimZombies_pids k).fit) fun _ => ?_
  intro k
  refine wp_bind.mpr (wp_get.mpr ?_)
  split
  · exact fun h => h
  · rename_i slot k₁ halloc
    have hfit := processAlloc_fit (by decide) halloc
    refine wp_bind.mpr (wp_set.mpr (wp_bind.mpr (wp_onPart.mpr ?_)))
    refine Wp.mono (loadProcess_pids _ _ _ _ _ _) (fun _ l hl => ?_) fun _ l hl h => PidsKept.fit hl (hfit h)
    refine wp_bind.mpr (wp_modify.mpr (wp_bind.mpr (wp_modify.mpr (wp_pure.mpr fun h => ?_))))
    have hfits := PidsKept.fit hl (hfit h)
    exact ⟨hfits.next, ((PidsKept.setProcess (k := l.kernel) (i := slot) (p := { l.kernel.processes slot with
      state := .running }) rfl).fit hfits).pids⟩

/-! ## Traps -/

theorem spawnResult_fit (path : Path) (entryIndex argvPtr argc : Nat) :
    KeepsFit k (spawnResult env path entryIndex argvPtr argc k).2 := by
  have h := appSpawnVfs_fit env path entryIndex argvPtr argc k
  unfold Wp at h
  unfold spawnResult
  split at h <;> rename_i heq <;> rw [heq]
  · dsimp only
    split <;> exact h
  · exact h

theorem onCurrent_pids {m : SpaceM Int} (hm : Moves SpaceCtx m) : PidsKept k (onCurrent m k).2 := by
  refine .of_roster ?_ (onCurrent_roster hm)
  unfold onCurrent
  split
  · rfl
  rename_i i _
  have h := onSlot_next i m k
  unfold Wp at h
  split at h <;> rename_i heq <;> rw [heq] <;> exact h

theorem simpleCall_fit (env : Env ρ) (frame : Frame) (k : Kernel ρ) : KeepsFit k (simpleCall env frame k).2 := by
  have hsame : KeepsFit k k := fun h => h
  unfold simpleCall
  dsimp only
  split
  · exact hsame
  split
  · unfold sysSpawn
    split
    · exact hsame
    split
    · exact hsame
    · exact spawnResult_fit _ _ _ _
  split
  · unfold sysSpawnArgv
    split
    · exact hsame
    split
    · exact hsame
    · dsimp only
      generalize (if frame.arg 3 = 0 then decide (frame.arg 2 = 0) else _) = argvOk
      cases argvOk with
      | true => exact spawnResult_fit _ _ _ _
      | false => exact hsame
  split
  · rcases sysWait_leaves (frame.arg 0) k with heq | ⟨i, -, -, -, heq⟩ <;> rw [heq]
    · exact hsame
    · exact (processRelease_pids i k).fit
  split
  · rcases sysKill_leaves env (frame.arg 0) k with heq | ⟨i, -, -, -, heq⟩ <;> rw [heq]
    · exact hsame
    · exact (processMarkExited_pids env i _ k).fit
  split
  · exact (onCurrent_pids (userVmMapAnonymous_keeps _ _ _)).fit
  split
  · exact (onCurrent_pids (userVmUnmapAnonymous_keeps _ _)).fit
  split
  · exact hsame
  · exact fun h => ⟨h.next, h.pids⟩

theorem endCurrent_pids (code : UInt64) (hcur : k.current = some i) : PidsKept k (endCurrent env code regs k).2 := by
  have hmark := processMarkExited_pids env i code k
  unfold endCurrent
  simp only [hcur]
  split
  · rename_i next hd
    exact hmark.trans (dispatchNext_pids hd)
  · exact hmark

theorem polled_pids (env : Env ρ) (regs : Frame) (k : Kernel ρ) : PidsKept k (polled env regs k) := by
  refine .of_roster ?_ (polled_roster env regs k)
  have hsave := withCurrent_pids (f := processSaveContext regs) (fun _ => rfl) { k with rest := env.poll k regs }
  exact hsave.next

theorem syscallDispatch_fit (hcur : k.current = some i) : KeepsFit k (syscallDispatch env regs k).2 := by
  have hpolled := polled_pids env regs k
  have hcur' : (polled env regs k).current = some i :=
    (congrArg Roster.current (polled_roster env regs k)).trans hcur
  unfold syscallDispatch
  dsimp only
  rw [show Armonios.withCurrent (processSaveContext regs) { k with rest := env.poll k regs } =
    polled env regs k from rfl]
  intro hk
  refine (withCurrent_pids (f := saveReturn _) (fun _ => rfl) _).fit ?_
  split
  · exact (hpolled.trans (endCurrent_pids _ hcur')).fit hk
  split
  · unfold sysYield
    dsimp only
    have hyield := withCurrent_pids (f := fun p => { p with regs := setReg 0 0 p.regs }) (fun _ => rfl)
      (polled env regs k)
    rw [hcur']
    split
    · rename_i next hd
      exact ((hpolled.trans hyield).trans (dispatchNext_pids hd)).fit hk
    · exact (hpolled.trans hyield).fit hk
  · exact simpleCall_fit _ _ _ (hpolled.fit hk)

theorem irqHandlerFrame_pids (irq : Option UInt32) (regs : Frame) :
    PidsKept k (irqHandlerFrame env irq regs k).2 := by
  have hsave := withCurrent_pids (f := processSaveContext regs) (fun _ => rfl) k
  unfold irqHandlerFrame
  dsimp only
  split
  · exact hsave
  rename_i n
  generalize hq : Armonios.withCurrent _ { Armonios.withCurrent (processSaveContext regs) k with
    rest := env.irqWork (Armonios.withCurrent (processSaveContext regs) k) n } = q
  have hframe : PidsKept k q := by
    rw [← hq]
    have hset := withCurrent_pids (f := fun p => { p with pc := regs.elr, pstate := regs.spsr, sp := regs.spEl0 })
      (fun _ => rfl) { Armonios.withCurrent (processSaveContext regs) k with
        rest := env.irqWork (Armonios.withCurrent (processSaveContext regs) k) n }
    exact hsave.trans ⟨hset.next, hset.pids⟩
  split
  · rename_i next hd
    cases hcurrent : q.current with
    | none => simp [processDispatchNext, hcurrent] at hd
    | some i =>
      rw [hcurrent] at hd
      exact hframe.trans (dispatchNext_pids hd)
  · exact hframe

theorem panelBootLeave_pids (kernelPageTable : Nat) (panel : SlotId) (k : Kernel ρ) :
    PidsKept k (panelBootLeave kernelPageTable panel k) := by
  have hrec := reclaimZombies_pids { k with ttbr0 := if kernelPageTable ≠ 0 then kernelPageTable else k.ttbr0 }
  have hleave := hrec.trans (processRelease_pids panel _)
  exact ⟨hleave.next, hleave.pids⟩

/-! ## Runs -/

/-- One step keeps that every pid is a `uint32_t`. -/
theorem next_pidsFit {e : Event} (hplaced : Placed m) (h : PidsFit m.kernel) (hstep : m.next env e = some m') :
    PidsFit m'.kernel := by
  have hcpu := hplaced.cpu
  unfold CpuPlace at hcpu
  cases e with
  | boot memoryBase memorySize mapMmio =>
    simp only [Machine.next] at hstep
    split at hstep
    · have hspec := panelBootEnter_fit env memoryBase memorySize mapMmio m.kernel
      unfold Wp at hspec
      split at hspec <;> rename_i r k' heq <;> rw [heq] at hstep <;> cases hstep <;> exact hspec h
    · cases hstep
  | launch x =>
    simp only [Machine.next] at hstep
    split at hstep <;> cases hstep
    exact h
  | run regs =>
    simp only [Machine.next] at hstep
    split at hstep
    · split at hstep <;> cases hstep
      exact h
    · cases hstep
  | svc =>
    simp only [Machine.next] at hstep
    split at hstep
    · rename_i regs hc
      rw [hc] at hcpu
      cases hstep
      obtain ⟨-, i, hat⟩ := hcpu
      exact syscallDispatch_fit hat.current h
    · cases hstep
  | fault =>
    simp only [Machine.next] at hstep
    split at hstep
    · rename_i regs hc
      rw [hc] at hcpu
      cases hstep
      obtain ⟨-, i, hat⟩ := hcpu
      have hsave := withCurrent_pids (f := processSaveContext regs) (fun _ => rfl) m.kernel
      have hat' := hat.withCurrent (f := processSaveContext regs) fun _ => rfl
      exact (hsave.trans (endCurrent_pids _ hat'.current)).fit h
    · cases hstep
  | irq irq =>
    simp only [Machine.next] at hstep
    split at hstep
    · cases hstep
      exact (irqHandlerFrame_pids irq _).fit h
    · cases hstep
  | irqEl1 irq regs =>
    simp only [Machine.next] at hstep
    split at hstep
    · cases hstep
    rw [Option.map_eq_some_iff] at hstep
    obtain ⟨cpu, -, rfl⟩ := hstep
    exact (irqHandlerFrame_pids irq regs).fit h
  | eret =>
    simp only [Machine.next] at hstep
    split at hstep <;> cases hstep
    exact h
  | leave =>
    simp only [Machine.next] at hstep
    split at hstep
    · cases hstep
      exact (panelBootLeave_pids _ _ _).fit h
    · cases hstep

theorem machineRun_pids (hm : Booted m₀) (h : PidsFit m₀.kernel) (hrun : Run (machineStep env AnyEvent) m₀ m) :
    PidsFit m.kernel := by
  induction hrun with
  | refl => exact h
  | tail hbefore hst ih =>
    obtain ⟨env', e, -, -, hnext⟩ := hst
    exact next_pidsFit (machineRun_placed hm hbefore) ih hnext

/-- No two processes that have not ended have one pid. -/
theorem Holds.unique {pid : UInt32} (h : PidsFit k) (hroster : RosterOk k.roster) (hi : Holds k i pid)
    (hj : Holds k j pid) : i = j := by
  have heq := hi.2.trans hj.2.symm
  have hpid : (k.processes i).pid = (k.processes j).pid := by
    have hmod := congrArg UInt32.toNat heq
    rwa [UInt32.toNat_ofNat_of_lt' (h.pids i), UInt32.toNat_ofNat_of_lt' (h.pids j)] at hmod
  exact hroster.distinct i j hi.1.1 hj.1.1 hpid

end Armonios
