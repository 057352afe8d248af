import Armonios.Process.Fair

/-!
# The process table as a roster

A roster has what the scheduler and the process calls see of the table: the state and the pid of every
slot, `g_process_count` and `g_current_process`. `RosterMove` are the changes that the code makes to it,
one for each place that writes a state; every step of the machine is a sequence of them
(`next_rosterRun`). A move keeps the invariant `RosterOk`, and leaves a zombie only by releasing its slot.

* `machineRun_roster`: the invariant holds in every state of every run, and between two states the
  slots change by such moves only.
-/

namespace Armonios

variable {ρ : Type} {env : Env ρ} {k k' : Kernel ρ} {m m' : Machine ρ} {i j slot : SlotId}
  {regs frame : Frame}

/-! ## Rosters -/

structure Roster where
  state : SlotId → ProcessState
  pid : SlotId → Nat
  count : Nat
  current : Option SlotId

namespace Roster

def setState (i : SlotId) (s : ProcessState) (t : Roster) : Roster :=
  { t with state := Function.update t.state i s }

/-- `process_release`. -/
def release (i : SlotId) (t : Roster) : Roster where
  state := Function.update t.state i .unused
  pid := Function.update t.pid i 0
  count := if t.state i ≠ .unused ∧ 0 < t.count then t.count - 1 else t.count
  current := if t.current = some i then none else t.current

/-- The slots that are not `UNUSED`. -/
def live (t : Roster) : Finset SlotId := Finset.univ.filter fun i => t.state i ≠ .unused

end Roster

inductive RosterMove (t : Roster) : Roster → Prop
  /-- `process_alloc`. -/
  | alloc (i : SlotId) (pid : Nat) (free : t.state i = .unused) (nonzero : pid ≠ 0)
      (fresh : ∀ j, t.state j ≠ .unused → t.pid j ≠ pid) :
      RosterMove t { t.setState i .ready with pid := Function.update t.pid i pid, count := t.count + 1 }
  /-- `app_spawn_vfs` while the program is loaded, and when it can run. -/
  | block (i : SlotId) (ready : t.state i = .ready) : RosterMove t (t.setState i .blocked)
  | wake (i : SlotId) (blocked : t.state i = .blocked) : RosterMove t (t.setState i .ready)
  /-- `panel_boot_run`. -/
  | start (i : SlotId) (ready : t.state i = .ready) (none : t.current = none) :
      RosterMove t { t.setState i .running with current := some i }
  /-- `process_mark_exited`. -/
  | exit (i : SlotId) (live : t.state i ≠ .unused) : RosterMove t (t.setState i .zombie)
  /-- The two halves of `process_dispatch_next`. -/
  | preempt (i : SlotId) (running : t.state i = .running) : RosterMove t (t.setState i .ready)
  | switch (i j : SlotId) (current : t.current = some i) (stopped : t.state i ≠ .running)
      (ready : t.state j = .ready) : RosterMove t { t.setState j .running with current := some j }
  | release (i : SlotId) : RosterMove t (t.release i)

/-- The invariant of the process table. -/
structure RosterOk (t : Roster) : Prop where
  nonzero : ∀ i, t.state i ≠ .unused → t.pid i ≠ 0
  distinct : ∀ i j, t.state i ≠ .unused → t.state j ≠ .unused → t.pid i = t.pid j → i = j
  count : t.count = t.live.card
  running : ∀ i, t.state i = .running → t.current = some i

variable {t t' : Roster}

theorem mem_live : i ∈ t.live ↔ t.state i ≠ .unused := by
  unfold Roster.live
  rw [Finset.mem_filter]
  exact ⟨fun h => h.2, fun h => ⟨Finset.mem_univ i, h⟩⟩

/-- A process that stays in its slot changes its state. -/
theorem RosterOk.setState {s : ProcessState} {current : Option SlotId} (h : RosterOk t) (hi : t.state i ≠ .unused)
    (hs : s ≠ .unused) (hrun : ∀ j, (t.setState i s).state j = .running → current = some j) :
    RosterOk { t.setState i s with current } := by
  have hlive : ∀ j, Function.update t.state i s j ≠ .unused ↔ t.state j ≠ .unused := by
    intro j
    by_cases hji : j = i
    · rw [hji, Function.update_self]
      exact ⟨fun _ => hi, fun _ => hs⟩
    · rw [Function.update_of_ne hji]
  refine ⟨fun j hj => h.nonzero j ((hlive j).mp hj),
    fun j l hj hl hp => h.distinct j l ((hlive j).mp hj) ((hlive l).mp hl) hp, ?_, hrun⟩
  have hsame : Roster.live { t.setState i s with current } = t.live := by
    unfold Roster.live Roster.setState
    exact Finset.filter_congr fun j _ => hlive j
  rw [hsame]
  exact h.count

theorem RosterOk.alloc {pid : Nat} (h : RosterOk t) (hfree : t.state i = .unused) (hpid : pid ≠ 0)
    (hfresh : ∀ j, t.state j ≠ .unused → t.pid j ≠ pid) :
    RosterOk { t.setState i .ready with pid := Function.update t.pid i pid, count := t.count + 1 } := by
  have hlive : ∀ j, j ≠ i → Function.update t.state i .ready j ≠ .unused → t.state j ≠ .unused := by
    intro j hji hj
    rwa [Function.update_of_ne hji] at hj
  refine ⟨fun j hj => ?_, fun j l hj hl hp => ?_, ?_, fun j hj => ?_⟩
  · dsimp only
    by_cases hji : j = i
    · rw [hji, Function.update_self]
      exact hpid
    · rw [Function.update_of_ne hji]
      exact h.nonzero j (hlive j hji hj)
  · dsimp only at hp
    by_cases hji : j = i <;> by_cases hli : l = i
    · rw [hji, hli]
    · rw [hji, Function.update_self, Function.update_of_ne hli] at hp
      exact absurd hp.symm (hfresh l (hlive l hli hl))
    · rw [hli, Function.update_self, Function.update_of_ne hji] at hp
      exact absurd hp (hfresh j (hlive j hji hj))
    · rw [Function.update_of_ne hji, Function.update_of_ne hli] at hp
      exact h.distinct j l (hlive j hji hj) (hlive l hli hl) hp
  · have hinsert : Roster.live { t.setState i .ready with
        pid := Function.update t.pid i pid, count := t.count + 1 } = insert i t.live := by
      ext j
      rw [mem_live, Finset.mem_insert, mem_live]
      by_cases hji : j = i
      · simp [Roster.setState, hji]
      · simp [Roster.setState, hji]
    have hnot : i ∉ t.live := by simp [mem_live, hfree]
    rw [hinsert, Finset.card_insert_of_notMem hnot, ← h.count]
  · unfold Roster.setState at hj
    dsimp only at hj
    by_cases hji : j = i
    · rw [hji, Function.update_self] at hj
      cases hj
    · rw [Function.update_of_ne hji] at hj
      exact h.running j hj

theorem RosterOk.release (h : RosterOk t) : RosterOk (t.release i) := by
  have hlive : ∀ j, Function.update t.state i .unused j ≠ .unused → j ≠ i ∧ t.state j ≠ .unused := by
    intro j hj
    by_cases hji : j = i
    · rw [hji, Function.update_self] at hj
      exact absurd rfl hj
    · rw [Function.update_of_ne hji] at hj
      exact ⟨hji, hj⟩
  refine ⟨fun j hj => ?_, fun j l hj hl hp => ?_, ?_, fun j hj => ?_⟩
  · obtain ⟨hji, hj⟩ := hlive j hj
    unfold Roster.release
    dsimp only
    rw [Function.update_of_ne hji]
    exact h.nonzero j hj
  · obtain ⟨hji, hj⟩ := hlive j hj
    obtain ⟨hli, hl⟩ := hlive l hl
    unfold Roster.release at hp
    dsimp only at hp
    rw [Function.update_of_ne hji, Function.update_of_ne hli] at hp
    exact h.distinct j l hj hl hp
  · have herase : (t.release i).live = t.live.erase i := by
      ext j
      rw [mem_live, Finset.mem_erase, mem_live]
      by_cases hji : j = i
      · simp [Roster.release, hji]
      · simp [Roster.release, hji]
    rw [herase]
    unfold Roster.release
    dsimp only
    by_cases hi : t.state i = .unused
    · have hnot : i ∉ t.live := by simp [mem_live, hi]
      rw [if_neg fun hc => hc.1 hi, Finset.erase_eq_of_notMem hnot]
      exact h.count
    · have hmem : i ∈ t.live := by simp [mem_live, hi]
      have hpos : 0 < t.count := by
        rw [h.count]
        exact Finset.card_pos.mpr ⟨i, hmem⟩
      rw [if_pos ⟨hi, hpos⟩, Finset.card_erase_of_mem hmem, h.count]
  · have hji : j ≠ i := by
      rintro rfl
      simp [Roster.release] at hj
    unfold Roster.release at hj ⊢
    dsimp only at hj ⊢
    rw [Function.update_of_ne hji] at hj
    rw [h.running j hj, if_neg (by simpa using hji)]

/-- Every move keeps the invariant. -/
theorem RosterMove.ok (h : RosterMove t t') (ht : RosterOk t) : RosterOk t' := by
  -- the other running process, if any, is the current one
  have hrun : ∀ {i : SlotId} {s : ProcessState}, s ≠ .running → ∀ j, (t.setState i s).state j = .running →
      t.current = some j := by
    intro i s hs j hj
    unfold Roster.setState at hj
    dsimp only at hj
    by_cases hji : j = i
    · rw [hji, Function.update_self] at hj
      exact absurd hj hs
    · rw [Function.update_of_ne hji] at hj
      exact ht.running j hj
  cases h with
  | alloc i pid free nonzero fresh => exact ht.alloc free nonzero fresh
  | block i ready => exact ht.setState (by rw [ready]; simp) (by simp) (hrun (by simp))
  | wake i blocked => exact ht.setState (by rw [blocked]; simp) (by simp) (hrun (by simp))
  | start i ready none =>
    refine ht.setState (by rw [ready]; simp) (by simp) fun j hj => ?_
    by_cases hji : j = i
    · rw [hji]
    · unfold Roster.setState at hj
      dsimp only at hj
      rw [Function.update_of_ne hji] at hj
      have hc := ht.running j hj
      rw [none] at hc
      cases hc
  | exit i live => exact ht.setState live (by simp) (hrun (by simp))
  | preempt i running => exact ht.setState (by rw [running]; simp) (by simp) (hrun (by simp))
  | switch i j current stopped ready =>
    refine ht.setState (by rw [ready]; simp) (by simp) fun l hl => ?_
    by_cases hlj : l = j
    · rw [hlj]
    · unfold Roster.setState at hl
      dsimp only at hl
      rw [Function.update_of_ne hlj] at hl
      have hc := ht.running l hl
      rw [current] at hc
      cases hc
      exact absurd hl stopped
  | release i => exact ht.release

/-- A zombie stays one until its slot is released. -/
theorem RosterMove.zombie (h : RosterMove t t') (hi : t.state i = .zombie) :
    t'.state i = .zombie ∨ t' = t.release i := by
  have hother : ∀ {j : SlotId} {s : ProcessState}, t.state j ≠ .zombie →
      Function.update t.state j s i = .zombie := by
    intro j s hj
    have hij : i ≠ j := by
      rintro rfl
      exact hj hi
    rw [Function.update_of_ne hij]
    exact hi
  cases h with
  | alloc j pid free nonzero fresh => exact .inl (hother (by rw [free]; simp))
  | block j ready => exact .inl (hother (by rw [ready]; simp))
  | wake j blocked => exact .inl (hother (by rw [blocked]; simp))
  | start j ready none => exact .inl (hother (by rw [ready]; simp))
  | exit j live =>
    refine .inl ?_
    unfold Roster.setState
    dsimp only
    by_cases hij : i = j
    · rw [hij, Function.update_self]
    · rw [Function.update_of_ne hij]
      exact hi
  | preempt j running => exact .inl (hother (by rw [running]; simp))
  | switch l j current stopped ready => exact .inl (hother (by rw [ready]; simp))
  | release j =>
    by_cases hij : i = j
    · rw [hij]
      exact .inr rfl
    · refine .inl ?_
      unfold Roster.release
      dsimp only
      rw [Function.update_of_ne hij]
      exact hi

/-! ## The table functions -/

namespace Kernel

def roster (k : Kernel ρ) : Roster where
  state i := (k.processes i).state
  pid i := (k.processes i).pid
  count := k.processCount
  current := k.current

end Kernel

/-- Any number of moves of the table. -/
def RosterRun (k k' : Kernel ρ) : Prop := Run RosterMove k.roster k'.roster

instance : Std.Refl (RosterRun : Kernel ρ → Kernel ρ → Prop) := ⟨fun _ => .refl⟩

instance : IsTrans (Kernel ρ) RosterRun := ⟨fun _ _ _ h h' => Relation.ReflTransGen.trans h h'⟩

theorem RosterRun.of_eq (h : k'.roster = k.roster) : RosterRun k k' := by
  unfold RosterRun
  rw [h]

theorem RosterRun.trans {q : Kernel ρ} (h : RosterRun k q) (h' : RosterRun q k') : RosterRun k k' :=
  Relation.ReflTransGen.trans h h'

theorem states_update (processes : SlotId → Process) (i : SlotId) (p : Process) :
    (fun j => (Function.update processes i p j).state) =
      Function.update (fun j => (processes j).state) i p.state :=
  funext fun j => Function.apply_update (fun _ => Process.state) processes i p j

theorem pids_update (processes : SlotId → Process) (i : SlotId) (p : Process) :
    (fun j => (Function.update processes i p j).pid) =
      Function.update (fun j => (processes j).pid) i p.pid :=
  funext fun j => Function.apply_update (fun _ => Process.pid) processes i p j

/-- A process changes its state. -/
theorem roster_setProcess {p : Process} (k : Kernel ρ) (i : SlotId) (hpid : p.pid = (k.processes i).pid) :
    (k.setProcess i p).roster = k.roster.setState i p.state := by
  unfold Kernel.roster Kernel.setProcess Roster.setState
  dsimp only
  congr 1
  · exact states_update k.processes i p
  · rw [pids_update, hpid]
    exact Function.update_eq_self i _

/-- A process keeps its state and its pid. -/
theorem roster_setProcess_same {p : Process} (k : Kernel ρ) (i : SlotId) (hpid : p.pid = (k.processes i).pid)
    (hstate : p.state = (k.processes i).state) : (k.setProcess i p).roster = k.roster := by
  rw [roster_setProcess k i hpid, hstate]
  unfold Roster.setState
  congr 1
  exact Function.update_eq_self i _

theorem processRelease_rosterRun (i : SlotId) (k : Kernel ρ) : RosterRun k (processRelease i k) := by
  unfold processRelease
  dsimp only
  split
  · exact .refl
  · refine .single ?_
    have heq : ({ k with
        current := if k.current = some i then none else k.current
        vm := processFreeResources (k.processes i) k.vm
        processes := Function.update k.processes i { processInit 0 [] with state := .unused }
        processCount := if (k.processes i).state ≠ .unused ∧ 0 < k.processCount then k.processCount - 1
          else k.processCount } : Kernel ρ).roster = k.roster.release i := by
      unfold Kernel.roster Roster.release
      dsimp only
      congr 1
      · exact states_update k.processes i _
      · exact pids_update k.processes i _
    rw [heq]
    exact .release i

theorem reclaimZombies_rosterRun (k : Kernel ρ) : RosterRun k (processReclaimZombies k) := by
  unfold processReclaimZombies
  generalize slots = l
  induction l generalizing k with
  | nil => exact .refl
  | cons i l ih =>
    rw [List.foldl_cons]
    refine RosterRun.trans ?_ (ih _)
    split
    · exact processRelease_rosterRun i k
    · exact .refl

theorem processFind_none {pid : Nat} (hpid : pid ≠ 0) (h : processFind pid k = none) (j : SlotId)
    (hj : (k.processes j).state ≠ .unused) : (k.processes j).pid ≠ pid := by
  unfold processFind at h
  rw [if_neg hpid, List.find?_eq_none] at h
  intro hp
  exact h j (List.mem_finRange j) (by simp [hj, hp])

theorem processAlloc_rosterRun {pid : Nat} {name : Path} (h : processAlloc pid name k = some (slot, k')) :
    RosterRun k k' := by
  obtain ⟨hun, -, -⟩ := processAlloc_spec h
  unfold processAlloc at h
  split at h
  · cases h
  rename_i hpid
  simp only [not_or, ne_eq, not_not] at hpid
  split at h
  · cases h
  cases h
  refine .single ?_
  have heq : ({ k.setProcess slot (processInit pid name) with processCount := k.processCount + 1 } : Kernel ρ).roster =
      { k.roster.setState slot .ready with
        pid := Function.update k.roster.pid slot pid
        count := k.roster.count + 1 } := by
    unfold Kernel.roster Kernel.setProcess Roster.setState
    dsimp only
    congr 1
    · exact states_update k.processes slot _
    · exact pids_update k.processes slot _
  rw [heq]
  exact .alloc slot pid hun hpid.1 (processFind_none hpid.1 hpid.2)

theorem processMarkExited_rosterRun (code : UInt64) (hi : (k.processes i).state ≠ .unused) :
    RosterRun k (processMarkExited env i code k) := by
  unfold processMarkExited
  dsimp only
  split
  · exact .refl
  · refine .single ?_
    have heq : ({ k.setProcess i { k.processes i with exitCode := code, state := .zombie } with
        rest := env.destroyWindows (k.processes i).pid k.rest } : Kernel ρ).roster = k.roster.setState i .zombie :=
      roster_setProcess k i rfl
    rw [heq]
    exact .exit i hi

/-- The dispatcher takes the CPU from the current process, which has ended or is preempted. -/
theorem dispatchNext_rosterRun {policy : DispatchPolicy} (hi : k.current = some i)
    (hexit : policy = .exit → (k.processes i).state ≠ .running)
    (h : processDispatchNext (some i) policy k = some (frame, k')) : RosterRun k k' := by
  have hswitch : ∀ {q : Kernel ρ} {j : SlotId}, q.current = some i → (q.processes i).state ≠ .running →
      (q.processes j).state = .ready → RosterRun q (switchTo j q).2 := by
    intro q j hcur hstop hready
    refine .single ?_
    have heq : (switchTo j q).2.roster = { q.roster.setState j .running with current := some j } := by
      have hset := roster_setProcess (p := { q.processes j with state := .running }) q j rfl
      unfold switchTo
      rw [← hset]
      rfl
    rw [heq]
    exact .switch i j hcur hstop hready
  unfold processDispatchNext at h
  rw [if_neg (by simp)] at h
  split at h
  · cases h
  rename_i j' hnext
  dsimp only at h
  have hj' : j' ≠ i := slotsAfter_ne (List.mem_of_find?_eq_some hnext)
  have hready : (k.processes j').state = .ready := by simpa using List.find?_some hnext
  split at h
  · rename_i hpre
    cases h
    have hpreempt : RosterRun k (k.setProcess i { k.processes i with state := .ready }) := by
      have heq := roster_setProcess (p := { k.processes i with state := .ready }) k i rfl
      refine .single ?_
      rw [heq]
      exact .preempt i hpre.2
    refine hpreempt.trans (hswitch hi ?_ ?_)
    · simp [Kernel.setProcess]
    · simpa [Kernel.setProcess, hj'] using hready
  · rename_i hpre
    cases h
    refine hswitch hi (fun hrun => ?_) hready
    cases policy with
    | exit => exact hexit rfl hrun
    | preempt => exact hpre ⟨rfl, hrun⟩

/-! ## The loader -/

/-- The process keeps its pid and its state. -/
def SpaceId (s s' : Space) : Prop := s'.process.pid = s.process.pid ∧ s'.process.state = s.process.state

instance : Std.Refl SpaceId := ⟨fun _ => ⟨rfl, rfl⟩⟩

instance : IsTrans Space SpaceId := ⟨fun _ _ _ h h' => ⟨h'.1.trans h.1, h'.2.trans h.2⟩⟩

theorem Moves.spaceId {α : Type} {m : SpaceM α} (h : Moves SpaceCtx m) : Moves SpaceId m := fun s =>
  Wp.mono (h s) (fun _ _ h' => ⟨h'.pid, h'.state⟩) fun _ _ h' => ⟨h'.pid, h'.state⟩

theorem prepareProcess_spaceId (image : UserImage) (stackStart stackSize : Nat) (pstate : UInt64) :
    Moves SpaceId (userImagePrepareProcess image stackStart stackSize pstate) := by
  have hentry : ∀ pc sp pstate : UInt64, Moves SpaceId
      (modify fun s => { s with process := processSetEntry pc sp pstate s.process } : SpaceM PUnit) :=
    fun pc sp pstate => Moves.modify fun s => ⟨rfl, rfl⟩
  unfold userImagePrepareProcess
  refine Moves.guard ?_
  refine Moves.get_bind fun s => Moves.bind (hentry _ _ _) fun _ => ?_
  refine Moves.bind (onProcess_keeps (addUserRegion_ofRegions _ _)).spaceId.attempt fun r => ?_
  cases r with
  | none => exact Moves.bind (hentry _ _ _) fun _ => Moves.error _
  | some _ =>
    refine Moves.bind (onProcess_keeps (addUserRegion_ofRegions _ _)).spaceId.attempt fun r => ?_
    cases r with
    | none =>
      refine Moves.bind (onProcess_keeps (removeUserRegion_ofRegions _ _)).spaceId.ignoring fun _ => ?_
      exact Moves.bind (hentry _ _ _) fun _ => Moves.error _
    | some _ => exact Moves.pure _

/-- The table is the same. -/
def SameRoster (k k' : Kernel ρ) : Prop := k'.roster = k.roster

instance : Std.Refl (SameRoster : Kernel ρ → Kernel ρ → Prop) := ⟨fun _ => rfl⟩

instance : IsTrans (Kernel ρ) SameRoster := ⟨fun _ _ _ h h' => h'.trans h⟩

def LoaderRoster (l l' : Loader ρ) : Prop := SameRoster l.kernel l'.kernel

instance : Std.Refl (LoaderRoster : Loader ρ → Loader ρ → Prop) := ⟨fun _ => rfl⟩

instance : IsTrans (Loader ρ) LoaderRoster := ⟨fun _ _ _ h h' => h'.trans h⟩

theorem onSlot_roster {α : Type} {m : SpaceM α} (h : Moves SpaceId m) :
    Moves SameRoster (onSlot slot m : KernelM ρ α) :=
  h.onPart fun k _ hs => roster_setProcess_same k slot hs.1 hs.2

theorem onKernel_roster {α : Type} {m : KernelM ρ α} (h : Moves SameRoster m) :
    Moves LoaderRoster (onKernel m) := h.onPart fun _ _ hk => hk

theorem onKernelPmm_roster {α : Type} (f : Pmm → α × Pmm) :
    Moves LoaderRoster (onKernel (onKernelPmm f) : LoaderM ρ α) := fun _ => rfl

theorem modifyStorage_roster (g : Loader ρ → PanelUserStorage) :
    Moves LoaderRoster (modify fun l => { l with storage := g l } : LoaderM ρ PUnit) :=
  Moves.modify fun _ => rfl

theorem loadNamedImage_roster (name : Path) (entryIndex : Nat) :
    Moves LoaderRoster (loadNamedImage env name slot entryIndex) := by
  refine Moves.get_bind fun l => ?_
  refine Moves.guard ?_
  refine Moves.bind (onKernelPmm_roster _) fun imagePaddr => ?_
  refine Moves.guard ?_
  split
  · exact Moves.bind (onKernelPmm_roster _) fun _ => Moves.error _
  · exact Moves.bind (modifyStorage_roster _) fun _ => Moves.pure _

theorem initPanelProcess_roster (image : UserImage) (memoryBase memorySize : Nat) (mapMmio : Option MapMmio) :
    Moves LoaderRoster (initPanelProcess slot image memoryBase memorySize mapMmio : LoaderM ρ Unit) := by
  have hset : ∀ start size paddr flags : Nat, Moves LoaderRoster
      (onKernel (onSlot slot (onProcess (processSetUserRegionMapping start size paddr flags))) : LoaderM ρ Unit) :=
    fun _ _ _ _ => onKernel_roster (onSlot_roster (onProcess_keeps (setUserRegionMapping_ofRegions _ _ _ _)).spaceId)
  refine Moves.get_bind fun l => ?_
  refine Moves.guard ?_
  refine Moves.bind (onKernelPmm_roster _) fun stackPaddr => Moves.bind (modifyStorage_roster _) fun _ => ?_
  refine Moves.guard ?_
  refine Moves.bind (onKernel_roster (onSlot_roster (prepareProcess_spaceId _ _ _ _))) fun _ => ?_
  refine Moves.get_bind fun l => ?_
  refine Moves.bind (onKernel_roster (onSlot_roster (createPanelPageTable_keeps _ _ _ _ _ _ _ _).spaceId)) fun _ => ?_
  exact Moves.bind (hset _ _ _ _) fun _ => Moves.bind (modifyStorage_roster _) fun _ => hset _ _ _ _

theorem freeUserStorage_roster : Moves LoaderRoster (freeUserStorage : LoaderM ρ Unit) := by
  refine Moves.get_bind fun l => Moves.bind (onKernelPmm_roster _) fun _ => ?_
  split
  · exact Moves.bind (onKernelPmm_roster _) fun _ => modifyStorage_roster _
  · exact modifyStorage_roster _

/-- The loader leaves the table as it is, or gives up and releases the slot. -/
theorem loadProcess_roster (name : Path) (entryIndex memoryBase memorySize : Nat) (mapMmio : Option MapMmio)
    (l : Loader ρ) : Wp (loadProcess env name slot entryIndex memoryBase memorySize mapMmio) l
      (fun _ l' => SameRoster l.kernel l'.kernel) fun _ l' => RosterRun l.kernel l'.kernel := by
  have habandon : ∀ l₁ : Loader ρ, LoaderRoster l l₁ → Wp (abandon slot : LoaderM ρ Unit) l₁
      (fun _ l' => SameRoster l.kernel l'.kernel) fun _ l' => RosterRun l.kernel l'.kernel := by
    intro l₁ h₁
    refine wp_bind.mpr (wp_onPart.mpr (wp_modify.mpr (wp_bind.mpr ?_)))
    have hrun : RosterRun l.kernel (processRelease slot l₁.kernel) :=
      (RosterRun.of_eq h₁).trans (processRelease_rosterRun slot l₁.kernel)
    refine Wp.mono (freeUserStorage_roster _) (fun _ l' h => wp_throw.mpr ?_) fun _ l' h => ?_
    · exact hrun.trans (.of_eq h)
    · exact hrun.trans (.of_eq h)
  unfold loadProcess
  refine wp_bind.mpr (wp_attempt_all.mpr (Wp.mono (loadNamedImage_roster name entryIndex l) ?_ ?_))
  · intro image l₁ h₁
    refine wp_bind.mpr (wp_attempt_all.mpr (Wp.mono (initPanelProcess_roster image _ _ _ l₁) ?_ ?_))
    · intro _ l₂ h₂
      exact h₂.trans h₁
    · intro _ l₂ h₂
      exact habandon l₂ (h₂.trans h₁)
  · intro _ l₁ h₁
    exact habandon l₁ h₁

theorem spawnInto_rosterRun (name : Path) (entryIndex argvPtr argc : Nat) (l : Loader ρ)
    (hslot : (l.kernel.processes slot).state = .blocked) :
    Wp (spawnInto env name slot entryIndex argvPtr argc) l (fun _ l' => RosterRun l.kernel l'.kernel)
      fun _ l' => RosterRun l.kernel l'.kernel := by
  unfold spawnInto
  refine wp_bind.mpr (wp_get.mpr (wp_bind.mpr ?_))
  refine Wp.mono (loadProcess_roster _ _ _ _ _ l) (fun _ l₁ h₁ => ?_) fun _ _ h => h
  refine wp_bind.mpr (wp_get.mpr ?_)
  split
  · refine wp_bind.mpr (wp_onPart.mpr (wp_modify.mpr (wp_throw.mpr ?_)))
    exact (RosterRun.of_eq h₁).trans (processRelease_rosterRun slot l₁.kernel)
  · rename_i argvVaddr _
    refine wp_onPart.mpr (wp_modify.mpr ((RosterRun.of_eq h₁).trans (.single ?_)))
    have hpid : ∀ p : Process, (setArguments argvVaddr argc p).pid = p.pid := by
      intro p
      unfold setArguments
      dsimp only
      split <;> rfl
    have heq := roster_setProcess (p := { setArguments argvVaddr argc (l₁.kernel.processes slot) with
        argv := argvCopies env.byte argvPtr argc, state := .ready }) l₁.kernel slot (hpid _)
    rw [heq]
    refine .wake slot ?_
    have hstate : l₁.kernel.roster.state slot = l.kernel.roster.state slot := by rw [h₁]
    exact hstate.trans hslot

theorem appSpawnVfs_rosterRun (env : Env ρ) (path : Path) (entryIndex argvPtr argc : Nat) :
    Moves RosterRun (appSpawnVfs env path entryIndex argvPtr argc) := by
  intro k
  unfold appSpawnVfs
  refine wp_bind.mpr (wp_get.mpr (wp_guard (fun _ => .refl) fun _ => ?_))
  split
  · exact .refl
  refine wp_guard (fun _ => .refl) fun _ => ?_
  refine wp_bind.mpr (wp_modify.mpr ?_)
  have hrec := reclaimZombies_rosterRun k
  generalize processReclaimZombies k = k₀ at hrec ⊢
  refine wp_bind.mpr (wp_get.mpr (wp_bind.mpr (wp_modify.mpr (wp_bind.mpr (wp_get.mpr ?_)))))
  have hpid : RosterRun k { k₀ with nextSpawnPid := (k₀.nextSpawnPid + 1) % 2 ^ 32 } := hrec.trans (.of_eq rfl)
  split
  · exact hpid
  rename_i slot k₁ halloc
  have hblock : RosterRun k (k₁.setProcess slot { k₁.processes slot with state := .blocked }) := by
    refine (hpid.trans (processAlloc_rosterRun halloc)).trans (.single ?_)
    have heq := roster_setProcess (p := { k₁.processes slot with state := .blocked }) k₁ slot rfl
    rw [heq]
    refine .block slot ?_
    obtain ⟨-, -, hproc⟩ := processAlloc_spec halloc
    have hslot : (k₁.processes slot).state = .ready := by
      rw [hproc, Function.update_self]
      rfl
    exact hslot
  refine wp_bind.mpr (wp_set.mpr (wp_bind.mpr (wp_onPart.mpr ?_)))
  refine Wp.mono (spawnInto_rosterRun _ _ _ _ _ ?_) (fun _ l hl => hblock.trans hl) fun _ l hl => hblock.trans hl
  simp [Kernel.setProcess]

theorem panelBootEnter_rosterRun (env : Env ρ) (memoryBase memorySize : Nat) (mapMmio : Option MapMmio)
    (hk : k.current = none) : Wp (panelBootEnter env memoryBase memorySize mapMmio) k (fun _ k' => RosterRun k k')
      fun _ k' => RosterRun k k' := by
  unfold panelBootEnter
  refine wp_bind.mpr (wp_modify.mpr ?_)
  have hrun := reclaimZombies_rosterRun k
  have hrec := reclaimZombies_spec k
  have hcur : (processReclaimZombies k).current = none := by
    rw [hrec.current, hk]
    rfl
  generalize processReclaimZombies k = k₀ at hrun hcur ⊢
  refine wp_bind.mpr (wp_get.mpr ?_)
  split
  · exact hrun
  rename_i slot k₁ halloc
  have hrun₁ := hrun.trans (processAlloc_rosterRun halloc)
  obtain ⟨-, hcur₁, hproc⟩ := processAlloc_spec halloc
  refine wp_bind.mpr (wp_set.mpr (wp_bind.mpr (wp_onPart.mpr ?_)))
  refine Wp.mono (loadProcess_roster _ _ _ _ _ _) (fun _ l hl => ?_) fun _ l hl => hrun₁.trans hl
  refine wp_bind.mpr (wp_modify.mpr (wp_bind.mpr (wp_modify.mpr (wp_pure.mpr ?_))))
  refine (hrun₁.trans (.of_eq hl)).trans (.single ?_)
  have hset := roster_setProcess (p := { l.kernel.processes slot with state := .running }) l.kernel slot rfl
  have hstart : RosterMove l.kernel.roster { l.kernel.roster.setState slot .running with current := some slot } := by
    refine .start slot ?_ ?_
    · have hstate : l.kernel.roster.state slot = k₁.roster.state slot := by rw [hl]
      have hslot : (k₁.processes slot).state = .ready := by
        rw [hproc, Function.update_self]
        rfl
      exact hstate.trans hslot
    · have hnone : l.kernel.roster.current = k₁.roster.current := by rw [hl]
      exact hnone.trans (hcur₁.trans hcur)
  rw [← hset] at hstart
  exact hstart

/-! ## Traps -/

theorem withCurrent_roster {f : Process → Process} (hf : ∀ p, (f p).pid = p.pid ∧ (f p).state = p.state)
    (k : Kernel ρ) : (withCurrent f k).roster = k.roster := by
  unfold withCurrent
  split
  · rfl
  · exact roster_setProcess_same k _ (hf _).1 (hf _).2

theorem spawnResult_rosterRun (path : Path) (entryIndex argvPtr argc : Nat) :
    RosterRun k (spawnResult env path entryIndex argvPtr argc k).2 := by
  have h := appSpawnVfs_rosterRun env path entryIndex argvPtr argc k
  unfold Wp at h
  unfold spawnResult
  split at h <;> rename_i heq <;> rw [heq]
  · dsimp only
    split <;> exact h
  · exact h

theorem sysWait_rosterRun (pid : UInt64) : RosterRun k (sysWait pid k).2 := by
  rcases sysWait_leaves pid k with heq | ⟨i, -, -, -, heq⟩ <;> rw [heq]
  · exact .refl
  · exact processRelease_rosterRun i k

theorem sysKill_rosterRun (pid : UInt64) : RosterRun k (sysKill env pid k).2 := by
  rcases sysKill_leaves env pid k with heq | ⟨i, hfind, -, -, heq⟩ <;> rw [heq]
  · exact .refl
  · exact processMarkExited_rosterRun _ (processFind_some hfind).1

theorem onCurrent_roster {m : SpaceM Int} (hm : Moves SpaceCtx m) : (onCurrent m k).2.roster = k.roster := by
  unfold onCurrent
  split
  · rfl
  rename_i i _
  have hslot : Moves SameRoster (onSlot i m : KernelM ρ Int) := onSlot_roster hm.spaceId
  have h := hslot k
  unfold Wp at h
  split at h <;> rename_i heq <;> rw [heq] <;> exact h

theorem simpleCall_rosterRun (env : Env ρ) (frame : Frame) (k : Kernel ρ) : RosterRun k (simpleCall env frame k).2 := by
  unfold simpleCall
  dsimp only
  split
  · exact .refl
  split
  · unfold sysSpawn
    split
    · exact .refl
    split
    · exact .refl
    · exact spawnResult_rosterRun _ _ _ _
  split
  · unfold sysSpawnArgv
    split
    · exact .refl
    split
    · exact .refl
    rename_i path _
    have hif : ∀ ok : Bool, RosterRun k (if ok then
        spawnResult env path (frame.arg 1).toNat (frame.arg 2).toNat (frame.arg 3).toNat k else (errInval, k)).2 := by
      intro ok
      cases ok with
      | true => exact spawnResult_rosterRun _ _ _ _
      | false => exact .refl
    exact hif _
  split
  · exact sysWait_rosterRun _
  split
  · exact sysKill_rosterRun _
  split
  · exact .of_eq (onCurrent_roster (userVmMapAnonymous_keeps _ _ _))
  split
  · exact .of_eq (onCurrent_roster (userVmUnmapAnonymous_keeps _ _))
  split
  · exact .refl
  · exact .of_eq rfl

theorem endCurrent_rosterRun (code : UInt64) (hat : AtUser k i) : RosterRun k (endCurrent env code regs k).2 := by
  have hexit : RosterRun k (processMarkExited env i code k) :=
    processMarkExited_rosterRun code (by rw [hat.running]; simp)
  have hmark : processMarkExited env i code k = { k.setProcess i
      { k.processes i with exitCode := code, state := .zombie } with
        rest := env.destroyWindows (k.processes i).pid k.rest } := by
    unfold processMarkExited
    dsimp only
    rw [if_neg (by rw [hat.running]; simp)]
  unfold endCurrent
  simp only [hat.current]
  split
  · rename_i next hd
    refine hexit.trans (dispatchNext_rosterRun (i := i) ?_ (fun _ => ?_) hd)
    · rw [hmark]
      exact hat.current
    · rw [hmark]
      simp [Kernel.setProcess]
  · exact hexit

/-- A change of the process that is running. -/
theorem AtUser.withCurrent {f : Process → Process} (hat : AtUser k i) (hf : ∀ p, (f p).state = p.state) :
    AtUser (withCurrent f k) i := by
  unfold Armonios.withCurrent
  rw [hat.current]
  refine ⟨hat.current, ?_⟩
  simp [Kernel.setProcess, hf, hat.running]

theorem syscallDispatch_rosterRun (hat : AtUser k i) : RosterRun k (syscallDispatch env regs k).2 := by
  have hsave : ∀ rest : ρ, (withCurrent (processSaveContext regs) { k with rest }).roster = k.roster :=
    fun rest => withCurrent_roster (f := processSaveContext regs) (fun _ => ⟨rfl, rfl⟩) { k with rest }
  have hat' : ∀ rest : ρ, AtUser (withCurrent (processSaveContext regs) { k with rest }) i :=
    fun rest => AtUser.withCurrent ⟨hat.current, hat.running⟩ fun _ => rfl
  have hsaved := RosterRun.of_eq (hsave (env.poll k regs))
  unfold syscallDispatch
  dsimp only
  refine RosterRun.trans ?_ (.of_eq (withCurrent_roster (f := saveReturn _) (fun _ => ⟨rfl, rfl⟩) _))
  split
  · exact hsaved.trans (endCurrent_rosterRun _ (hat' _))
  split
  · unfold sysYield
    dsimp only
    have hyield := withCurrent_roster (f := fun p => { p with regs := setReg 0 0 p.regs }) (fun _ => ⟨rfl, rfl⟩)
      (withCurrent (processSaveContext regs) { k with rest := env.poll k regs })
    have haty := (hat' (env.poll k regs)).withCurrent (f := fun p => { p with regs := setReg 0 0 p.regs }) fun _ => rfl
    rw [(hat' (env.poll k regs)).current]
    split
    · rename_i next hd
      exact (hsaved.trans (.of_eq hyield)).trans (dispatchNext_rosterRun haty.current (fun h => by cases h) hd)
    · exact hsaved.trans (.of_eq hyield)
  · exact hsaved.trans (simpleCall_rosterRun _ _ _)

theorem handleUserFault_rosterRun (hat : AtUser k i) : RosterRun k (handleUserFault env regs k).2 := by
  unfold handleUserFault
  have hsave := withCurrent_roster (f := processSaveContext regs) (fun _ => ⟨rfl, rfl⟩) k
  have hat' := hat.withCurrent (f := processSaveContext regs) fun _ => rfl
  exact (RosterRun.of_eq hsave).trans (endCurrent_rosterRun _ hat')

theorem irqHandlerFrame_rosterRun (irq : Option UInt32) (hat : AtUser k i) :
    RosterRun k (irqHandlerFrame env irq regs k).2 := by
  have hsave := withCurrent_roster (f := processSaveContext regs) (fun _ => ⟨rfl, rfl⟩) k
  have hat' := hat.withCurrent (f := processSaveContext regs) fun _ => rfl
  unfold irqHandlerFrame
  dsimp only
  split
  · exact .of_eq hsave
  rename_i n
  have hframe := withCurrent_roster (f := fun p => { p with pc := regs.elr, pstate := regs.spsr, sp := regs.spEl0 })
    (fun _ => ⟨rfl, rfl⟩) { withCurrent (processSaveContext regs) k with
      rest := env.irqWork (withCurrent (processSaveContext regs) k) n }
  have hatf : AtUser { withCurrent (processSaveContext regs) k with
      rest := env.irqWork (withCurrent (processSaveContext regs) k) n } i := ⟨hat'.current, hat'.running⟩
  have hatf' := hatf.withCurrent (f := fun p => { p with pc := regs.elr, pstate := regs.spsr, sp := regs.spEl0 })
    fun _ => rfl
  have hrun : RosterRun k (withCurrent (fun p => { p with pc := regs.elr, pstate := regs.spsr, sp := regs.spEl0 })
      { withCurrent (processSaveContext regs) k with
        rest := env.irqWork (withCurrent (processSaveContext regs) k) n }) :=
    (RosterRun.of_eq hsave).trans (.of_eq hframe)
  rw [hatf'.current]
  split
  · rename_i next hd
    exact hrun.trans (dispatchNext_rosterRun hatf'.current (fun h => by cases h) hd)
  · exact hrun

/-! ## Runs -/

/-- Every step of the machine is a sequence of moves. -/
theorem next_rosterRun {e : Event} (h : Placed m) (hstep : m.next env e = some m') :
    RosterRun m.kernel m'.kernel := by
  have hcpu := h.cpu
  unfold CpuPlace at hcpu
  cases e with
  | boot memoryBase memorySize mapMmio =>
    simp only [Machine.next] at hstep
    split at hstep
    · rename_i hc
      rw [hc] at hcpu
      have hspec := panelBootEnter_rosterRun env memoryBase memorySize mapMmio hcpu.1
      unfold Wp at hspec
      split at hspec <;> rename_i r k' heq <;> rw [heq] at hstep <;> cases hstep <;> exact hspec
    · cases hstep
  | launch x =>
    simp only [Machine.next] at hstep
    split at hstep <;> cases hstep
    exact .refl
  | run regs =>
    simp only [Machine.next] at hstep
    split at hstep
    · split at hstep <;> cases hstep
      exact .refl
    · cases hstep
  | svc =>
    simp only [Machine.next] at hstep
    split at hstep
    · rename_i regs hc
      rw [hc] at hcpu
      cases hstep
      obtain ⟨-, i, hat⟩ := hcpu
      exact syscallDispatch_rosterRun hat
    · cases hstep
  | fault =>
    simp only [Machine.next] at hstep
    split at hstep
    · rename_i regs hc
      rw [hc] at hcpu
      cases hstep
      obtain ⟨-, i, hat⟩ := hcpu
      exact handleUserFault_rosterRun hat
    · cases hstep
  | irq irq =>
    simp only [Machine.next] at hstep
    split at hstep
    · rename_i regs hc
      rw [hc] at hcpu
      cases hstep
      obtain ⟨-, i, hat⟩ := hcpu
      exact irqHandlerFrame_rosterRun irq hat
    · cases hstep
  | irqEl1 irq regs =>
    simp only [Machine.next] at hstep
    split at hstep
    · cases hstep
    rw [Option.map_eq_some_iff] at hstep
    obtain ⟨cpu, hback, rfl⟩ := hstep
    -- the handler runs with no process, or for the running one
    have hcase : m.kernel.current = none ∨ ∃ i, AtUser m.kernel i := by
      split at hcpu
      · exact .inl hcpu.1
      · exact .inr ⟨_, hcpu⟩
      · exact .inr hcpu.2
      · exact .inr hcpu
      · rename_i hc
        rw [hc] at hback
        cases hback
      · exact .inr hcpu
    rcases hcase with hnone | ⟨i, hat⟩
    · obtain ⟨rest, hkernel⟩ := irqHandlerFrame_idle env hnone irq regs
      refine .of_eq ?_
      dsimp only
      rw [hkernel]
      rfl
    · exact irqHandlerFrame_rosterRun irq hat
  | eret =>
    simp only [Machine.next] at hstep
    split at hstep <;> cases hstep
    exact .refl
  | leave =>
    simp only [Machine.next] at hstep
    split at hstep
    · cases hstep
      unfold panelBootLeave
      dsimp only
      refine RosterRun.trans ?_ (processRelease_rosterRun _ _)
      have hinstall : RosterRun m.kernel { m.kernel with
          ttbr0 := if m.kernelPageTable ≠ 0 then m.kernelPageTable else m.kernel.ttbr0 } := .of_eq rfl
      exact hinstall.trans (reclaimZombies_rosterRun _)
    · cases hstep

/-- What one move does to the table: it keeps the invariant, and the only way on for a zombie is the
release of its slot. -/
structure RosterStep (t t' : Roster) : Prop where
  move : RosterMove t t'
  ok : RosterOk t'
  zombie : ∀ i, t.state i = .zombie → t'.state i = .zombie ∨ t' = t.release i

theorem rosterRun_steps (ht : RosterOk t) (h : Run RosterMove t t') : RosterOk t' ∧ Run RosterStep t t' := by
  induction h with
  | refl => exact ⟨ht, .refl⟩
  | tail _ hmove ih =>
    obtain ⟨hok, hrun⟩ := ih
    exact ⟨hmove.ok hok, hrun.tail ⟨hmove, hmove.ok hok, fun _ => hmove.zombie⟩⟩

theorem machineRun_rosterOk {m₀ : Machine ρ} (hm : Booted m₀) (hcount : m₀.kernel.processCount = 0)
    (hrun : Run (machineStep env AnyEvent) m₀ m) : RosterOk m.kernel.roster := by
  have hstart : RosterOk m₀.kernel.roster := by
    have hunused : ∀ i, m₀.kernel.roster.state i = .unused := hm.unused
    refine ⟨fun i hi => absurd (hunused i) hi, fun i _ hi => absurd (hunused i) hi, ?_, fun i hi => ?_⟩
    · have hempty : m₀.kernel.roster.live = ∅ := by
        ext i
        simp [mem_live, hunused]
      rw [hempty]
      exact hcount
    · rw [hunused] at hi
      cases hi
  refine (hrun.invariant (fun m => Placed m ∧ RosterOk m.kernel.roster) (fun s t hs hst => ?_)
    ⟨hm.placed, hstart⟩).2
  obtain ⟨env', e, -, -, hnext⟩ := hst
  exact ⟨(next_placed hs.1 hnext).1, (rosterRun_steps hs.2 (next_rosterRun hs.1 hnext)).1⟩

/-- The process table in every state of every run, and how it gets to the next one. -/
theorem machineRun_roster {m₀ : Machine ρ} (hm : Booted m₀) (hcount : m₀.kernel.processCount = 0)
    (hrun : Run (machineStep env AnyEvent) m₀ m) :
    RosterOk m.kernel.roster ∧
      ∀ e m', m.next env e = some m' → Run RosterStep m.kernel.roster m'.kernel.roster := by
  have hok := machineRun_rosterOk hm hcount hrun
  refine ⟨hok, fun e m' hnext => ?_⟩
  exact (rosterRun_steps hok (next_rosterRun (machineRun_placed hm hrun) hnext)).2

/-- The panel has spawned a program and yields to it. -/
theorem machineRun_roster_sample : ∃ m : Machine Unit,
    Run (machineStep sampleEnv AnyEvent) sampleMachine m ∧ m.kernel.processCount = 2 ∧
      RosterOk m.kernel.roster ∧
      ∀ e m', m.next sampleEnv e = some m' → Run RosterStep m.kernel.roster m'.kernel.roster := by
  obtain ⟨m, hm, hf⟩ := exists_sampleRun sampleEvents (fun m => m.kernel.processCount) 2 (by decide +kernel)
  have hrun : Run (machineStep sampleEnv AnyEvent) sampleMachine m := Machine.run_steps (fun _ _ _ => trivial) hm
  exact ⟨m, hrun, hf, machineRun_roster sampleMachine_booted rfl hrun⟩

end Armonios
