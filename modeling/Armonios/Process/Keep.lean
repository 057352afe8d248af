import Armonios.Process.Machine

/-!
# What the process functions keep

The saved context of a process is changed by few functions: the ones that start it and the ones that
save a frame. Everything else leaves it alone, in the process that it works on and in all others.

* `userVmMapAnonymous_keeps`, `userVmUnmapAnonymous_keeps`, ...: the functions on user memory;
* `loadProcess_spec`, `appSpawnVfs_spec`: a program that is started gets an EL0 context in its slot.
-/

namespace Armonios

variable {ρ : Type} {env : Env ρ} {k k' k'' : Kernel ρ} {slot : SlotId}

/-- The saved context, the pid and the state of a process are the same. -/
structure SameCtx (p p' : Process) : Prop where
  regs : p'.regs = p.regs
  sp : p'.sp = p.sp
  pc : p'.pc = p.pc
  pstate : p'.pstate = p.pstate
  state : p'.state = p.state
  pid : p'.pid = p.pid

theorem SameCtx.refl (p : Process) : SameCtx p p := ⟨rfl, rfl, rfl, rfl, rfl, rfl⟩

theorem SameCtx.trans {p p' p'' : Process} (h : SameCtx p p') (h' : SameCtx p' p'') : SameCtx p p'' :=
  ⟨h'.regs.trans h.regs, h'.sp.trans h.sp, h'.pc.trans h.pc, h'.pstate.trans h.pstate, h'.state.trans h.state,
    h'.pid.trans h.pid⟩

theorem SameCtx.load {p p' : Process} (h : SameCtx p p') : processLoadContext p' = processLoadContext p := by
  unfold processLoadContext
  rw [h.regs, h.pc, h.pstate, h.sp]

/-! ## User memory -/

def SpaceCtx (s s' : Space) : Prop := SameCtx s.process s'.process

instance : Std.Refl SpaceCtx := ⟨fun s => .refl s.process⟩

instance : IsTrans Space SpaceCtx := ⟨fun _ _ _ h h' => SameCtx.trans h h'⟩

/-- A function of the regions. -/
def OfRegions (f : Process → Option Process) : Prop :=
  ∀ p p', f p = some p' → ∃ regions, p' = { p with userRegions := regions }

theorem addUserRegion_ofRegions (start size : Nat) : OfRegions (processAddUserRegion start size) := by
  intro p p' h
  unfold processAddUserRegion at h
  split at h
  · cases h
  · split at h
    · cases h
    · split at h
      · cases h
      · exact ⟨_, (Option.some.inj h).symm⟩

theorem setUserRegionMapping_ofRegions (start size paddr flags : Nat) :
    OfRegions (processSetUserRegionMapping start size paddr flags) := by
  intro p p' h
  unfold processSetUserRegionMapping at h
  split at h
  · cases h
  · exact ⟨_, (Option.some.inj h).symm⟩

theorem removeUserRegion_ofRegions (start size : Nat) : OfRegions (processRemoveUserRegion start size) := by
  intro p p' h
  unfold processRemoveUserRegion at h
  split at h
  · cases h
  · exact ⟨_, (Option.some.inj h).symm⟩

theorem allocUserRegion_keeps {size addr : Nat} {p p' : Process}
    (h : processAllocUserRegion size p = some (addr, p')) : SameCtx p p' := by
  unfold processAllocUserRegion at h
  split at h
  · cases h
  simp only at h
  split at h
  · cases h
  split at h
  · cases h
  split at h
  · cases h
  split at h
  · cases h
  split at h
  · cases h
  · rename_i q hq
    obtain ⟨regions, rfl⟩ := addUserRegion_ofRegions _ _ p q hq
    cases h
    exact ⟨rfl, rfl, rfl, rfl, rfl, rfl⟩

theorem onVm_keeps {α : Type} (m : VmM α) : Moves SpaceCtx (onVm m) := by
  intro s
  refine wp_onPart.mpr ?_
  unfold Wp
  split <;> exact SameCtx.refl s.process

theorem onProcess_keeps {f : Process → Option Process} (h : OfRegions f) : Moves SpaceCtx (onProcess f) := by
  intro s
  unfold Wp onProcess
  cases hf : f s.process with
  | none => exact SameCtx.refl s.process
  | some p =>
    obtain ⟨regions, rfl⟩ := h _ _ hf
    exact ⟨rfl, rfl, rfl, rfl, rfl, rfl⟩

theorem Moves.ignoring {σ α : Type} {R : σ → σ → Prop} {m : EStateM Unit σ α} (h : Moves R m) :
    Moves R (ignoring m) := by
  intro s
  have hs := h s
  unfold Wp at hs
  unfold Wp Armonios.ignoring
  split at hs <;> rename_i heq <;> rw [heq] <;> exact hs

theorem undoMapping_keeps (addr size paddr : Nat) : Moves SpaceCtx (undoMapping addr size paddr) := by
  refine Moves.get_bind fun s => Moves.bind (onVm_keeps _).ignoring fun _ => ?_
  exact Moves.bind (onProcess_keeps (removeUserRegion_ofRegions addr size)).ignoring fun _ => onVm_keeps _

theorem userVmMapAnonymous_keeps (hint size flags : Nat) : Moves SpaceCtx (userVmMapAnonymous hint size flags) := by
  intro s
  unfold userVmMapAnonymous
  refine wp_bind.mpr (wp_get.mpr ?_)
  split
  · exact SameCtx.refl s.process
  refine wp_ite (fun _ => SameCtx.refl s.process) fun _ => ?_
  split
  · exact SameCtx.refl s.process
  rename_i addr p hp
  have hkeep := allocUserRegion_keeps hp
  -- from here on the process is `p`
  have hrest : ∀ {m : SpaceM Int}, Moves SpaceCtx m →
      Wp m { s with process := p } (fun _ s' => SpaceCtx s s') fun _ s' => SpaceCtx s s' := fun hm =>
    Wp.mono (hm _) (fun _ _ h => hkeep.trans h) fun _ _ h => hkeep.trans h
  refine wp_bind.mpr (wp_modify.mpr (hrest (Moves.bind (onVm_keeps _) fun paddr => ?_)))
  split
  · exact Moves.bind (onProcess_keeps (removeUserRegion_ofRegions _ _)).ignoring fun _ => Moves.pure _
  refine Moves.bind (onVm_keeps _).attempt fun r => ?_
  cases r with
  | none => exact Moves.bind (undoMapping_keeps _ _ _) fun _ => Moves.pure _
  | some _ =>
    refine Moves.bind (onProcess_keeps (setUserRegionMapping_ofRegions _ _ _ _)).attempt fun r => ?_
    cases r with
    | none => exact Moves.bind (undoMapping_keeps _ _ _) fun _ => Moves.pure _
    | some _ => exact Moves.pure _

theorem userVmUnmapAnonymous_keeps (addr size : Nat) : Moves SpaceCtx (userVmUnmapAnonymous addr size) := by
  refine Moves.get_bind fun s => ?_
  dsimp only
  split
  · exact Moves.pure _
  split
  · exact Moves.pure _
  split
  · exact Moves.pure _
  refine Moves.bind (onVm_keeps _).attempt fun r => ?_
  cases r with
  | none => exact Moves.pure _
  | some _ =>
    refine Moves.bind (onProcess_keeps (removeUserRegion_ofRegions _ _)).attempt fun r => ?_
    cases r with
    | none => exact Moves.pure _
    | some _ => exact Moves.bind (onVm_keeps _) fun _ => Moves.pure _

theorem userVmMapPhysical_keeps (vaddr paddr size flags : Nat) :
    Moves SpaceCtx (userVmMapPhysical vaddr paddr size flags) := by
  refine Moves.get_bind fun s => ?_
  split
  · exact Moves.error _
  refine Moves.guard ?_
  refine Moves.bind (onVm_keeps _).attempt fun r => ?_
  cases r with
  | none => exact Moves.bind (onVm_keeps _).ignoring fun _ => Moves.error _
  | some _ =>
    refine Moves.bind (onProcess_keeps (setUserRegionMapping_ofRegions _ _ _ _)).attempt fun r => ?_
    cases r with
    | none => exact Moves.bind (onVm_keeps _).ignoring fun _ => Moves.error _
    | some _ => exact Moves.pure _

theorem createPanelPageTable_keeps (image : UserImage)
    (imagePaddr stackVaddr stackPaddr stackSize memoryBase memorySize : Nat) (mapMmio : Option MapMmio) :
    Moves SpaceCtx (createPanelPageTable image imagePaddr stackVaddr stackPaddr stackSize memoryBase memorySize
      mapMmio) := by
  refine Moves.bind (onVm_keeps _) fun pgd => Moves.bind (onVm_keeps _).attempt fun r => ?_
  cases r with
  | none => exact Moves.bind (onVm_keeps _) fun _ => Moves.error _
  | some _ =>
    refine Moves.bind (Moves.modify fun s => ⟨rfl, rfl, rfl, rfl, rfl, rfl⟩) fun _ => ?_
    exact Moves.bind (userVmMapPhysical_keeps _ _ _ _) fun _ => userVmMapPhysical_keeps _ _ _ _

/-! ## One slot -/

/-- At most the process in `slot` has changed, which was not the current one. -/
def Elsewhere (slot : SlotId) (k k' : Kernel ρ) : Prop :=
  k.current ≠ some slot → k'.current = k.current ∧ ∀ j, j ≠ slot → k'.processes j = k.processes j

instance : Std.Refl (Elsewhere slot : Kernel ρ → Kernel ρ → Prop) := ⟨fun _ _ => ⟨rfl, fun _ _ => rfl⟩⟩

instance : IsTrans (Kernel ρ) (Elsewhere slot) := ⟨fun _ _ _ h h' hk => by
  obtain ⟨h1, h2⟩ := h hk
  obtain ⟨h3, h4⟩ := h' (by rw [h1]; exact hk)
  exact ⟨h3.trans h1, fun j hj => (h4 j hj).trans (h2 j hj)⟩⟩

def LoaderElsewhere (slot : SlotId) (l l' : Loader ρ) : Prop := Elsewhere slot l.kernel l'.kernel

instance : Std.Refl (LoaderElsewhere slot : Loader ρ → Loader ρ → Prop) :=
  ⟨fun l => Std.Refl.refl (r := Elsewhere slot) l.kernel⟩

instance : IsTrans (Loader ρ) (LoaderElsewhere slot) :=
  ⟨fun a b c h h' => IsTrans.trans (r := Elsewhere slot) a.kernel b.kernel c.kernel h h'⟩

theorem onSlot_elsewhere {α : Type} (m : SpaceM α) : Moves (Elsewhere slot) (onSlot slot m : KernelM ρ α) := by
  intro k
  refine wp_onPart.mpr ?_
  unfold Wp
  split <;> exact fun _ => ⟨rfl, fun j hj => Function.update_of_ne hj _ _⟩

theorem onKernelPmm_elsewhere {α : Type} (f : Pmm → α × Pmm) :
    Moves (Elsewhere slot) (onKernelPmm f : KernelM ρ α) :=
  fun _ _ => ⟨rfl, fun _ _ => rfl⟩

theorem processRelease_elsewhere (slot : SlotId) (k : Kernel ρ) : Elsewhere slot k (processRelease slot k) := by
  intro hk
  unfold processRelease
  dsimp only
  split
  · exact ⟨rfl, fun _ _ => rfl⟩
  · exact ⟨rfl, fun j hj => Function.update_of_ne hj _ _⟩

theorem processRelease_unused (slot : SlotId) (k : Kernel ρ) :
    ((processRelease slot k).processes slot).state = .unused := by
  unfold processRelease
  dsimp only
  split
  · rename_i h
    exact h.1
  · simp

/-- A relation that every step of the loader for `slot` keeps. -/
structure LoaderSteps (slot : SlotId) (R : Loader ρ → Loader ρ → Prop) : Prop where
  pmm : ∀ {α : Type} (f : Pmm → α × Pmm), Moves R (onKernel (onKernelPmm f))
  space : ∀ {α : Type} (m : SpaceM α), Moves R (onKernel (onSlot slot m))
  storage : ∀ g : Loader ρ → PanelUserStorage, Moves R (modify fun l => { l with storage := g l } : LoaderM ρ PUnit)
  release : Moves R (onKernel (modify (processRelease slot)) : LoaderM ρ PUnit)

section Steps

variable {R : Loader ρ → Loader ρ → Prop} [Std.Refl R] [IsTrans (Loader ρ) R]

omit [Std.Refl R] in
theorem LoaderSteps.freeUserStorage (h : LoaderSteps slot R) : Moves R (freeUserStorage : LoaderM ρ Unit) := by
  refine Moves.get_bind fun l => Moves.bind (h.pmm _) fun _ => ?_
  split
  · exact Moves.bind (h.pmm _) fun _ => h.storage _
  · exact h.storage _

theorem LoaderSteps.loadNamedImage (h : LoaderSteps slot R) (name : Path) (entryIndex : Nat) :
    Moves R (loadNamedImage env name slot entryIndex) := by
  refine Moves.get_bind fun l => ?_
  refine Moves.guard ?_
  refine Moves.bind (h.pmm _) fun imagePaddr => ?_
  refine Moves.guard ?_
  split
  · exact Moves.bind (h.pmm _) fun _ => Moves.error _
  · exact Moves.bind (h.storage _) fun _ => Moves.pure _

theorem LoaderSteps.initPanelProcess (h : LoaderSteps slot R) (image : UserImage) (memoryBase memorySize : Nat)
    (mapMmio : Option MapMmio) :
    Moves R (initPanelProcess slot image memoryBase memorySize mapMmio : LoaderM ρ Unit) := by
  refine Moves.get_bind fun l => ?_
  refine Moves.guard ?_
  refine Moves.bind (h.pmm _) fun stackPaddr => Moves.bind (h.storage _) fun _ => ?_
  refine Moves.guard ?_
  refine Moves.bind (h.space _) fun _ => Moves.get_bind fun l => ?_
  refine Moves.bind (h.space _) fun _ => Moves.bind (h.space _) fun _ => ?_
  exact Moves.bind (h.storage _) fun _ => h.space _

theorem LoaderSteps.loadProcess (h : LoaderSteps slot R) (name : Path) (entryIndex memoryBase memorySize : Nat)
    (mapMmio : Option MapMmio) :
    Moves R (loadProcess env name slot entryIndex memoryBase memorySize mapMmio) := by
  have habandon : Moves R (abandon slot : LoaderM ρ Unit) :=
    Moves.bind h.release fun _ => Moves.bind h.freeUserStorage fun _ => Moves.error _
  refine Moves.bind (h.loadNamedImage name entryIndex).attempt fun r => ?_
  cases r with
  | none => exact habandon
  | some image =>
    refine Moves.bind (h.initPanelProcess image _ _ _).attempt fun r => ?_
    cases r with
    | none => exact habandon
    | some _ => exact Moves.pure _

end Steps

theorem loaderSteps_elsewhere : LoaderSteps slot (LoaderElsewhere slot : Loader ρ → Loader ρ → Prop) where
  pmm f := (onKernelPmm_elsewhere f).onPart fun _ _ hk => hk
  space m := (onSlot_elsewhere m).onPart fun _ _ hk => hk
  storage _ := Moves.modify fun l => Std.Refl.refl (r := Elsewhere slot) l.kernel
  release := (Moves.modify (processRelease_elsewhere slot)).onPart fun _ _ hk => hk

/-! ## Starting a process -/

/-- A process that is being started: it has its EL0 program status and the state it had. -/
structure Entered (p p' : Process) : Prop where
  pstate : p'.pstate = spsrEl0t
  state : p'.state = p.state

theorem Entered.same {p p' p'' : Process} (h : Entered p p') (h' : SameCtx p' p'') : Entered p p'' :=
  ⟨h'.pstate.trans h.pstate, h'.state.trans h.state⟩

theorem prepareProcess_enters (image : UserImage) (stackStart stackSize : Nat) (s : Space) :
    Wp (userImagePrepareProcess image stackStart stackSize spsrEl0t) s
      (fun _ s' => Entered s.process s'.process) fun _ _ => True := by
  unfold userImagePrepareProcess
  refine wp_guard (fun _ => trivial) fun _ => wp_bind.mpr (wp_get.mpr (wp_bind.mpr (wp_modify.mpr ?_)))
  have hfirst : Entered s.process
      (processSetEntry (UInt64.ofNat (userImageEntry image)) (UInt64.ofNat (stackStart + stackSize)) spsrEl0t
        s.process) := ⟨rfl, rfl⟩
  refine wp_bind.mpr (Wp.mono ((onProcess_keeps (addUserRegion_ofRegions _ _)).attempt _) ?_ fun _ _ _ => trivial)
  intro r s₁ h₁
  have h₁ := hfirst.same h₁
  cases r with
  | none => exact trivial
  | some _ =>
    refine wp_bind.mpr (Wp.mono ((onProcess_keeps (addUserRegion_ofRegions _ _)).attempt s₁) ?_ fun _ _ _ => trivial)
    intro r s₂ h₂
    cases r with
    | none =>
      refine wp_bind.mpr (Wp.mono ((onProcess_keeps (removeUserRegion_ofRegions _ _)).ignoring s₂) ?_ ?_)
      · exact fun _ _ _ => trivial
      · exact fun _ _ _ => trivial
    | some _ => exact h₁.same h₂

/-- The process in the slot has kept its context. -/
def SlotCtx (slot : SlotId) (l l' : Loader ρ) : Prop :=
  SameCtx (l.kernel.processes slot) (l'.kernel.processes slot)

instance : Std.Refl (SlotCtx slot : Loader ρ → Loader ρ → Prop) := ⟨fun l => .refl (l.kernel.processes slot)⟩

instance : IsTrans (Loader ρ) (SlotCtx slot) := ⟨fun _ _ _ h h' => SameCtx.trans h h'⟩

theorem onSlot_slotCtx {α : Type} {m : SpaceM α} (h : Moves SpaceCtx m) :
    Moves (SlotCtx slot) (onKernel (onSlot slot m) : LoaderM ρ α) := by
  have hput : ∀ (k : Kernel ρ) s, SpaceCtx ⟨k.vm, k.processes slot⟩ s →
      SameCtx (k.processes slot) ((Function.update k.processes slot s.process) slot) := by
    intro k s hs
    rw [Function.update_self]
    exact hs
  have hslot : Moves (fun k k' : Kernel ρ => SameCtx (k.processes slot) (k'.processes slot)) (onSlot slot m) :=
    h.onPart fun k s hs => hput k s hs
  exact hslot.onPart fun _ _ hk => hk

theorem loadNamedImage_slotCtx (name : Path) (entryIndex : Nat) :
    Moves (SlotCtx slot) (loadNamedImage env name slot entryIndex) := by
  have hpmm : ∀ {α : Type} (f : Pmm → α × Pmm), Moves (SlotCtx slot) (onKernel (onKernelPmm f) : LoaderM ρ α) :=
    fun f l => SameCtx.refl (l.kernel.processes slot)
  refine Moves.get_bind fun l => ?_
  refine Moves.guard ?_
  refine Moves.bind (hpmm _) fun imagePaddr => ?_
  refine Moves.guard ?_
  split
  · exact Moves.bind (hpmm _) fun _ => Moves.error _
  · exact Moves.bind (Moves.modify fun l => SameCtx.refl (l.kernel.processes slot)) fun _ => Moves.pure _

theorem initPanelProcess_enters (image : UserImage) (memoryBase memorySize : Nat) (mapMmio : Option MapMmio)
    (l : Loader ρ) : Wp (initPanelProcess slot image memoryBase memorySize mapMmio) l
      (fun _ l' => Entered (l.kernel.processes slot) (l'.kernel.processes slot)) fun _ _ => True := by
  have hstore : ∀ g : Loader ρ → PanelUserStorage, Moves (SlotCtx slot)
      (modify fun l => { l with storage := g l } : LoaderM ρ PUnit) :=
    fun g => Moves.modify fun l => SameCtx.refl (l.kernel.processes slot)
  unfold initPanelProcess
  refine wp_bind.mpr (wp_get.mpr (wp_guard (fun _ => trivial) fun _ => wp_bind.mpr ?_))
  refine wp_onPart.mpr (wp_onPart.mpr (wp_bind.mpr (wp_modify.mpr (wp_guard (fun _ => trivial) fun _ => ?_))))
  refine wp_bind.mpr (wp_onPart.mpr (wp_onPart.mpr ?_))
  refine Wp.mono (prepareProcess_enters _ _ _ _) (fun _ s hs => ?_) fun _ _ _ => trivial
  -- the rest keeps the context
  have hrest : Moves (SlotCtx slot) (do
      let imagePaddr := (← get).storage.imagePaddr
      onKernel (onSlot slot (createPanelPageTable image imagePaddr (panelStackVaddr slot)
        (pmmAllocPages kernelUserStackPages l.kernel.vm.pmm).1 kernelUserStackSize memoryBase memorySize mapMmio))
      onKernel (onSlot slot (onProcess
        (processSetUserRegionMapping image.base image.size imagePaddr processUserRegionOwnedPages)))
      modify fun l => { l with storage := { l.storage with imagePaddr := 0 } }
      onKernel (onSlot slot (onProcess (processSetUserRegionMapping (panelStackVaddr slot) kernelUserStackSize
        (pmmAllocPages kernelUserStackPages l.kernel.vm.pmm).1 processUserRegionOwnedPages))) : LoaderM ρ Unit) := by
    refine Moves.get_bind fun l => Moves.bind (onSlot_slotCtx (createPanelPageTable_keeps _ _ _ _ _ _ _ _)) fun _ => ?_
    refine Moves.bind (onSlot_slotCtx (onProcess_keeps (setUserRegionMapping_ofRegions _ _ _ _))) fun _ => ?_
    exact Moves.bind (hstore _) fun _ => onSlot_slotCtx (onProcess_keeps (setUserRegionMapping_ofRegions _ _ _ _))
  refine Wp.mono (hrest _) (fun _ l' hl' => ?_) fun _ _ _ => trivial
  refine Entered.same ?_ hl'
  simpa using hs

/-- The loader gives the process its EL0 context, or releases the slot. -/
theorem loadProcess_spec (name : Path) (entryIndex memoryBase memorySize : Nat) (mapMmio : Option MapMmio)
    (l : Loader ρ) : Wp (loadProcess env name slot entryIndex memoryBase memorySize mapMmio) l
      (fun _ l' => Entered (l.kernel.processes slot) (l'.kernel.processes slot))
      fun _ l' => (l'.kernel.processes slot).state = .unused := by
  have habandon : ∀ l : Loader ρ, Wp (abandon slot : LoaderM ρ Unit) l (fun _ _ => False)
      fun _ l' => (l'.kernel.processes slot).state = .unused := by
    intro l
    have hfree : Moves (fun l l' : Loader ρ => l'.kernel.processes = l.kernel.processes)
        (freeUserStorage : LoaderM ρ Unit) := by
      intro l
      unfold freeUserStorage
      refine wp_bind.mpr (wp_get.mpr (wp_bind.mpr (wp_onPart.mpr (wp_onPart.mpr (wp_onPmm.mpr ?_)))))
      split
      · exact wp_bind.mpr (wp_onPart.mpr (wp_onPart.mpr (wp_onPmm.mpr (wp_modify.mpr rfl))))
      · exact wp_modify.mpr rfl
    refine wp_bind.mpr (wp_onPart.mpr (wp_modify.mpr (wp_bind.mpr ?_)))
    refine Wp.mono (hfree _) (fun _ l' h => ?_) fun _ l' h => ?_
    · refine wp_throw.mpr ?_
      rw [h]
      exact processRelease_unused slot l.kernel
    · rw [h]
      exact processRelease_unused slot l.kernel
  unfold loadProcess
  refine wp_bind.mpr (wp_attempt_all.mpr (Wp.mono (loadNamedImage_slotCtx name entryIndex l) ?_ ?_))
  · intro image l₁ h₁
    refine wp_bind.mpr (wp_attempt_all.mpr (Wp.mono (initPanelProcess_enters image _ _ _ l₁) ?_ ?_))
    · intro _ l₂ h₂
      exact ⟨h₂.pstate, h₂.state.trans h₁.state⟩
    · intro _ l₂ _
      exact Wp.mono (habandon l₂) (fun _ _ h => h.elim) fun _ _ h => h
  · intro _ l₁ _
    exact Wp.mono (habandon l₁) (fun _ _ h => h.elim) fun _ _ h => h

theorem spawnInto_spec (name : Path) (entryIndex argvPtr argc : Nat) (l : Loader ρ) :
    Wp (spawnInto env name slot entryIndex argvPtr argc) l
      (fun _ l' => Elsewhere slot l.kernel l'.kernel ∧ (l'.kernel.processes slot).state = .ready ∧
        (l'.kernel.processes slot).pstate = spsrEl0t)
      fun _ l' => Elsewhere slot l.kernel l'.kernel ∧ (l'.kernel.processes slot).state = .unused := by
  unfold spawnInto
  refine wp_bind.mpr (wp_get.mpr (wp_bind.mpr ?_))
  refine Wp.mono (Wp.and (loaderSteps_elsewhere.loadProcess _ _ _ _ _ l)
    (loadProcess_spec _ _ _ _ _ l)) ?_ fun _ _ h => h
  intro _ l₁ h
  obtain ⟨helse, hent⟩ := h
  refine wp_bind.mpr (wp_get.mpr ?_)
  split
  · refine wp_bind.mpr (wp_onPart.mpr (wp_modify.mpr (wp_throw.mpr ⟨?_, processRelease_unused slot l₁.kernel⟩)))
    exact IsTrans.trans (r := Elsewhere slot) _ _ _ helse (processRelease_elsewhere slot l₁.kernel)
  · refine wp_onPart.mpr (wp_modify.mpr ⟨?_, ?_, ?_⟩)
    · refine IsTrans.trans (r := Elsewhere slot) _ _ _ helse fun _ => ⟨rfl, fun j hj => ?_⟩
      exact Function.update_of_ne hj _ _
    · simp [Kernel.setProcess]
    · have hargs : ∀ n m (p : Process), (setArguments n m p).pstate = p.pstate := by
        intro n m p
        unfold setArguments
        dsimp only
        split <;> rfl
      simpa [Kernel.setProcess, hargs] using hent.pstate

/-! ## The process table -/

/-- A slot without a process. -/
def freeSlot : Process := { processInit 0 [] with state := .unused }

theorem processRelease_zombie {i : SlotId} (h : (k.processes i).state = .zombie) :
    (processRelease i k).processes = Function.update k.processes i freeSlot ∧
      (processRelease i k).current = if k.current = some i then none else k.current := by
  unfold processRelease
  dsimp only
  rw [if_neg (by rw [h]; simp)]
  exact ⟨rfl, rfl⟩

theorem foldl_release (l : List SlotId) (k : Kernel ρ) (j : SlotId) :
    (l.foldl (fun k i => if (k.processes i).state = .zombie then processRelease i k else k) k).processes j =
      if j ∈ l ∧ (k.processes j).state = .zombie then freeSlot else k.processes j := by
  induction l generalizing k with
  | nil => simp
  | cons i l ih =>
    rw [List.foldl_cons, ih]
    by_cases hi : (k.processes i).state = .zombie
    · rw [if_pos hi, (processRelease_zombie hi).1]
      by_cases hji : j = i
      · subst hji
        simp [hi, freeSlot]
      · simp [hji]
    · rw [if_neg hi]
      by_cases hji : j = i
      · subst hji
        simp [hi]
      · simp [hji]

theorem foldl_release_current (l : List SlotId) (k : Kernel ρ) :
    (l.foldl (fun k i => if (k.processes i).state = .zombie then processRelease i k else k) k).current =
      k.current.filter fun i => decide ¬(i ∈ l ∧ (k.processes i).state = .zombie) := by
  induction l generalizing k with
  | nil => cases h : k.current <;> simp [Option.filter, h]
  | cons i l ih =>
    rw [List.foldl_cons]
    by_cases hi : (k.processes i).state = .zombie
    · obtain ⟨hproc, hcur⟩ := processRelease_zombie hi
      rw [if_pos hi, ih, hproc, hcur]
      cases hc : k.current with
      | none => simp
      | some c =>
        by_cases hci : c = i
        · subst hci
          simp [Option.filter, hi]
        · simp [Option.filter, hci]
    · rw [if_neg hi, ih]
      cases hc : k.current with
      | none => rfl
      | some c =>
        by_cases hci : c = i
        · subst hci
          simp [Option.filter, hi]
        · simp [Option.filter, hci]

/-- The zombies are gone. -/
structure Reclaimed (k k' : Kernel ρ) : Prop where
  processes : ∀ j, k'.processes j = if (k.processes j).state = .zombie then freeSlot else k.processes j
  current : k'.current = k.current.filter fun i => decide ((k.processes i).state ≠ .zombie)

theorem reclaimZombies_spec (k : Kernel ρ) : Reclaimed k (processReclaimZombies k) := by
  refine ⟨fun j => ?_, ?_⟩
  · unfold processReclaimZombies
    rw [foldl_release]
    simp [slots]
  · unfold processReclaimZombies
    rw [foldl_release_current]
    simp [slots]

theorem Reclaimed.current_eq (h : Reclaimed k k')
    (hk : ∀ i, k.current = some i → (k.processes i).state = .running) : k'.current = k.current := by
  rw [h.current]
  cases hc : k.current with
  | none => rfl
  | some i => simp [Option.filter, hk i hc]

/-- `process_alloc` takes an unused slot. -/
theorem processAlloc_spec {pid : Nat} {name : Path} (h : processAlloc pid name k = some (slot, k')) :
    (k.processes slot).state = .unused ∧ k'.current = k.current ∧
      k'.processes = Function.update k.processes slot (processInit pid name) := by
  unfold processAlloc at h
  split at h
  · cases h
  · split at h
    · cases h
    · rename_i i hi
      cases h
      exact ⟨by simpa using List.find?_some hi, rfl, rfl⟩

/-- What a system call does to the contexts of the processes: the running process keeps its own, and
every ready process has the one it had or was started in the call. -/
structure Calm (k k' : Kernel ρ) : Prop where
  current : ∀ i, k.current = some i → (k.processes i).state = .running →
    k'.current = some i ∧ SameCtx (k.processes i) (k'.processes i)
  ready : ∀ j, (k'.processes j).state = .ready → SameCtx (k.processes j) (k'.processes j) ∨
    (spawned k k' j = true ∧ isEl0t (k'.processes j).pstate = true)

theorem Calm.refl (k : Kernel ρ) : Calm k k := ⟨fun _ hi _ => ⟨hi, .refl _⟩, fun _ _ => .inl (.refl _)⟩

theorem Calm.of_processes (hc : k'.current = k.current) (hp : k'.processes = k.processes) : Calm k k' := by
  refine ⟨fun i hi _ => ⟨by rw [hc, hi], ?_⟩, fun j _ => .inl ?_⟩
  · rw [hp]
    exact .refl _
  · rw [hp]
    exact .refl _

/-- A process other than the running one leaves the table or becomes a zombie. -/
theorem Calm.ended {i : SlotId} {p : Process} (hi : k.current ≠ some i) (hp : p.state ≠ .ready)
    (hc : k'.current = k.current) (h : k'.processes = Function.update k.processes i p) : Calm k k' := by
  refine ⟨fun c hc' _ => ⟨by rw [hc, hc'], ?_⟩, fun j hj => ?_⟩
  · have hci : c ≠ i := fun he => hi (he ▸ hc')
    rw [h, Function.update_of_ne hci]
    exact .refl _
  · rw [h] at hj ⊢
    by_cases hji : j = i
    · subst hji
      rw [Function.update_self] at hj
      exact absurd hj hp
    · rw [Function.update_of_ne hji]
      exact .inl (.refl _)

/-- The zombies are gone, and of the other slots at most `slot`, which had no process, has changed. -/
structure Retaken (slot : SlotId) (k k' : Kernel ρ) : Prop where
  was : (k.processes slot).state = .unused ∨ (k.processes slot).state = .zombie
  others : ∀ j, j ≠ slot → k'.processes j = if (k.processes j).state = .zombie then freeSlot else k.processes j

/-- The table after the zombies are gone and `slot` was given to a new process or not. -/
theorem Retaken.calm (h : Retaken slot k k') (hcur : k'.current = k.current)
    (hnew : (k'.processes slot).state = .unused ∨
      ((k'.processes slot).state = .ready ∧ (k'.processes slot).pstate = spsrEl0t)) : Calm k k' := by
  obtain ⟨hslot, hother⟩ := h
  refine ⟨fun i hi hrun => ⟨by rw [hcur, hi], ?_⟩, fun j hj => ?_⟩
  · have his : i ≠ slot := by
      rintro rfl
      rw [hrun] at hslot
      simp at hslot
    rw [hother i his, if_neg (by rw [hrun]; simp)]
    exact .refl _
  · by_cases hjs : j = slot
    · subst hjs
      rcases hnew with h | ⟨hr, hps⟩
      · rw [h] at hj
        cases hj
      · refine .inr ⟨?_, by rw [hps]; decide⟩
        unfold spawned
        rcases hslot with h | h <;> simp [hr, h]
    · rw [hother j hjs] at hj ⊢
      split at hj
      · cases hj
      · rename_i hz
        rw [if_neg hz]
        exact .inl (.refl _)

/-- The calls of `app_spawn_vfs` and `panel_boot_run` up to the loader: the zombies are gone and `slot` is
new. -/
theorem Reclaimed.alloc {pid : Nat} {name : Path} (h : Reclaimed k k') (hc : k'.current = k.current)
    (hk : ∀ i, k.current = some i → (k.processes i).state = .running)
    (ha : processAlloc pid name k' = some (slot, k'')) :
    ((k.processes slot).state = .unused ∨ (k.processes slot).state = .zombie) ∧ k''.current = k.current ∧
      k.current ≠ some slot ∧ k''.processes slot = processInit pid name ∧
      ∀ j, j ≠ slot → k''.processes j = if (k.processes j).state = .zombie then freeSlot else k.processes j := by
  obtain ⟨hun, hcur, hproc⟩ := processAlloc_spec ha
  have hslot : (k.processes slot).state = .unused ∨ (k.processes slot).state = .zombie := by
    rw [h.processes] at hun
    split at hun
    · exact .inr ‹_›
    · exact .inl hun
  refine ⟨hslot, hcur.trans hc, fun hc => ?_, ?_, fun j hj => ?_⟩
  · rw [hk slot hc] at hslot
    simp at hslot
  · rw [hproc, Function.update_self]
  · rw [hproc, Function.update_of_ne hj]
    exact h.processes j

/-- Only the zombies are gone. -/
theorem Reclaimed.calm (h : Reclaimed k k') (hc : k'.current = k.current) : Calm k k' := by
  refine ⟨fun i hi hrun => ⟨hc.trans hi, ?_⟩, fun j hj => ?_⟩
  · rw [h.processes, if_neg (by rw [hrun]; simp)]
    exact .refl _
  · rw [h.processes] at hj ⊢
    split at hj
    · cases hj
    · rename_i hz
      rw [if_neg hz]
      exact .inl (.refl _)

/-- What `app_spawn_vfs` does to the table. -/
inductive SpawnOutcome (k k' : Kernel ρ) : Prop
  | same (current : k'.current = k.current) (processes : k'.processes = k.processes)
  | reclaimed (zombies : Reclaimed k k') (current : k'.current = k.current)
  | loaded (slot : SlotId) (taken : Retaken slot k k') (current : k'.current = k.current)
      (new : (k'.processes slot).state = .unused ∨
        ((k'.processes slot).state = .ready ∧ (k'.processes slot).pstate = spsrEl0t))

theorem SpawnOutcome.calm (h : SpawnOutcome k k') : Calm k k' := by
  cases h with
  | same current processes => exact Calm.of_processes current processes
  | reclaimed zombies current => exact zombies.calm current
  | loaded slot taken current new => exact taken.calm current new

/-- The rest of `app_spawn_vfs` after the zombies are gone. -/
theorem spawnInto_outcome {pid : Nat} {name : Path} {k₁ : Kernel ρ} (h : Reclaimed k k')
    (hc : k'.current = k.current) (hk : ∀ i, k.current = some i → (k.processes i).state = .running)
    (ha : processAlloc pid name k' = some (slot, k₁)) (entryIndex argvPtr argc : Nat) :
    Wp (withLoader (spawnInto env name slot entryIndex argvPtr argc))
      (k₁.setProcess slot { k₁.processes slot with state := .blocked }) (fun _ k'' => SpawnOutcome k k'')
      fun _ k'' => SpawnOutcome k k'' := by
  obtain ⟨hslot, hcur₁, hne, -, hother⟩ := h.alloc hc hk ha
  have hset : ∀ j, j ≠ slot → (k₁.setProcess slot { k₁.processes slot with state := .blocked }).processes j =
      if (k.processes j).state = .zombie then freeSlot else k.processes j := by
    intro j hj
    rw [← hother j hj]
    exact Function.update_of_ne hj _ _
  refine wp_onPart.mpr (Wp.mono (spawnInto_spec _ _ _ _ _) (fun _ l hl => ?_) fun _ l hl => ?_)
  · obtain ⟨helse, hready, hps⟩ := hl
    obtain ⟨h1, h2⟩ := helse (by rw [← hcur₁] at hne; exact hne)
    exact .loaded slot ⟨hslot, fun j hj => (h2 j hj).trans (hset j hj)⟩ (h1.trans hcur₁) (.inr ⟨hready, hps⟩)
  · obtain ⟨helse, hun⟩ := hl
    obtain ⟨h1, h2⟩ := helse (by rw [← hcur₁] at hne; exact hne)
    exact .loaded slot ⟨hslot, fun j hj => (h2 j hj).trans (hset j hj)⟩ (h1.trans hcur₁) (.inl hun)

theorem appSpawnVfs_outcome (env : Env ρ) (path : Path) (entryIndex argvPtr argc : Nat)
    (hk : ∀ i, k.current = some i → (k.processes i).state = .running) :
    Wp (appSpawnVfs env path entryIndex argvPtr argc) k (fun _ k' => SpawnOutcome k k')
      fun _ k' => SpawnOutcome k k' := by
  have hrec := reclaimZombies_spec k
  have hcur := hrec.current_eq hk
  unfold appSpawnVfs
  refine wp_bind.mpr (wp_get.mpr (wp_guard (fun _ => .same rfl rfl) fun _ => ?_))
  split
  · exact .same rfl rfl
  refine wp_guard (fun _ => .same rfl rfl) fun _ => ?_
  refine wp_bind.mpr (wp_modify.mpr ?_)
  generalize processReclaimZombies k = k₀ at hrec hcur ⊢
  refine wp_bind.mpr (wp_get.mpr (wp_bind.mpr (wp_modify.mpr (wp_bind.mpr (wp_get.mpr ?_)))))
  -- the new pid changes no process
  have hrec' : Reclaimed k { k₀ with nextSpawnPid := (k₀.nextSpawnPid + 1) % 2 ^ 32 } :=
    ⟨hrec.processes, hrec.current⟩
  split
  · exact .reclaimed hrec' hcur
  · rename_i slot k₁ halloc
    refine wp_bind.mpr (wp_set.mpr (wp_bind.mpr ?_))
    exact Wp.mono (spawnInto_outcome hrec' hcur hk halloc _ _ _) (fun _ _ h => h) fun _ _ h => h

theorem appSpawnVfs_calm (env : Env ρ) (path : Path) (entryIndex argvPtr argc : Nat)
    (hk : ∀ i, k.current = some i → (k.processes i).state = .running) :
    Wp (appSpawnVfs env path entryIndex argvPtr argc) k (fun _ k' => Calm k k') fun _ k' => Calm k k' :=
  Wp.mono (appSpawnVfs_outcome env path entryIndex argvPtr argc hk) (fun _ _ h => h.calm) fun _ _ h => h.calm

end Armonios
