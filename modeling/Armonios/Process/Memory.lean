import Armonios.Process.Load

/-!
# The pages of all processes

`MemOk`: every page of the allocator that is not free belongs to one process, as a page of a region or of its
table, and the table of every process agrees with its regions.

* `MemOk.change`: one process changes;
* `MemOk.release`, `reclaimZombies_memory`, `appSpawnVfs_memory`, `onSlot_memory`: what the functions on
  processes do.
-/

namespace Armonios

variable {ρ : Type} {env : Env ρ} {k k' k'' : Kernel ρ} {i slot : SlotId} {pool : Set Nat} {tame : Prop}
  {prot prot' : SlotId → Nat → Nat}

/-- The page that an owner in one of the processes holds. -/
def kernelOwn (k : Kernel ρ) (x : SlotId × SpaceOwner) : Option Nat := spaceOwn (k.space x.1) x.2

/-- What the process in a slot can reach: the free pages and its own. -/
def slotPool (k : Kernel ρ) (i : SlotId) : Set Nat := Reach (freePages k.vm.pmm) (kernelOwn k) i

/-- The pages in `pool` are free or owned by one process. -/
structure PagesOk (pool : Set Nat) (k : Kernel ρ) : Prop where
  pmm : PmmOk k.vm.pmm
  clean : k.vm.pmm.misfreed = false
  real : ∀ a ∈ pool, a ∈ managed k.vm.pmm ∧ a ≠ 0
  regions : ∀ i, RegionsOk (k.processes i).userRegions
  own : Exclusive pool (freePages k.vm.pmm) (kernelOwn k)

structure MemOk (tame : Prop) (pool : Set Nat) (prot : SlotId → Nat → Nat) (k : Kernel ρ) : Prop where
  pages : PagesOk pool k
  idle : ∀ i, (k.processes i).state = .unused → NoMemory (k.processes i)
  empty : ∀ i, (k.processes i).pageTable = 0 → (k.processes i).userRegions = []
  agrees : ∀ i, (k.processes i).pageTable ≠ 0 → SpaceAgrees tame (prot i) (k.space i)
  mmio : tame → ∀ m, k.spawnMapMmio = some m → m.NoUser

theorem PagesOk.space (h : PagesOk pool k) (i : SlotId) : SpaceOk (slotPool k i) (k.space i) :=
  ⟨h.pmm, fun a ha => h.real a (h.own.reach_subset i ha), h.regions i, h.own.group i⟩

/-- The memory of a process is what it was. -/
structure SameSpace (p p' : Process) : Prop where
  regions : p'.userRegions = p.userRegions
  table : p'.pageTable = p.pageTable
  next : p'.nextUserVaddr = p.nextUserVaddr

theorem SameSpace.refl (p : Process) : SameSpace p p := ⟨rfl, rfl, rfl⟩

theorem SameSpace.trans {p p' p'' : Process} (h : SameSpace p p') (h' : SameSpace p' p'') : SameSpace p p'' :=
  ⟨h'.regions.trans h.regions, h'.table.trans h.table, h'.next.trans h.next⟩

theorem SpaceAgrees.congr {prot : Nat → Nat} {s s' : Space} (h : SpaceAgrees tame prot s)
    (hp : SameSpace s.process s'.process)
    (hleaf : ∀ va, leafOf s'.vm.mem s.process.pageTable va = leafOf s.vm.mem s.process.pageTable va) :
    SpaceAgrees tame prot s' := by
  obtain ⟨ha, hn⟩ := h
  refine ⟨?_, ?_, ?_, ?_, ?_⟩
  · rw [hp.regions, hp.table]
    refine ⟨ha.aligned, ha.bound, ha.owned, ha.user, fun r hr j hj => ?_, fun ht va e he => ?_⟩
    · rw [hleaf]
      exact ha.mapped r hr j hj
    · rw [hleaf] at he
      exact ha.only ht va e he
  · rw [hp.next]
    exact hn.base
  · rw [hp.next]
    exact hn.limit
  · rw [hp.next]
    exact hn.aligned
  · rw [hp.next, hp.regions]
    exact hn.below

theorem leafOf_zero (mem : TableMem) (va : Nat) : leafOf mem 0 va = none := by
  simp [leafOf, vmmLeafEntry, leafTable]

/-- Regions are mapped, so they need a table. -/
theorem SpaceAgrees.no_regions {prot : Nat → Nat} {s : Space} (h : SpaceAgrees tame prot s)
    (hl : RegionsOk s.process.userRegions) (h0 : s.process.pageTable = 0) : s.process.userRegions = [] := by
  cases hr : s.process.userRegions with
  | nil => rfl
  | cons r l =>
    have hmem : r ∈ s.process.userRegions := by
      rw [hr]
      exact List.mem_cons_self
    have hproper := hl.proper r hmem
    have hpages : 0 < r.pages := by
      unfold UserRegion.pages pageSize
      omega
    have hmapped := h.agrees.mapped r hmem 0 hpages
    rw [h0, leafOf_zero] at hmapped
    cases hmapped

/-- The tables of another process are out of reach. -/
theorem PagesOk.frame {j : SlotId} (h : PagesOk pool k) (hj : j ≠ i)
    (hframe : ∀ t, t ∉ slotPool k i → k'.vm.mem t = k.vm.mem t) (ht : (k.processes j).pageTable ≠ 0) :
    ∀ a ∈ tablePages k.vm.mem (k.processes j).pageTable, k'.vm.mem a = k.vm.mem a := by
  rintro a ⟨p, hp, hpa⟩
  have hown : kernelOwn k (j, .table p) = some a := spaceOwn_table.mpr ⟨ht, hp, hpa⟩
  exact hframe a (h.own.not_reach hj hown)

/-- The owners in another process hold what they held. -/
theorem PagesOk.own_other {j : SlotId} (h : PagesOk pool k) (hj : j ≠ i)
    (hframe : ∀ t, t ∉ slotPool k i → k'.vm.mem t = k.vm.mem t) (hsame : SameSpace (k.processes j) (k'.processes j))
    (x : SpaceOwner) : kernelOwn k' (j, x) = kernelOwn k (j, x) := by
  refine Option.ext fun a => ?_
  show spaceOwn (k'.space j) x = some a ↔ spaceOwn (k.space j) x = some a
  cases x with
  | region r n =>
    rw [spaceOwn_region, spaceOwn_region]
    show r ∈ (k'.processes j).userRegions ∧ _ ↔ _
    rw [hsame.regions]
    rfl
  | table p =>
    rw [spaceOwn_table, spaceOwn_table]
    show (k'.processes j).pageTable ≠ 0 ∧ _ ∧ nodeAt _ (k'.processes j).pageTable p = some a ↔ _
    rw [hsame.table]
    refine and_congr_right fun ht => and_congr_right fun hp => ?_
    rw [show nodeAt (tableChild (k'.space j).vm.mem) _ p = _ from nodeAt_frame (h.frame hj hframe ht) hp]
    rfl

/-- One process and the free pages change among themselves. -/
theorem PagesOk.change (h : PagesOk pool k) (hstep : SpaceStep (slotPool k i) (k.space i) (k'.space i))
    (hother : ∀ j, j ≠ i → SameSpace (k.processes j) (k'.processes j)) : PagesOk pool k' := by
  refine ⟨hstep.ok.pmm, hstep.same.misfreed.trans h.clean, ?_, fun j => ?_, ?_⟩
  · rw [show managed k'.vm.pmm = _ from hstep.same.managed]
    exact h.real
  · by_cases hj : j = i
    · subst hj
      exact hstep.ok.regions
    · rw [(hother j hj).regions]
      exact h.regions j
  · exact h.own.regroup hstep.ok.own fun j hj x => h.own_other hj hstep.frame (hother j hj) x

/-- The process in the slot `i` changes; the others keep their memory. -/
structure SlotStep (i : SlotId) (k k' : Kernel ρ) : Prop where
  step : SpaceStep (slotPool k i) (k.space i) (k'.space i)
  other : ∀ j, j ≠ i → SameSpace (k.processes j) (k'.processes j)
  unused : ∀ j, j ≠ i → (k'.processes j).state = .unused → (k.processes j).state = .unused
  mmio : k'.spawnMapMmio = k.spawnMapMmio

theorem SlotStep.leafOf {j : SlotId} (hs : SlotStep i k k') (h : PagesOk pool k) (hj : j ≠ i) (va : Nat) :
    leafOf k'.vm.mem (k.processes j).pageTable va = leafOf k.vm.mem (k.processes j).pageTable va := by
  by_cases ht : (k.processes j).pageTable = 0
  · rw [ht, leafOf_zero, leafOf_zero]
  · exact leafOf_frame (h.frame hj hs.step.frame ht) va

theorem MemOk.change (h : MemOk tame pool prot k) (hs : SlotStep i k k') (hprot : ∀ j, j ≠ i → prot' j = prot j)
    (hidle : (k'.processes i).state = .unused → NoMemory (k'.processes i))
    (hempty : (k'.processes i).pageTable = 0 → (k'.processes i).userRegions = [])
    (hagrees : (k'.processes i).pageTable ≠ 0 → SpaceAgrees tame (prot' i) (k'.space i)) :
    MemOk tame pool prot' k' := by
  refine ⟨h.pages.change hs.step hs.other, fun j hj => ?_, fun j hj => ?_, fun j hj => ?_, ?_⟩
  · by_cases hji : j = i
    · subst hji
      exact hidle hj
    · have hno := h.idle j (hs.unused j hji hj)
      exact ⟨(hs.other j hji).regions.trans hno.1, (hs.other j hji).table.trans hno.2⟩
  · by_cases hji : j = i
    · subst hji
      exact hempty hj
    · rw [(hs.other j hji).table] at hj
      exact (hs.other j hji).regions.trans (h.empty j hj)
  · by_cases hji : j = i
    · subst hji
      exact hagrees hj
    · rw [(hs.other j hji).table] at hj
      rw [hprot j hji]
      exact (h.agrees j hj).congr (hs.other j hji) (hs.leafOf h.pages hji)
  · rw [hs.mmio]
    exact h.mmio

/-! ## Functions that do not touch the memory -/

/-- The pages, the tables and the regions of all processes are what they were. -/
structure SameMemory (k k' : Kernel ρ) : Prop where
  vm : k'.vm = k.vm
  processes : ∀ j, SameSpace (k.processes j) (k'.processes j)
  unused : ∀ j, (k'.processes j).state = .unused → (k.processes j).state = .unused
  mmio : k'.spawnMapMmio = k.spawnMapMmio

theorem SameMemory.refl (k : Kernel ρ) : SameMemory k k := ⟨rfl, fun _ => .refl _, fun _ h => h, rfl⟩

theorem SameMemory.trans (h : SameMemory k k') (h' : SameMemory k' k'') : SameMemory k k'' :=
  ⟨h'.vm.trans h.vm, fun j => (h.processes j).trans (h'.processes j), fun j hj => h.unused j (h'.unused j hj),
    h'.mmio.trans h.mmio⟩

theorem SameMemory.own (h : SameMemory k k') : kernelOwn k' = kernelOwn k := by
  funext x
  have hp := h.processes x.1
  show spaceOwn ⟨k'.vm, k'.processes x.1⟩ x.2 = spaceOwn ⟨k.vm, k.processes x.1⟩ x.2
  rw [h.vm, spaceOwn_congr (fun r _ => by rw [hp.regions]) hp.table]

theorem MemOk.same (h : MemOk tame pool prot k) (hs : SameMemory k k') : MemOk tame pool prot k' := by
  refine ⟨⟨?_, ?_, ?_, fun j => ?_, ?_⟩, fun j hj => ?_, fun j hj => ?_, fun j hj => ?_, ?_⟩
  · rw [hs.vm]
    exact h.pages.pmm
  · rw [hs.vm]
    exact h.pages.clean
  · rw [hs.vm]
    exact h.pages.real
  · rw [(hs.processes j).regions]
    exact h.pages.regions j
  · rw [hs.vm, hs.own]
    exact h.pages.own
  · have hno := h.idle j (hs.unused j hj)
    exact ⟨(hs.processes j).regions.trans hno.1, (hs.processes j).table.trans hno.2⟩
  · rw [(hs.processes j).table] at hj
    exact (hs.processes j).regions.trans (h.empty j hj)
  · rw [(hs.processes j).table] at hj
    refine (h.agrees j hj).congr (hs.processes j) fun va => ?_
    show leafOf k'.vm.mem _ va = leafOf k.vm.mem _ va
    rw [hs.vm]
  · rw [hs.mmio]
    exact h.mmio

/-- One process gets another state or context. -/
theorem SameMemory.setProcess {p : Process} (hp : SameSpace (k.processes i) p)
    (hu : p.state = .unused → (k.processes i).state = .unused) : SameMemory k (k.setProcess i p) := by
  refine ⟨rfl, fun j => ?_, fun j hj => ?_, rfl⟩
  · by_cases hj : j = i
    · subst hj
      simpa [Kernel.setProcess] using hp
    · simpa [Kernel.setProcess, Function.update_of_ne hj] using SameSpace.refl _
  · by_cases hji : j = i
    · subst hji
      exact hu (by simpa [Kernel.setProcess] using hj)
    · simpa [Kernel.setProcess, Function.update_of_ne hji] using hj

/-! ## Releasing -/

theorem processRelease_others {j : SlotId} (hj : j ≠ slot) : (processRelease slot k).processes j = k.processes j := by
  unfold processRelease
  dsimp only
  split
  · rfl
  · exact Function.update_of_ne hj _ _

theorem processRelease_slot (h : PagesOk pool k) (i : SlotId) :
    SlotStep i k (processRelease i k) ∧ NoMemory ((processRelease i k).processes i) := by
  obtain ⟨hstep, hempty⟩ := processRelease_space (h.space i)
  refine ⟨⟨hstep, fun j hj => ?_, fun j hj => ?_, ?_⟩, hempty⟩
  · rw [processRelease_others hj]
    exact .refl _
  · rw [processRelease_others hj]
    exact id
  · unfold processRelease
    dsimp only
    split <;> rfl

theorem MemOk.release (h : MemOk tame pool prot k) (i : SlotId) : MemOk tame pool prot (processRelease i k) := by
  obtain ⟨hs, hempty⟩ := processRelease_slot h.pages i
  exact h.change hs (fun _ _ => rfl) (fun _ => hempty) (fun _ => hempty.1) fun ht => absurd hempty.2 ht

theorem reclaimZombies_memory (h : MemOk tame pool prot k) : MemOk tame pool prot (processReclaimZombies k) := by
  have hfold : ∀ (l : List SlotId) (k : Kernel ρ), MemOk tame pool prot k → MemOk tame pool prot
      (l.foldl (fun k i => if (k.processes i).state = .zombie then processRelease i k else k) k) := by
    intro l
    induction l with
    | nil => exact fun _ hk => hk
    | cons i l ih =>
      intro k hk
      rw [List.foldl_cons]
      refine ih _ ?_
      split
      · exact hk.release i
      · exact hk
  unfold processReclaimZombies
  exact hfold slots k h

/-! ## Calls on one process -/

/-- The kernel after a run on one process and the page tables. -/
def Kernel.put (k : Kernel ρ) (i : SlotId) (s : Space) : Kernel ρ :=
  { k with vm := s.vm, processes := Function.update k.processes i s.process }

@[simp] theorem Kernel.put_space {s : Space} : (k.put i s).space i = s := by
  unfold Kernel.space Kernel.put
  simp

theorem Kernel.put_self : k.put i (k.space i) = k := by
  unfold Kernel.put Kernel.space
  simp

theorem Kernel.put_other {s : Space} {j : SlotId} (hj : j ≠ i) : (k.put i s).processes j = k.processes j :=
  Function.update_of_ne hj _ _

theorem wp_onSlot {α : Type} {m : SpaceM α} {Q : α → Kernel ρ → Prop} {E : Unit → Kernel ρ → Prop} :
    Wp (onSlot i m) k Q E ↔ Wp m (k.space i) (fun a s => Q a (k.put i s)) fun e s => E e (k.put i s) := wp_onPart

theorem slotStep_put {s : Space} (h : SpaceStep (slotPool k i) (k.space i) s) : SlotStep i k (k.put i s) := by
  refine ⟨by rw [Kernel.put_space]; exact h, fun j hj => ?_, fun j hj => ?_, rfl⟩
  · rw [Kernel.put_other hj]
    exact .refl _
  · rw [Kernel.put_other hj]
    exact id

/-- `mmap` or `munmap` of the process `i`. -/
theorem MemOk.remap {s : Space} (h : MemOk tame pool prot k) (hprot : ∀ j, j ≠ i → prot' j = prot j)
    (ht : (k.processes i).pageTable ≠ 0) (hs : Remapped (slotPool k i) tame (prot' i) (k.space i) s)
    (hctx : SameCtx (k.processes i) s.process) : MemOk tame pool prot' (k.put i s) := by
  have hproc : (k.put i s).processes i = s.process := by simp [Kernel.put]
  have hstate : (k.processes i).state ≠ .unused := fun hu => ht (h.idle i hu).2
  refine h.change (slotStep_put hs.step) hprot (fun hu => ?_) (fun h0 => ?_) fun _ => ?_
  · rw [hproc, hctx.state] at hu
    exact absurd hu hstate
  · rw [hproc, hs.table] at h0
    exact absurd h0 ht
  · rw [Kernel.put_space]
    exact hs.agrees

/-- The permissions after an `mmap` with `flags`, at the address that a new region would get. -/
structure ProtAfter (k : Kernel ρ) (flags : Nat) (prot prot' : SlotId → Nat → Nat) : Prop where
  other : ∀ j, k.current ≠ some j → prot' j = prot j
  low : ∀ i, k.current = some i → ∀ a < (k.processes i).nextUserVaddr, prot' i a = prot i a
  new : ∀ i f, k.current = some i → (k.processes i).pageTable ≠ 0 → flagsToVmm flags = some f →
    prot' i (k.processes i).nextUserVaddr = f

theorem onCurrent_idle {m : SpaceM Int} {n : Int} (hm : ∀ s : Space, s.process.pageTable = 0 → m s = .ok n s)
    (hi : k.current = some i) (h0 : (k.processes i).pageTable = 0) : (onCurrent m k).2 = k := by
  unfold onCurrent
  rw [hi]
  dsimp only
  have hrun : onSlot i m k = .ok n (k.put i (k.space i)) := by
    unfold onSlot onPart
    rw [hm _ h0]
    rfl
  rw [hrun, Kernel.put_self]

theorem userVmMapAnonymous_idle {hint size flags : Nat} {s : Space} (h0 : s.process.pageTable = 0) :
    userVmMapAnonymous hint size flags s = .ok userVmErrInval s := by
  refine Wp.eq_ok ?_
  unfold userVmMapAnonymous
  refine wp_bind.mpr (wp_get.mpr ?_)
  split
  · exact ⟨rfl, rfl⟩
  · exact wp_ite (fun _ => ⟨rfl, rfl⟩) fun hno => absurd (.inl h0) hno

theorem userVmUnmapAnonymous_idle {addr size : Nat} {s : Space} (h0 : s.process.pageTable = 0) :
    userVmUnmapAnonymous addr size s = .ok userVmErrInval s := by
  refine Wp.eq_ok ?_
  unfold userVmUnmapAnonymous
  refine wp_bind.mpr (wp_get.mpr ?_)
  exact wp_ite (fun _ => ⟨rfl, rfl⟩) fun hno => absurd (.inl h0) hno

theorem MemOk.congr_prot (h : MemOk tame pool prot k)
    (hp : ∀ i, (k.processes i).pageTable ≠ 0 → prot' i = prot i) : MemOk tame pool prot' k :=
  ⟨h.pages, h.idle, h.empty, fun i hi => by rw [hp i hi]; exact h.agrees i hi, h.mmio⟩

/-- What a run on the current process does to the kernel. -/
theorem onCurrent_spec {m : SpaceM Int} {P : Int → Kernel ρ → Prop} (hi : k.current = some i)
    (h : Wp m (k.space i) (fun n s => P n (k.put i s)) fun _ _ => False) :
    P (onCurrent m k).1 (onCurrent m k).2 := by
  obtain ⟨n, k', hrun, hP⟩ := (wp_onSlot.mpr h : Wp (onSlot i m) k P fun _ _ => False).returns
  unfold onCurrent
  rw [hi]
  dsimp only
  rw [hrun]
  exact hP

theorem onCurrent_none {m : SpaceM Int} (hi : k.current = none) : (onCurrent m k).2 = k := by
  unfold onCurrent
  rw [hi]

theorem sysMmap_memory {hint size flags : UInt64} (h : MemOk tame pool prot k)
    (hprot : ProtAfter k flags.toNat prot prot') : MemOk tame pool prot' (sysMmap hint size flags k).2 := by
  unfold sysMmap
  cases hi : k.current with
  | none =>
    rw [onCurrent_none hi]
    exact h.congr_prot fun j _ => hprot.other j (by rw [hi]; simp)
  | some i =>
    have hother : ∀ j, j ≠ i → prot' j = prot j := fun j hj => hprot.other j (by rw [hi]; simpa using Ne.symm hj)
    by_cases h0 : (k.processes i).pageTable = 0
    · rw [onCurrent_idle (fun s => userVmMapAnonymous_idle) hi h0]
      exact h.congr_prot fun j hj => hother j fun he => hj (he ▸ h0)
    · refine onCurrent_spec (P := fun _ k' => MemOk tame pool prot' k') hi ?_
      refine Wp.mono (Wp.and (userVmMapAnonymous_spec (h.pages.space i) (h.agrees i h0) (hprot.low i hi)
        fun f hf => hprot.new i f hi h0 hf) (userVmMapAnonymous_keeps _ _ _ _)) (fun _ s hs => ?_) fun _ _ hno => hno.1
      exact h.remap hother h0 hs.1.1 hs.2

theorem sysMunmap_memory {addr size : UInt64} (h : MemOk tame pool prot k) :
    MemOk tame pool prot (sysMunmap addr size k).2 := by
  unfold sysMunmap
  cases hi : k.current with
  | none =>
    rw [onCurrent_none hi]
    exact h
  | some i =>
    by_cases h0 : (k.processes i).pageTable = 0
    · rw [onCurrent_idle (fun s => userVmUnmapAnonymous_idle) hi h0]
      exact h
    · refine onCurrent_spec (P := fun _ k' => MemOk tame pool prot k') hi ?_
      refine Wp.mono (Wp.and (userVmUnmapAnonymous_spec (h.pages.space i) (h.agrees i h0))
        (userVmUnmapAnonymous_keeps _ _ _)) (fun _ s hs => ?_) fun _ _ hno => hno.1
      exact h.remap (fun _ _ => rfl) h0 hs.1.1 hs.2

/-! ## Starting a process -/

/-- The other processes are what they were. -/
def LoaderOthers (slot : SlotId) (l l' : Loader ρ) : Prop :=
  (∀ j, j ≠ slot → l'.kernel.processes j = l.kernel.processes j) ∧ l'.kernel.spawnMapMmio = l.kernel.spawnMapMmio

instance : Std.Refl (LoaderOthers slot : Loader ρ → Loader ρ → Prop) := ⟨fun _ => ⟨fun _ _ => rfl, rfl⟩⟩

instance : IsTrans (Loader ρ) (LoaderOthers slot) :=
  ⟨fun _ _ _ h h' => ⟨fun j hj => (h'.1 j hj).trans (h.1 j hj), h'.2.trans h.2⟩⟩

theorem loaderSteps_others : LoaderSteps slot (LoaderOthers slot : Loader ρ → Loader ρ → Prop) where
  pmm f := fun _ => ⟨fun _ _ => rfl, rfl⟩
  space m := by
    intro l
    refine wp_onKernelSlot.mpr ?_
    have hput : ∀ s, LoaderOthers slot l (l.put slot s) := fun s => ⟨fun j hj => Function.update_of_ne hj _ _, rfl⟩
    unfold Wp
    split <;> exact hput _
  storage _ := Moves.modify fun _ => ⟨fun _ _ => rfl, rfl⟩
  release := by
    intro l
    refine wp_onPart.mpr (wp_modify.mpr ?_)
    unfold processRelease
    dsimp only
    split
    · exact ⟨fun _ _ => rfl, rfl⟩
    · exact ⟨fun j hj => Function.update_of_ne hj _ _, rfl⟩

/-- The permissions of images and stacks are those of the loader. -/
def LoaderProt (prot : SlotId → Nat → Nat) : Prop :=
  ∀ i, prot i (panelImageVaddr i) = imageFlags ∧ prot i (panelStackVaddr i) = stackFlags

theorem processAlloc_vm {pid : Nat} {name : Path} (ha : processAlloc pid name k = some (slot, k')) :
    k'.vm = k.vm ∧ k'.spawnMapMmio = k.spawnMapMmio := by
  unfold processAlloc at ha
  split at ha
  · cases ha
  split at ha
  · cases ha
  cases ha
  exact ⟨rfl, rfl⟩

theorem MemOk.alloc {pid : Nat} {name : Path} (h : MemOk tame pool prot k)
    (ha : processAlloc pid name k = some (slot, k')) :
    MemOk tame pool prot k' ∧ Fresh (k'.processes slot) ∧ (k'.processes slot).state = .ready := by
  obtain ⟨hunused, -, hprocs⟩ := processAlloc_spec ha
  obtain ⟨hvm, hmmio⟩ := processAlloc_vm ha
  obtain ⟨hnil, hzero⟩ := h.idle slot hunused
  have hproc : k'.processes slot = processInit pid name := by rw [hprocs, Function.update_self]
  have hother : ∀ j, j ≠ slot → k'.processes j = k.processes j := by
    intro j hj
    rw [hprocs, Function.update_of_ne hj]
  have hfresh : Fresh (k'.processes slot) := by
    rw [hproc]
    exact ⟨rfl, rfl, rfl⟩
  have hstep : SpaceStep (slotPool k slot) (k.space slot) (k'.space slot) := by
    have hspace : k'.space slot = ⟨k.vm, k'.processes slot⟩ := by
      unfold Kernel.space
      rw [hvm]
    rw [hspace]
    refine ⟨(h.pages.space slot).congr ?_ (fun r _ => ?_) (hfresh.table.trans hzero.symm), .refl _, fun _ _ => rfl⟩
    · rw [hfresh.regions]
      exact .nil
    · rw [hfresh.regions, hnil]
  refine ⟨h.change ⟨hstep, fun j hj => ?_, fun j hj => ?_, hmmio⟩ (fun _ _ => rfl)
    (fun _ => ⟨hfresh.regions, hfresh.table⟩)
    (fun _ => hfresh.regions) fun ht => absurd hfresh.table ht, hfresh, ?_⟩
  · rw [hother j hj]
    exact .refl _
  · rw [hother j hj]
    exact id
  · rw [hproc]
    rfl

/-- The loader for a slot that was just allocated. -/
theorem MemOk.load {name : Path} {entryIndex memoryBase memorySize : Nat} {mapMmio : Option MapMmio}
    (h : MemOk tame pool prot k) (hfresh : Fresh (k.processes slot)) (hstate : (k.processes slot).state ≠ .unused)
    (hprot : LoaderProt prot) (hm : tame → ∀ m, mapMmio = some m → m.NoUser) :
    Wp (loadProcess env name slot entryIndex memoryBase memorySize mapMmio) ⟨k, ⟨0, 0⟩⟩
      (fun _ l => MemOk tame pool prot l.kernel) fun _ l => MemOk tame pool prot l.kernel := by
  refine Wp.mono (Wp.and (Wp.and (loadProcess_memory (h.pages.space slot) hfresh ⟨hm, (hprot slot).1, (hprot slot).2⟩)
    (loadProcess_spec name entryIndex memoryBase memorySize mapMmio ⟨k, ⟨0, 0⟩⟩))
    (loaderSteps_others.loadProcess name entryIndex memoryBase memorySize mapMmio ⟨k, ⟨0, 0⟩⟩))
      (fun _ l hl => ?_) fun _ l hl => ?_
  all_goals
    obtain ⟨⟨hmem, hstate'⟩, hother, hmmio⟩ := hl
    have hs : SlotStep slot k l.kernel := by
      refine ⟨hmem.step, fun j hj => ?_, fun j hj => ?_, hmmio⟩
      · rw [hother j hj]
        exact .refl _
      · rw [hother j hj]
        exact id
  · refine h.change hs (fun _ _ => rfl) (fun hu => ?_) (fun h0 => ?_) fun _ => hmem.agrees
    · rw [hstate'.state] at hu
      exact absurd hu hstate
    · exact hmem.agrees.no_regions hmem.step.ok.regions h0
  · exact h.change hs (fun _ _ => rfl) (fun _ => hmem.empty) (fun _ => hmem.empty.1) fun ht => absurd hmem.empty.2 ht

theorem spawnInto_memory {name : Path} {entryIndex argvPtr argc : Nat} (h : MemOk tame pool prot k)
    (hfresh : Fresh (k.processes slot)) (hstate : (k.processes slot).state ≠ .unused) (hprot : LoaderProt prot) :
    Wp (withLoader (spawnInto env name slot entryIndex argvPtr argc)) k (fun _ k' => MemOk tame pool prot k')
      fun _ k' => MemOk tame pool prot k' := by
  refine wp_onPart.mpr ?_
  unfold spawnInto
  refine wp_bind.mpr (wp_get.mpr (wp_bind.mpr ?_))
  refine Wp.mono (h.load hfresh hstate hprot h.mmio) (fun _ l hl => ?_) fun _ _ hl => hl
  refine wp_bind.mpr (wp_get.mpr ?_)
  split
  · exact wp_bind.mpr (wp_onPart.mpr (wp_modify.mpr (hl.release slot)))
  · refine wp_onPart.mpr (wp_modify.mpr (hl.same (.setProcess ⟨?_, ?_, ?_⟩ fun hu => by cases hu)))
    all_goals
      unfold setArguments
      dsimp only
      split <;> rfl

theorem appSpawnVfs_memory (env : Env ρ) (path : Path) (entryIndex argvPtr argc : Nat) (h : MemOk tame pool prot k)
    (hprot : LoaderProt prot) :
    Wp (appSpawnVfs env path entryIndex argvPtr argc) k (fun _ k' => MemOk tame pool prot k')
      fun _ k' => MemOk tame pool prot k' := by
  have h₀ := reclaimZombies_memory h
  unfold appSpawnVfs
  refine wp_bind.mpr (wp_get.mpr (wp_guard (fun _ => h) fun _ => ?_))
  split
  · exact h
  refine wp_guard (fun _ => h) fun _ => ?_
  refine wp_bind.mpr (wp_modify.mpr ?_)
  generalize processReclaimZombies k = k₀ at h₀ ⊢
  refine wp_bind.mpr (wp_get.mpr (wp_bind.mpr (wp_modify.mpr (wp_bind.mpr (wp_get.mpr ?_)))))
  -- the new pid changes no process
  have h₁ : MemOk tame pool prot { k₀ with nextSpawnPid := (k₀.nextSpawnPid + 1) % 2 ^ 32 } :=
    h₀.same ⟨rfl, fun _ => .refl _, fun _ hu => hu, rfl⟩
  split
  · exact h₁
  · rename_i slot k₂ halloc
    obtain ⟨h₂, hfresh, -⟩ := h₁.alloc halloc
    refine wp_bind.mpr (wp_set.mpr (wp_bind.mpr ?_))
    have h₃ : MemOk tame pool prot (k₂.setProcess slot { k₂.processes slot with state := .blocked }) :=
      h₂.same (.setProcess ⟨rfl, rfl, rfl⟩ fun hu => by cases hu)
    have hproc : (k₂.setProcess slot { k₂.processes slot with state := .blocked }).processes slot =
        { k₂.processes slot with state := .blocked } := by simp [Kernel.setProcess]
    refine Wp.mono (spawnInto_memory h₃ ?_ ?_ hprot) (fun _ _ hk => hk) fun _ _ hk => hk
    · rw [hproc]
      exact ⟨hfresh.regions, hfresh.table, hfresh.next⟩
    · rw [hproc]
      simp

/-- A process becomes the running one. -/
theorem MemOk.run (h : MemOk tame pool prot k) (i : SlotId) (current : Option SlotId) (ttbr0 : Nat) :
    MemOk tame pool prot { k.setProcess i { k.processes i with state := .running } with current, ttbr0 } := by
  have hset : SameMemory k (k.setProcess i { k.processes i with state := .running }) :=
    .setProcess ⟨rfl, rfl, rfl⟩ fun hu => by cases hu
  exact h.same ⟨hset.vm, hset.processes, hset.unused, hset.mmio⟩

theorem panelBootEnter_memory (env : Env ρ) (memoryBase memorySize : Nat) {mapMmio : Option MapMmio}
    (h : MemOk tame pool prot k) (hprot : LoaderProt prot) (hm : tame → ∀ m, mapMmio = some m → m.NoUser) :
    Wp (panelBootEnter env memoryBase memorySize mapMmio) k (fun _ k' => MemOk tame pool prot k')
      fun _ k' => MemOk tame pool prot k' := by
  have h₀ := reclaimZombies_memory h
  unfold panelBootEnter
  refine wp_bind.mpr (wp_modify.mpr ?_)
  generalize processReclaimZombies k = k₀ at h₀ ⊢
  refine wp_bind.mpr (wp_get.mpr ?_)
  split
  · exact h₀
  · rename_i slot k₁ halloc
    obtain ⟨h₁, hfresh, hready⟩ := h₀.alloc halloc
    refine wp_bind.mpr (wp_set.mpr (wp_bind.mpr (wp_onPart.mpr ?_)))
    refine Wp.mono (h₁.load hfresh (by rw [hready]; simp) hprot hm) (fun _ l hl => ?_) fun _ _ hl => hl
    refine wp_bind.mpr (wp_modify.mpr (wp_bind.mpr (wp_modify.mpr ?_)))
    have hmmio : MemOk tame pool prot { l.kernel with
        spawnMemoryBase := memoryBase, spawnMemorySize := memorySize, spawnMapMmio := mapMmio } :=
      ⟨⟨hl.pages.pmm, hl.pages.clean, hl.pages.real, hl.pages.regions, hl.pages.own⟩, hl.idle, hl.empty, hl.agrees, hm⟩
    exact hmmio.run slot _ _

theorem panelBootLeave_memory {kernelPageTable : Nat} {panel : SlotId} (h : MemOk tame pool prot k) :
    MemOk tame pool prot (panelBootLeave kernelPageTable panel k) := by
  unfold panelBootLeave
  refine MemOk.release (reclaimZombies_memory ?_) panel
  exact h.same ⟨rfl, fun _ => .refl _, fun _ hu => hu, rfl⟩

/-! ## Traps -/

theorem withCurrent_memory {f : Process → Process} (hf : ∀ p, SameSpace p (f p) ∧ (f p).state = p.state) :
    SameMemory k (withCurrent f k) := by
  unfold withCurrent
  split
  · exact .refl k
  · exact .setProcess (hf _).1 fun hu => (hf _).2.symm.trans hu

theorem processMarkExited_memory (i : SlotId) (code : UInt64) : SameMemory k (processMarkExited env i code k) := by
  unfold processMarkExited
  dsimp only
  split
  · exact .refl k
  · have hset : SameMemory k (k.setProcess i { k.processes i with exitCode := code, state := .zombie }) :=
      .setProcess ⟨rfl, rfl, rfl⟩ fun hu => by cases hu
    exact ⟨hset.vm, hset.processes, hset.unused, hset.mmio⟩

theorem switchTo_memory (next : SlotId) : SameMemory k (switchTo next k).2 := by
  have hset : SameMemory k (k.setProcess next { k.processes next with state := .running }) :=
    .setProcess ⟨rfl, rfl, rfl⟩ fun hu => by cases hu
  exact ⟨hset.vm, hset.processes, hset.unused, hset.mmio⟩

theorem dispatchNext_memory {current : Option SlotId} {policy : DispatchPolicy} {r : Frame × Kernel ρ}
    (h : processDispatchNext current policy k = some r) : SameMemory k r.2 := by
  unfold processDispatchNext at h
  split at h
  · cases h
  split at h
  · cases h
  · cases h
    refine SameMemory.trans ?_ (switchTo_memory _)
    split
    · split
      · exact .setProcess ⟨rfl, rfl, rfl⟩ fun hu => by cases hu
      · exact .refl k
    · exact .refl k

theorem endCurrent_memory (code : UInt64) (frame : Frame) : SameMemory k (endCurrent env code frame k).2 := by
  unfold endCurrent
  dsimp only
  cases hc : k.current with
  | none =>
    dsimp only
    split
    · rename_i next hnext
      exact dispatchNext_memory hnext
    · exact .refl k
  | some i =>
    have hmark : SameMemory k (processMarkExited env i code k) := processMarkExited_memory i code
    dsimp only
    split
    · rename_i next hnext
      exact hmark.trans (dispatchNext_memory hnext)
    · exact hmark

theorem sysYield_memory (frame : Frame) : SameMemory k (sysYield frame k).2 := by
  unfold sysYield
  dsimp only
  have hyield : SameMemory k (withCurrent (fun p => { p with regs := setReg 0 0 p.regs }) k) :=
    withCurrent_memory fun p => ⟨⟨rfl, rfl, rfl⟩, rfl⟩
  split
  · rename_i next hnext
    exact hyield.trans (dispatchNext_memory hnext)
  · exact hyield

theorem saveContext_memory (frame : Frame) : SameMemory k (withCurrent (processSaveContext frame) k) :=
  withCurrent_memory fun _ => ⟨⟨rfl, rfl, rfl⟩, rfl⟩

theorem handleUserFault_memory (frame : Frame) : SameMemory k (handleUserFault env frame k).2 :=
  (saveContext_memory frame).trans (endCurrent_memory _ _)

theorem irqHandlerFrame_memory (irq : Option UInt32) (frame : Frame) :
    SameMemory k (irqHandlerFrame env irq frame k).2 := by
  unfold irqHandlerFrame
  have hsave := saveContext_memory (k := k) frame
  dsimp only
  generalize withCurrent (processSaveContext frame) k = k₁ at hsave ⊢
  cases irq with
  | none => exact hsave
  | some irq =>
    dsimp only
    have hwork : SameMemory k { k₁ with rest := env.irqWork k₁ irq } :=
      ⟨hsave.vm, hsave.processes, hsave.unused, hsave.mmio⟩
    generalize { k₁ with rest := env.irqWork k₁ irq } = k₂ at hwork ⊢
    have hback := hwork.trans (withCurrent_memory (f := fun p => { p with
      pc := frame.elr, pstate := frame.spsr, sp := frame.spEl0 }) fun p => ⟨⟨rfl, rfl, rfl⟩, rfl⟩)
    split
    · rename_i next hnext
      exact hback.trans (dispatchNext_memory hnext)
    · exact hback

theorem spawnResult_memory {path : Path} {entryIndex argvPtr argc : Nat} (h : MemOk tame pool prot k)
    (hprot : LoaderProt prot) : MemOk tame pool prot (spawnResult env path entryIndex argvPtr argc k).2 := by
  have hspawn := appSpawnVfs_memory env path entryIndex argvPtr argc h hprot
  unfold spawnResult
  unfold Wp at hspawn
  split at hspawn
  · rename_i hrun
    rw [hrun]
    dsimp only
    split
    · exact hspawn
    · exact hspawn
  · rename_i hrun
    rw [hrun]
    exact hspawn

theorem sysSpawn_memory {pathPtr entryIndex : UInt64} (h : MemOk tame pool prot k) (hprot : LoaderProt prot) :
    MemOk tame pool prot (sysSpawn env pathPtr entryIndex k).2 := by
  unfold sysSpawn
  split
  · exact h
  split
  · exact h
  · exact spawnResult_memory h hprot

theorem sysSpawnArgv_memory {pathPtr entryIndex argvPtr argc : UInt64} (h : MemOk tame pool prot k)
    (hprot : LoaderProt prot) : MemOk tame pool prot (sysSpawnArgv env pathPtr entryIndex argvPtr argc k).2 := by
  unfold sysSpawnArgv
  split
  · exact h
  split
  · exact h
  · rename_i path _
    have hboth : ∀ b : Bool, MemOk tame pool prot (if b then
        spawnResult env path entryIndex.toNat argvPtr.toNat argc.toNat k else (errInval, k)).2 := by
      intro b
      split
      · exact spawnResult_memory h hprot
      · exact h
    exact hboth _

theorem sysWait_memory {pid : UInt64} (h : MemOk tame pool prot k) : MemOk tame pool prot (sysWait pid k).2 := by
  rcases sysWait_leaves pid k with heq | ⟨i, -, -, -, heq⟩ <;> rw [heq]
  · exact h
  · exact h.release i

theorem sysKill_memory {pid : UInt64} : SameMemory k (sysKill env pid k).2 := by
  rcases sysKill_leaves env pid k with heq | ⟨i, -, -, -, heq⟩ <;> rw [heq]
  · exact .refl k
  · exact processMarkExited_memory _ _

end Armonios
