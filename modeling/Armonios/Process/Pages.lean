import Armonios.Process.Fair
import Armonios.Process.Isolation

/-!
# Owners of pages

Every page that the allocator hands out has one owner: a region or a table of one process, or the storage of
the loader while it starts a program (`loaderOwn`).

* `machineRun_pages`: in every state of a run, and of the loader in it;
* `spawn_no_leak`: a program that could not be started, or has ended, leaves no page behind.
-/

namespace Armonios

variable {ρ : Type} {env : Env ρ} {k k' : Kernel ρ} {l l' : Loader ρ} {m m₀ : Machine ρ} {pool : Set Nat} {tame : Prop}
  {prot : SlotId → Nat → Nat} {slot : SlotId}

/-! ## The loader -/

/-- The page that an owner holds while the loader works for `slot`; `.inr n` is its storage. -/
def loaderOwn (slot : SlotId) (l : Loader ρ) : SlotId × (SpaceOwner ⊕ Nat) → Option Nat
  | (i, .inl x) => kernelOwn l.kernel (i, x)
  | (i, .inr n) => if i = slot then (storedPages l.storage)[n]? else none

theorem loaderOwn_empty (slot : SlotId) (h : Exclusive pool (freePages k.vm.pmm) (kernelOwn k)) :
    Exclusive pool (freePages k.vm.pmm) (loaderOwn slot ⟨k, ⟨0, 0⟩⟩) := by
  have hnone : ∀ i n, loaderOwn slot ⟨k, ⟨0, 0⟩⟩ (i, .inr n) = none := by
    intro i n
    simp [loaderOwn, storedPages]
  refine ⟨?_, ?_, fun a => ?_⟩
  · rintro ⟨i, x | n⟩ ⟨j, y | n'⟩ a hx hy
    · obtain ⟨rfl, rfl⟩ := Prod.mk.inj (h.inj (i, x) (j, y) a hx hy)
      rfl
    · rw [hnone] at hy
      cases hy
    · rw [hnone] at hx
      cases hx
    · rw [hnone] at hx
      cases hx
  · rintro ⟨i, x | n⟩ a hx
    · exact h.apart (i, x) a hx
    · rw [hnone] at hx
      cases hx
  · rw [h.cover a]
    refine or_congr_right ⟨?_, ?_⟩
    · rintro ⟨⟨i, x⟩, hx⟩
      exact ⟨(i, .inl x), hx⟩
    · rintro ⟨⟨i, x | n⟩, hx⟩
      · exact ⟨(i, x), hx⟩
      · rw [hnone] at hx
        cases hx

/-- The slot of the loader with its storage. -/
theorem LoaderOk.exclusive (h : LoaderOk pool slot l) :
    Exclusive pool (freePages l.kernel.vm.pmm) fun x => loaderOwn slot l (slot, x) := by
  have hstored : ∀ n a, loaderOwn slot l (slot, .inr n) = some a ↔ (storedPages l.storage)[n]? = some a := by
    intro n a
    simp [loaderOwn]
  have hspace := h.space.own
  rw [← Set.sdiff_union_of_subset h.stored]
  -- the owners in the process first, then those of the storage
  have hinl : Exclusive (pool \ {a | a ∈ storedPages l.storage}) (freePages l.kernel.vm.pmm)
      (Sum.elim (spaceOwn (l.kernel.space slot)) fun _ : Nat => none) := by
    refine ⟨?_, ?_, fun a => ?_⟩
    · rintro (x | n) (y | n') a hx hy
      · rw [hspace.inj x y a hx hy]
      · cases hy
      · cases hx
      · cases hx
    · rintro (x | n) a hx
      · exact hspace.apart x a hx
      · cases hx
    · rw [hspace.cover a]
      refine or_congr_right ⟨fun ⟨x, hx⟩ => ⟨.inl x, hx⟩, ?_⟩
      rintro ⟨x | n, hx⟩
      · exact ⟨x, hx⟩
      · cases hx
  refine hinl.gain (fun a ha hp => hp.2 ha) ?_ ?_ ?_ ?_
  · rintro (x | n) a hx
    · exact hx
    · cases hx
  · rintro (x | n) a hx
    · exact .inl hx
    · exact .inr (List.mem_of_getElem? ((hstored n a).mp hx))
  · rintro (x | n) (y | n') a ha hx hy
    · exact absurd ha ((hspace.cover a).mpr (.inr ⟨x, hx⟩)).2
    · exact absurd ha ((hspace.cover a).mpr (.inr ⟨x, hx⟩)).2
    · exact absurd ha ((hspace.cover a).mpr (.inr ⟨y, hy⟩)).2
    · have hn := (hstored n a).mp hx
      have hn' := (hstored n' a).mp hy
      obtain ⟨hlt, -⟩ := List.getElem?_eq_some_iff.mp hn
      rw [(List.getElem?_inj hlt h.nodup).mp (hn.trans hn'.symm)]
  · intro a ha
    obtain ⟨n, hn⟩ := List.mem_iff_getElem?.mp ha
    exact ⟨.inr n, (hstored n a).mpr hn⟩

/-- The owners while the loader works for a slot of `k`. -/
theorem LoaderStep.exclusive (hk : PagesOk pool k) (hl : LoaderStep (slotPool k slot) slot ⟨k, ⟨0, 0⟩⟩ l)
    (hother : ∀ j, j ≠ slot → l.kernel.processes j = k.processes j) :
    Exclusive pool (freePages l.kernel.vm.pmm) (loaderOwn slot l) := by
  have hreach : Reach (freePages k.vm.pmm) (loaderOwn slot ⟨k, ⟨0, 0⟩⟩) slot = slotPool k slot := by
    ext a
    refine or_congr_right ⟨?_, fun ⟨x, hx⟩ => ⟨.inl x, hx⟩⟩
    rintro ⟨x | n, hx⟩
    · exact ⟨x, hx⟩
    · simp [loaderOwn, storedPages] at hx
  refine (loaderOwn_empty slot hk.own).regroup (i := slot) ?_ fun j hj x => ?_
  · rw [hreach]
    exact hl.ok.exclusive
  · cases x with
    | inl x =>
      refine hk.own_other hj hl.frame ?_ x
      rw [hother j hj]
      exact .refl _
    | inr n => simp [loaderOwn, hj]

/-- The states of the loader, from an empty storage until the process owns its pages or the loader has given up. -/
inductive LoaderAt (env : Env ρ) (slot : SlotId) (k : Kernel ρ) : Loader ρ → Prop
  | start : LoaderAt env slot k ⟨k, ⟨0, 0⟩⟩
  | noImage {name : Path} {entryIndex : Nat} {l : Loader ρ}
    (h : loadNamedImage env name slot entryIndex ⟨k, ⟨0, 0⟩⟩ = .error () l) :
    LoaderAt env slot k l
  | image {name : Path} {entryIndex : Nat} {image : UserImage} {l : Loader ρ}
    (h : loadNamedImage env name slot entryIndex ⟨k, ⟨0, 0⟩⟩ = .ok image l) : LoaderAt env slot k l
  | failed {name : Path} {entryIndex memoryBase memorySize : Nat} {mapMmio : Option MapMmio} {image : UserImage}
    {l l' : Loader ρ}
    (h : loadNamedImage env name slot entryIndex ⟨k, ⟨0, 0⟩⟩ = .ok image l)
    (h' : initPanelProcess slot image memoryBase memorySize mapMmio l = .error () l') : LoaderAt env slot k l'
  | released {l : Loader ρ} (h : LoaderAt env slot k l) : LoaderAt env slot k ⟨processRelease slot l.kernel, l.storage⟩

/-- The permissions that the loader asks for, without more. -/
def loaderProt (slot : SlotId) (start : Nat) : Nat := if start = panelImageVaddr slot then imageFlags else stackFlags

theorem loaderProt_asked (slot : SlotId) (mapMmio : Option MapMmio) :
    LoadAsked False (loaderProt slot) slot mapMmio := by
  obtain ⟨-, h, -⟩ := vaddr_order slot
  have hne : panelStackVaddr slot ≠ panelImageVaddr slot := by
    unfold kernelUserImageSlotSize at h
    omega
  exact ⟨fun hno => hno.elim, by simp [loaderProt], by simp [loaderProt, hne]⟩

theorem LoaderAt.step (hk : PagesOk pool k) (hfresh : Fresh (k.processes slot)) (hl : LoaderAt env slot k l) :
    LoaderStep (slotPool k slot) slot ⟨k, ⟨0, 0⟩⟩ l ∧ ∀ j, j ≠ slot → l.kernel.processes j = k.processes j := by
  have hok : LoaderOk (slotPool k slot) slot ⟨k, ⟨0, 0⟩⟩ := .of_space (hk.space slot)
  induction hl with
  | start => exact ⟨.refl hok, fun _ _ => rfl⟩
  | noImage h =>
    obtain ⟨hstep, hproc⟩ := (loadNamedImage_memory hok rfl).of_error h
    exact ⟨hstep, fun j _ => by rw [hproc]⟩
  | image h =>
    obtain ⟨hstep, hproc, -⟩ := (loadNamedImage_memory hok rfl).of_ok h
    exact ⟨hstep, fun j _ => by rw [hproc]⟩
  | @failed _ _ memoryBase memorySize mapMmio image l₁ l₂ h h' =>
    obtain ⟨hstep, hproc, ⟨hi0, hs0⟩, hbase, hsize⟩ := (loadNamedImage_memory hok rfl).of_ok h
    have hfresh₁ : Fresh (l₁.kernel.processes slot) := by
      rw [hproc]
      exact hfresh
    have hinit := (initPanelProcess_memory hstep.ok hi0 hs0 hbase hsize hfresh₁
      (loaderProt_asked slot mapMmio)).of_error h'
    have hothers := (loaderSteps_others.initPanelProcess image memoryBase memorySize mapMmio l₁).of_error h'
    refine ⟨hstep.trans hinit, fun j hj => ?_⟩
    rw [hothers.1 j hj, hproc]
  | released _ ih =>
    refine ⟨ih.1.trans (processRelease_loader ih.1.ok), fun j hj => ?_⟩
    rw [← ih.2 j hj]
    exact processRelease_others hj

/-! ## Runs -/

/-- A slot that `app_spawn_vfs` has just allocated. -/
def BlockedSlot (pid : Nat) (name : Path) (k : Kernel ρ) (slot : SlotId) (k' : Kernel ρ) : Prop :=
  ∃ k₁, processAlloc pid name { processReclaimZombies k with nextSpawnPid := (pid + 1) % 2 ^ 32 } = some (slot, k₁) ∧
    k' = k₁.setProcess slot { k₁.processes slot with state := .blocked }

/-- The kernel when a loader starts in a state of the machine: for the panel, or in a system call. -/
inductive LoaderStarts (env : Env ρ) (m : Machine ρ) (slot : SlotId) (k : Kernel ρ) : Prop
  | boot (h : processAlloc panelBootPidBase panelBootApp (processReclaimZombies m.kernel) = some (slot, k))
  | spawn {regs : Frame} {pid : Nat} {name : Path} (h : BlockedSlot pid name
      (withCurrent (processSaveContext regs) { m.kernel with rest := env.poll m.kernel regs }) slot k)

theorem BlockedSlot.pages {pid : Nat} {name : Path} (h : MemOk tame pool prot k) (hb : BlockedSlot pid name k slot k') :
    PagesOk pool k' ∧ Fresh (k'.processes slot) := by
  have h₀ := reclaimZombies_memory h
  obtain ⟨k₁, halloc, rfl⟩ := hb
  generalize processReclaimZombies k = k₀ at h₀ halloc
  have h₁ : MemOk tame pool prot { k₀ with nextSpawnPid := (pid + 1) % 2 ^ 32 } :=
    h₀.same ⟨rfl, fun _ => .refl _, fun _ hu => hu, rfl⟩
  obtain ⟨h₂, hfresh, -⟩ := h₁.alloc halloc
  have hblocked : SameMemory k₁ (k₁.setProcess slot { k₁.processes slot with state := .blocked }) :=
    .setProcess ⟨rfl, rfl, rfl⟩ fun hu => by cases hu
  refine ⟨(h₂.same hblocked).pages, ?_⟩
  simp only [Kernel.setProcess, Function.update_self]
  exact ⟨hfresh.regions, hfresh.table, hfresh.next⟩

theorem LoaderStarts.pages (h : MemOk tame pool prot m.kernel) (hs : LoaderStarts env m slot k) :
    PagesOk pool k ∧ Fresh (k.processes slot) := by
  cases hs with
  | boot halloc =>
    obtain ⟨h₁, hfresh, -⟩ := (reclaimZombies_memory h).alloc halloc
    exact ⟨h₁.pages, hfresh⟩
  | @spawn regs _ _ hb =>
    have hpoll : SameMemory m.kernel { m.kernel with rest := env.poll m.kernel regs } :=
      ⟨rfl, fun _ => .refl _, fun _ hu => hu, rfl⟩
    exact hb.pages (h.same (hpoll.trans (saveContext_memory regs)))

/-- What is free is owned by nobody, what is not has one owner, nothing was freed that was not in use, and what a
process has mapped for EL0 is its own. -/
structure Ledger (pool : Set Nat) (k : Kernel ρ) : Prop where
  one : ∀ a ∈ pool, (a ∈ freePages k.vm.pmm ∧ ∀ x, kernelOwn k x ≠ some a) ∨
    (a ∉ freePages k.vm.pmm ∧ ∃! x, kernelOwn k x = some a)
  within : ∀ x a, kernelOwn k x = some a → a ∈ pool
  freed : k.vm.pmm.misfreed = false
  mapped : ∀ i va e, leafOf k.vm.mem (k.processes i).pageTable va = some e → e &&& descApUser ≠ 0 →
    ∃ r n, kernelOwn k (i, .region r n) = some (e &&& descAddrMask)

theorem MemOk.ledger (h : MemOk True pool prot k) : Ledger pool k := by
  refine ⟨fun a ha => h.pages.own.one_owner ha, fun x a hx => (h.pages.own.cover a).mpr (.inr ⟨x, hx⟩), h.pages.clean,
    fun i va e he hu => ?_⟩
  obtain ⟨r, -, j, -, -, hown, -⟩ := h.user_leaf he hu
  exact ⟨r, j, hown⟩

/-- In every state of a run every page that was free at the start is free or has one owner; and so it is while a
program is loaded, with the storage of the loader as an owner. -/
theorem machineRun_pages (hm : MemoryBooted m₀) (hrun : Run (machineStep env (BoardMmio True)) m₀ m) :
    Ledger (freePages m₀.kernel.vm.pmm) m.kernel ∧
    ∀ env' slot k l, LoaderStarts env' m slot k → LoaderAt env' slot k l → l.kernel.vm.pmm.misfreed = false ∧
      ∀ a ∈ freePages m₀.kernel.vm.pmm, (a ∈ freePages l.kernel.vm.pmm ∧ ∀ x, loaderOwn slot l x ≠ some a) ∨
        (a ∉ freePages l.kernel.vm.pmm ∧ ∃! x, loaderOwn slot l x = some a) := by
  obtain ⟨asked, h⟩ := machineRun_memory hm hrun
  refine ⟨h.ledger, fun env' slot k l hs hl => ?_⟩
  obtain ⟨hk, hfresh⟩ := hs.pages h
  obtain ⟨hstep, hother⟩ := hl.step hk hfresh
  exact ⟨hstep.same.misfreed.trans hk.clean, fun a ha => (hstep.exclusive hk hother).one_owner ha⟩

theorem machineRun_pages_sample : ∃ m : Machine Unit,
    Run (machineStep sampleEnv (BoardMmio True)) sampleMachine m ∧ m.kernel.processCount = 2 ∧
      Ledger (freePages sampleMachine.kernel.vm.pmm) m.kernel := by
  obtain ⟨m, hm, hf⟩ := exists_sampleRun sampleEvents (fun m => m.kernel.processCount) 2 (by decide +kernel)
  have hrun : Run (machineStep sampleEnv (BoardMmio True)) sampleMachine m := Machine.run_steps sampleEvents_mmio hm
  exact ⟨m, hrun, hf, (machineRun_pages sampleMachine_memory hrun).1⟩

/-! ## Programs that come and go -/

/-- A call of a process that changes its memory. -/
inductive MemCall
  | mmap (hint size flags : UInt64)
  | munmap (addr size : UInt64)

/-- The call when the process in `slot` runs. -/
def MemCall.run (slot : SlotId) (k : Kernel ρ) : MemCall → Kernel ρ
  | .mmap hint size flags => (sysMmap hint size flags { k with current := some slot }).2
  | .munmap addr size => (sysMunmap addr size { k with current := some slot }).2

/-- The pages in `pool` are free or those of the process in `slot`; the other processes are those of `k`. -/
structure Alone (pool : Set Nat) (slot : SlotId) (k k' : Kernel ρ) : Prop where
  space : SpaceOk pool (k'.space slot)
  agrees : ∃ prot, SpaceAgrees False prot (k'.space slot)
  others : ∀ j, j ≠ slot → k'.processes j = k.processes j

theorem NoMemory.own {v : Vm} {p : Process} (h : NoMemory p) (x : SpaceOwner) : spaceOwn ⟨v, p⟩ x = none := by
  refine Option.eq_none_iff_forall_ne_some.mpr fun a ha => ?_
  cases x with
  | region r n =>
    have hr : r ∈ p.userRegions := (spaceOwn_region.mp ha).1
    rw [h.1] at hr
    cases hr
  | table path => exact (spaceOwn_table.mp ha).1 h.2

theorem SpaceOk.free_eq {s : Space} (h : SpaceOk pool s) (hno : NoMemory s.process) : freePages s.vm.pmm = pool := by
  rw [h.own.free_eq]
  simp [hno.own]

theorem MemCall.alone {c : MemCall} (h : Alone pool slot k k') : Alone pool slot k (c.run slot k') := by
  obtain ⟨prot, ha⟩ := h.agrees
  -- in both calls: what happens to the process, and nothing to the others
  have hafter : ∀ {prot' : Nat → Nat} {s : Space}, Remapped pool False prot' (k'.space slot) s →
      Alone pool slot k (Kernel.put { k' with current := some slot } slot s) := by
    intro prot' s hs
    have hspace : (Kernel.put { k' with current := some slot } slot s).space slot = s := Kernel.put_space
    refine ⟨?_, ⟨prot', ?_⟩, fun j hj => ?_⟩
    · rw [hspace]
      exact hs.step.ok
    · rw [hspace]
      exact hs.agrees
    · rw [Kernel.put_other hj]
      exact h.others j hj
  cases c with
  | mmap hint size flags =>
    let prot' := Function.update prot (k'.processes slot).nextUserVaddr ((flagsToVmm flags.toNat).getD 0)
    have hlow : ∀ a < (k'.processes slot).nextUserVaddr, prot' a = prot a :=
      fun a hlt => Function.update_of_ne (Nat.ne_of_lt hlt) _ _
    have hnew : ∀ f, flagsToVmm flags.toNat = some f → prot' (k'.processes slot).nextUserVaddr = f := by
      intro f hf
      simp only [prot', Function.update_self, hf, Option.getD_some]
    refine onCurrent_spec (P := fun _ k'' => Alone pool slot k k'') rfl ?_
    exact Wp.mono (userVmMapAnonymous_spec h.space ha hlow hnew) (fun _ s hs => hafter hs.1) fun _ _ hno => hno
  | munmap addr size =>
    refine onCurrent_spec (P := fun _ k'' => Alone pool slot k k'') rfl ?_
    exact Wp.mono (userVmUnmapAnonymous_spec h.space ha) (fun _ s hs => hafter hs.1) fun _ _ hno => hno

theorem MemCall.run_alone (calls : List MemCall) (h : Alone pool slot k k') :
    Alone pool slot k (calls.foldl (fun k c => c.run slot k) k') := by
  induction calls generalizing k' with
  | nil => exact h
  | cons c calls ih => exact ih (MemCall.alone h)

theorem foldl_release_idle (l : List SlotId) (hz : ∀ i ∈ l, (k.processes i).state ≠ .zombie) :
    l.foldl (fun k i => if (k.processes i).state = .zombie then processRelease i k else k) k = k := by
  induction l with
  | nil => rfl
  | cons i l ih =>
    rw [List.foldl_cons, if_neg (hz i List.mem_cons_self)]
    exact ih fun j hj => hz j (List.mem_cons_of_mem _ hj)

theorem reclaimZombies_idle (hz : ∀ i, (k.processes i).state ≠ .zombie) : processReclaimZombies k = k := by
  unfold processReclaimZombies
  exact foldl_release_idle slots fun i _ => hz i

/-- The only zombie is released. -/
theorem reclaimZombies_one (hz : (k.processes slot).state = .zombie)
    (hother : ∀ j, j ≠ slot → (k.processes j).state ≠ .zombie) : processReclaimZombies k = processRelease slot k := by
  have hfold : ∀ l : List SlotId, slot ∈ l →
      l.foldl (fun k i => if (k.processes i).state = .zombie then processRelease i k else k) k =
        processRelease slot k := by
    intro l
    induction l with
    | nil => exact fun hno => by cases hno
    | cons i l ih =>
      intro hin
      rw [List.foldl_cons]
      by_cases hi : i = slot
      · -- from here on there are no zombies
        subst hi
        rw [if_pos hz]
        refine foldl_release_idle l fun j _ => ?_
        rw [(processRelease_zombie hz).1]
        by_cases hj : j = i
        · subst hj
          simp [freeSlot]
        · rw [Function.update_of_ne hj]
          exact hother j hj
      · rw [if_neg (hother i hi)]
        exact ih (List.mem_of_ne_of_mem (Ne.symm hi) hin)
  unfold processReclaimZombies
  exact hfold slots (by simp [slots])

/-- The process ends and is reclaimed. -/
theorem Alone.reclaim (h : Alone pool slot k k') (hz : ∀ i, (k.processes i).state ≠ .zombie) (code : UInt64) :
    freePages (processReclaimZombies (processMarkExited env slot code k')).vm.pmm = pool := by
  have hmark : SameMemory k' (processMarkExited env slot code k') := processMarkExited_memory slot code
  have hstate : ((processMarkExited env slot code k').processes slot).state = .zombie := by
    unfold processMarkExited
    dsimp only
    split
    · assumption
    · simp [Kernel.setProcess]
  have hother : ∀ j, j ≠ slot → ((processMarkExited env slot code k').processes j).state ≠ .zombie := by
    intro j hj
    have hsame : (processMarkExited env slot code k').processes j = k'.processes j := by
      unfold processMarkExited
      dsimp only
      split
      · rfl
      · simp [Kernel.setProcess, Function.update_of_ne hj]
    rw [hsame, h.others j hj]
    exact hz j
  rw [reclaimZombies_one hstate hother]
  generalize processMarkExited env slot code k' = k₁ at hmark
  have hspace : SpaceOk pool (k₁.space slot) := by
    have hsame := hmark.processes slot
    refine SpaceOk.congr (p := k'.processes slot) ?_ ?_ (fun r _ => by rw [hsame.regions]) hsame.table
    · rw [hmark.vm]
      exact h.space
    · rw [hsame.regions]
      exact h.space.regions
  obtain ⟨hstep, hempty⟩ := processRelease_space hspace
  exact hstep.ok.free_eq hempty

theorem spawnInto_alone {name : Path} {entryIndex argvPtr argc : Nat} (h : SpaceOk pool (k.space slot))
    (hfresh : Fresh (k.processes slot)) :
    Wp (withLoader (spawnInto env name slot entryIndex argvPtr argc)) k
      (fun _ k' => Alone pool slot k k' ∧ (k'.processes slot).state = .ready) fun _ k' => freePages k'.vm.pmm =
        pool := by
  refine wp_onPart.mpr ?_
  unfold spawnInto
  refine wp_bind.mpr (wp_get.mpr (wp_bind.mpr ?_))
  refine Wp.mono (Wp.and (loadProcess_memory h hfresh (loaderProt_asked slot k.spawnMapMmio))
    (loaderSteps_others.loadProcess name entryIndex _ _ _ ⟨k, ⟨0, 0⟩⟩)) (fun _ l hl => ?_) fun _ l hl => ?_
  · obtain ⟨hmem, hother, -⟩ := hl
    refine wp_bind.mpr (wp_get.mpr ?_)
    split
    · -- the arguments do not fit
      obtain ⟨hstep, hempty⟩ := processRelease_space hmem.step.ok
      exact wp_bind.mpr (wp_onPart.mpr (wp_modify.mpr (hstep.ok.free_eq hempty)))
    · rename_i argvVaddr _
      have harg : SameSpace (l.kernel.processes slot) (setArguments argvVaddr argc (l.kernel.processes slot)) := by
        unfold setArguments
        dsimp only
        split <;> exact ⟨rfl, rfl, rfl⟩
      refine wp_onPart.mpr (wp_modify.mpr ?_)
      refine ⟨⟨?_, ⟨loaderProt slot, ?_⟩, fun j hj => ?_⟩, ?_⟩
      · simp only [Kernel.space, Kernel.setProcess, Function.update_self]
        refine hmem.step.ok.congr ?_ (fun r _ => ?_) harg.table
        · exact harg.regions ▸ hmem.step.ok.regions
        · show r ∈ (setArguments argvVaddr argc (l.kernel.processes slot)).userRegions ↔ _
          rw [harg.regions]
      · simp only [Kernel.space, Kernel.setProcess, Function.update_self]
        exact hmem.agrees.congr ⟨harg.regions, harg.table, harg.next⟩ fun _ => rfl
      · simp only [Kernel.setProcess, Function.update_of_ne hj]
        exact hother j hj
      · simp [Kernel.setProcess]
  · exact hl.1.step.ok.free_eq hl.1.empty

theorem appSpawnVfs_alone {path : Path} {entryIndex argvPtr argc : Nat} (h : MemOk tame pool prot k)
    (hz : ∀ i, (k.processes i).state ≠ .zombie) :
    Wp (appSpawnVfs env path entryIndex argvPtr argc) k
      (fun _ k' => ∃ slot, (k.processes slot).state = .unused ∧ (k'.processes slot).state = .ready ∧
        Alone (freePages k.vm.pmm) slot k k') fun _ k' => freePages k'.vm.pmm = freePages k.vm.pmm := by
  unfold appSpawnVfs
  refine wp_bind.mpr (wp_get.mpr (wp_guard (fun _ => rfl) fun _ => ?_))
  split
  · exact wp_throw.mpr rfl
  refine wp_guard (fun _ => rfl) fun _ => ?_
  refine wp_bind.mpr (wp_modify.mpr ?_)
  rw [reclaimZombies_idle hz]
  refine wp_bind.mpr (wp_get.mpr (wp_bind.mpr (wp_modify.mpr (wp_bind.mpr (wp_get.mpr ?_)))))
  split
  · exact wp_throw.mpr rfl
  · rename_i slot k₂ halloc
    obtain ⟨hunused, -, hprocs⟩ := processAlloc_spec halloc
    obtain ⟨hvm, -⟩ := processAlloc_vm halloc
    have hfree : SpaceOk (freePages k.vm.pmm) (k.space slot) := by
      have hslot := h.pages.space slot
      have hpool : freePages k.vm.pmm = slotPool k slot := hslot.free_eq (h.idle slot hunused)
      rw [hpool]
      exact hslot
    obtain ⟨hnil, hzero⟩ := h.idle slot hunused
    refine wp_bind.mpr (wp_set.mpr (wp_bind.mpr ?_))
    have hspace : SpaceOk (freePages k.vm.pmm)
        ((k₂.setProcess slot { k₂.processes slot with state := .blocked }).space slot) := by
      simp only [Kernel.space, Kernel.setProcess, hprocs, hvm, Function.update_self]
      refine hfree.congr .nil (fun r _ => ?_) hzero.symm
      show r ∈ [] ↔ r ∈ (k.processes slot).userRegions
      rw [hnil]
    have hfresh : Fresh ((k₂.setProcess slot { k₂.processes slot with state := .blocked }).processes slot) := by
      simp only [Kernel.setProcess, hprocs, Function.update_self]
      exact ⟨rfl, rfl, rfl⟩
    refine Wp.mono (spawnInto_alone hspace hfresh) (fun _ k' hk => wp_pure.mpr ?_) fun _ _ hk => hk
    refine ⟨slot, hunused, hk.2, hk.1.space, hk.1.agrees, fun j hj => ?_⟩
    rw [hk.1.others j hj]
    simp only [Kernel.setProcess, hprocs, Function.update_of_ne hj]

/-- The kernel `k` is that of a state without zombies, also once a system call has saved the context in it. If a
program cannot be started, the free pages are those before; if it can, they are so once it has ended and is
reclaimed, whatever memory it asked for or gave back. -/
theorem machineRun_no_leak (hm : MemoryBooted m₀) (hrun : Run (machineStep env AnyEvent) m₀ m)
    (hk : SameMemory m.kernel k) (hz : ∀ i, (k.processes i).state ≠ .zombie) (env' : Env ρ) (path : Path)
    (entryIndex argvPtr argc : Nat) :
    Wp (appSpawnVfs env' path entryIndex argvPtr argc) k
      (fun _ k' => (∃ slot, spawned k k' slot = true) ∧ ∀ slot, spawned k k' slot = true →
        ∀ (calls : List MemCall) (code : UInt64),
        freePages (processReclaimZombies
          (processMarkExited env' slot code (calls.foldl (fun k c => MemCall.run slot k c) k'))).vm.pmm =
          freePages k.vm.pmm)
      fun _ k' => freePages k'.vm.pmm = freePages k.vm.pmm := by
  have hany : Run (machineStep env (BoardMmio False)) m₀ m :=
    Relation.ReflTransGen.mono (fun s t ⟨env', e, hsib, _, hnext⟩ => ⟨env', e, hsib, fun hno => hno.elim,
      hnext⟩) _ _ hrun
  obtain ⟨asked, h⟩ := machineRun_memory hm hany
  refine Wp.mono (appSpawnVfs_alone (h.same hk) hz) (fun _ k' hk' => ?_) fun _ _ hk' => hk'
  obtain ⟨slot, hunused, hready, halone⟩ := hk'
  refine ⟨⟨slot, by simp [spawned, hunused, hready]⟩, fun slot' hslot calls code => ?_⟩
  -- no other slot was started
  have heq : slot' = slot := by
    by_contra hne
    simp [spawned, halone.others slot' hne] at hslot
    rcases hslot.2 with hno | hno
    · rw [hslot.1] at hno
      cases hno
    · exact hz slot' hno
  subst heq
  exact (MemCall.run_alone calls halone).reclaim hz code

theorem machineRun_no_leak_sample : ∃ m : Machine Unit, Run (machineStep sampleEnv AnyEvent) sampleMachine m ∧
    (∀ i, (m.kernel.processes i).state ≠ .zombie) ∧
    ∃ pid k', appSpawnVfs sampleEnv (armoniosRoot ++ [97]) 0 0 0 m.kernel = .ok pid k' ∧ ∃ slot,
      freePages (processReclaimZombies (processMarkExited sampleEnv slot 0
        ([.mmap 0 4096 3, .munmap 0 1].foldl (fun k c => MemCall.run slot k c) k'))).vm.pmm =
          freePages m.kernel.vm.pmm := by
  obtain ⟨m, hm, hf⟩ := exists_sampleRun [sampleBoot, .launch sampleRegs]
    (fun m => (decide (∀ i, (m.kernel.processes i).state ≠ .zombie),
      match appSpawnVfs sampleEnv (armoniosRoot ++ [97]) 0 0 0 m.kernel with
      | .ok _ _ => true
      | .error _ _ => false)) (true, true) (by decide +kernel)
  obtain ⟨hz, hok⟩ := Prod.mk.inj hf
  have hz := of_decide_eq_true hz
  have hrun : Run (machineStep sampleEnv AnyEvent) sampleMachine m := Machine.run_steps (fun _ _ _ => trivial) hm
  have hspawn := machineRun_no_leak sampleMachine_memory hrun (.refl m.kernel) hz sampleEnv (armoniosRoot ++ [97]) 0 0 0
  cases hres : appSpawnVfs sampleEnv (armoniosRoot ++ [97]) 0 0 0 m.kernel with
  | error e k' =>
    rw [hres] at hok
    cases hok
  | ok pid k' =>
    obtain ⟨⟨slot, hslot⟩, hfree⟩ := hspawn.of_ok hres
    exact ⟨m, hrun, hz, pid, k', hres, slot, hfree slot hslot _ 0⟩

end Armonios
