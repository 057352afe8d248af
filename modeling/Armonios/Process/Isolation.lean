import Armonios.Lib.Run
import Armonios.Process.Context
import Armonios.Process.Memory

/-!
# Isolation

What holds of the pages and the page tables in every state of a run. `Asked` is a ghost: the flags with which
`mmap` was called, by process and address; it says which permissions the regions have (`protOf`).

* `machineRun_isolation`: EL0 reaches the pages of its own regions and no others;
* `trackedRun_writable`: the accepted buffers that the kernel can write to.
-/

namespace Armonios

/-- The flags of the last `mmap` that would have put a region there, by slot and address. -/
abbrev Asked := SlotId → Nat → UInt64

variable {ρ : Type} {env : Env ρ} {k k' : Kernel ρ} {m m' m₀ : Machine ρ} {pool : Set Nat} {tame : Prop} {asked : Asked}

/-- The permissions of the region that starts at an address. -/
def protOf (asked : Asked) (i : SlotId) (start : Nat) : Nat :=
  if start = panelImageVaddr i then imageFlags
  else if start = panelStackVaddr i then stackFlags
  else (flagsToVmm (asked i start).toNat).getD 0

/-- The ghost after a system call. -/
def askedAfter (k : Kernel ρ) (frame : Frame) (asked : Asked) : Asked :=
  if frame.arg 8 = sysMmapNr then
    match k.current with
    | some i => Function.update asked i (Function.update (asked i) (k.processes i).nextUserVaddr (frame.arg 2))
    | none => asked
  else asked

theorem protOf_loader (asked : Asked) : LoaderProt (protOf asked) := by
  intro i
  obtain ⟨-, h, -⟩ := vaddr_order i
  have hne : panelStackVaddr i ≠ panelImageVaddr i := by
    unfold kernelUserImageSlotSize at h
    omega
  exact ⟨by simp [protOf], by simp [protOf, hne]⟩

theorem protAfter_asked {frame : Frame} (h : MemOk tame pool (protOf asked) k) (hmmap : frame.arg 8 = sysMmapNr) :
    ProtAfter k (frame.arg 2).toNat (protOf asked) (protOf (askedAfter k frame asked)) := by
  unfold askedAfter
  rw [if_pos hmmap]
  refine ⟨fun j hj => ?_, fun i hi a ha => ?_, fun i f hi ht hf => ?_⟩
  · cases hc : k.current with
    | none => rfl
    | some i =>
      have hji : j ≠ i := fun he => hj (he ▸ hc)
      funext a
      simp only [protOf, Function.update_of_ne hji]
  · rw [hi]
    simp only [protOf, Function.update_self, Function.update_of_ne (Nat.ne_of_lt ha)]
  · -- above images and stacks
    obtain ⟨-, h1, h2⟩ := vaddr_order i
    have hbase : processUserMmapBase ≤ (k.processes i).nextUserVaddr := (h.agrees i ht).next.base
    unfold kernelUserImageSlotSize at h1
    unfold kernelUserStackSize at h2
    rw [hi]
    unfold protOf
    rw [if_neg (by omega), if_neg (by omega)]
    simp [hf]

theorem askedAfter_other {frame : Frame} (h : frame.arg 8 ≠ sysMmapNr) : askedAfter k frame asked = asked := by
  unfold askedAfter
  rw [if_neg h]

theorem simpleCall_memory (env : Env ρ) (frame : Frame) (h : MemOk tame pool (protOf asked) k) :
    MemOk tame pool (protOf (askedAfter k frame asked)) (simpleCall env frame k).2 := by
  have hprot := protOf_loader asked
  by_cases hmmap : frame.arg 8 = sysMmapNr
  · have hcall : (simpleCall env frame k).2 = (sysMmap (frame.arg 0) (frame.arg 1) (frame.arg 2) k).2 := by
      unfold simpleCall
      simp only [hmmap]
      rfl
    rw [hcall]
    exact sysMmap_memory h (protAfter_asked h hmmap)
  · rw [askedAfter_other hmmap]
    unfold simpleCall
    dsimp only
    split
    · exact h
    split
    · exact sysSpawn_memory h hprot
    split
    · exact sysSpawnArgv_memory h hprot
    split
    · exact sysWait_memory h
    split
    · exact h.same sysKill_memory
    split
    · exact sysMunmap_memory h
    split
    · exact h
    · exact h.same ⟨rfl, fun _ => .refl _, fun _ hu => hu, rfl⟩

/-- The address of the next region and the current process do not depend on saved contexts. -/
theorem askedAfter_same {frame : Frame} (hc : k'.current = k.current) (hs : SameMemory k k') :
    askedAfter k' frame asked = askedAfter k frame asked := by
  unfold askedAfter
  rw [hc]
  split
  · cases k.current with
    | none => rfl
    | some i =>
      dsimp only
      rw [(hs.processes i).next]
  · rfl

theorem withCurrent_current (f : Process → Process) : (withCurrent f k).current = k.current := by
  unfold withCurrent
  split
  · rfl
  · rfl

theorem syscallDispatch_memory {frame : Frame} (h : MemOk tame pool (protOf asked) k) :
    MemOk tame pool (protOf (askedAfter k frame asked)) (syscallDispatch env frame k).2 := by
  have hpoll : SameMemory k { k with rest := env.poll k frame } := ⟨rfl, fun _ => .refl _, fun _ hu => hu, rfl⟩
  have hsave := hpoll.trans (saveContext_memory frame)
  have hcur : (withCurrent (processSaveContext frame) { k with rest := env.poll k frame }).current = k.current :=
    withCurrent_current _
  unfold syscallDispatch
  dsimp only
  generalize withCurrent (processSaveContext frame) { k with rest := env.poll k frame } = k₁ at hsave hcur ⊢
  have h₁ := h.same hsave
  -- what is saved at the end changes no memory either
  have hend : ∀ {asked' : Asked} {r : Frame × Kernel ρ}, MemOk tame pool (protOf asked') r.2 →
      MemOk tame pool (protOf asked') (withCurrent (saveReturn r.1) r.2) :=
    fun hr => hr.same (withCurrent_memory fun p => ⟨⟨rfl, rfl, rfl⟩, rfl⟩)
  split
  · rename_i hnr
    rw [askedAfter_other (by rw [hnr]; decide)]
    exact hend (h₁.same (endCurrent_memory _ _))
  split
  · rename_i hnr
    rw [askedAfter_other (by rw [hnr]; decide)]
    exact hend (h₁.same (sysYield_memory _))
  · have hcall := simpleCall_memory env frame h₁
    rw [askedAfter_same hcur hsave] at hcall
    exact hend (r := (frame.setX0 (simpleCall env frame k₁).1, (simpleCall env frame k₁).2)) hcall

/-! ## Runs -/

/-- A machine with the ghost. -/
structure Tracked (ρ : Type) where
  machine : Machine ρ
  asked : Asked

/-- The ghost after an event. -/
def Machine.askedNext (m : Machine ρ) (e : Event) (asked : Asked) : Asked :=
  match e, m.cpu with
  | .svc, .user regs => askedAfter m.kernel regs asked
  | _, _ => asked

/-- The board that starts the panel maps its devices without `VMM_FLAG_USER`, as `board_map_mmio` of both boards does. -/
def BoardMmio (tame : Prop) (_ : Machine ρ) (e : Event) : Prop :=
  tame → ∀ memoryBase memorySize mmio, e = .boot memoryBase memorySize (some mmio) → mmio.NoUser

def trackedStep (env : Env ρ) (cond : Machine ρ → Event → Prop) (t t' : Tracked ρ) : Prop :=
  ∃ env' e, env.Sibling env' ∧ cond t.machine e ∧ t.machine.next env' e = some t'.machine ∧
    t'.asked = t.machine.askedNext e t.asked

theorem next_memory {e : Event} (h : MemOk tame pool (protOf asked) m.kernel) (hcond : BoardMmio tame m e)
    (hnext : m.next env e = some m') : MemOk tame pool (protOf (m.askedNext e asked)) m'.kernel := by
  have hprot := protOf_loader asked
  cases e with
  | boot memoryBase memorySize mapMmio =>
    have hm : tame → ∀ mmio, mapMmio = some mmio → mmio.NoUser :=
      fun ht mmio he => hcond ht memoryBase memorySize mmio (by rw [he])
    have hboot := panelBootEnter_memory env memoryBase memorySize h hprot hm
    simp only [Machine.next] at hnext
    split at hnext
    · unfold Wp at hboot
      split at hboot
      · rename_i hrun
        rw [hrun] at hnext
        cases hnext
        exact hboot
      · rename_i hrun
        rw [hrun] at hnext
        cases hnext
        exact hboot
    · cases hnext
  | launch x =>
    simp only [Machine.next] at hnext
    split at hnext
    · cases hnext
      exact h
    · cases hnext
  | run regs =>
    simp only [Machine.next] at hnext
    split at hnext
    · split at hnext
      · cases hnext
        exact h
      · cases hnext
    · cases hnext
  | svc =>
    simp only [Machine.next] at hnext
    cases hc : m.cpu <;> rw [hc] at hnext <;> cases hnext
    rename_i regs
    simp only [Machine.askedNext, hc]
    exact syscallDispatch_memory h
  | fault =>
    simp only [Machine.next] at hnext
    split at hnext
    · cases hnext
      exact h.same (handleUserFault_memory _)
    · cases hnext
  | irq irq =>
    simp only [Machine.next] at hnext
    split at hnext
    · cases hnext
      exact h.same (irqHandlerFrame_memory _ _)
    · cases hnext
  | irqEl1 irq regs =>
    simp only [Machine.next] at hnext
    split at hnext
    · cases hnext
    · obtain ⟨cpu, -, hm⟩ := Option.map_eq_some_iff.mp hnext
      rw [← hm]
      exact h.same (irqHandlerFrame_memory _ _)
  | eret =>
    simp only [Machine.next] at hnext
    split at hnext
    · cases hnext
      exact h
    · cases hnext
  | leave =>
    simp only [Machine.next] at hnext
    split at hnext
    · cases hnext
      exact panelBootLeave_memory h
    · cases hnext

/-- Before the first `panel_boot_run`: the process table is zeroed and no page is owned. -/
structure MemoryBooted (m : Machine ρ) : Prop where
  booted : Booted m
  pmm : PmmOk m.kernel.vm.pmm
  clean : m.kernel.vm.pmm.misfreed = false
  empty : ∀ i, NoMemory (m.kernel.processes i)
  mmio : m.kernel.spawnMapMmio = none

theorem MemoryBooted.memOk (h : MemoryBooted m) (asked : Asked) :
    MemOk tame (freePages m.kernel.vm.pmm) (protOf asked) m.kernel := by
  have hown : ∀ x, kernelOwn m.kernel x = none := by
    rintro ⟨i, ⟨r, n⟩ | p⟩
    · refine Option.eq_none_iff_forall_ne_some.mpr fun a ha => ?_
      have hr : r ∈ (m.kernel.processes i).userRegions := (spaceOwn_region.mp ha).1
      rw [(h.empty i).1] at hr
      cases hr
    · exact Option.eq_none_iff_forall_ne_some.mpr fun a ha => (spaceOwn_table.mp ha).1 (h.empty i).2
  refine ⟨⟨h.pmm, h.clean, fun a ha => ⟨freePages_subset_managed ha, ?_⟩, fun i => ?_, ?_⟩, fun i _ => h.empty i,
    fun i _ => (h.empty i).1, fun i hi => absurd (h.empty i).2 hi, fun _ mmio hmm => ?_⟩
  · rintro rfl
    exact h.pmm.zero ha
  · rw [(h.empty i).1]
    exact .nil
  · refine ⟨fun x y a hx => ?_, fun x a hx => ?_, fun a => ?_⟩
    · rw [hown] at hx
      cases hx
    · rw [hown] at hx
      cases hx
    · simp [hown]
  · rw [h.mmio] at hmm
    cases hmm

/-- The invariant in every state of a run. -/
theorem trackedRun_memory {t₀ t : Tracked ρ} (hm : MemoryBooted t₀.machine)
    (hrun : Run (trackedStep env (BoardMmio tame)) t₀ t) :
    MemOk tame (freePages t₀.machine.kernel.vm.pmm) (protOf t.asked) t.machine.kernel := by
  refine hrun.invariant (fun t => MemOk tame _ (protOf t.asked) t.machine.kernel) (fun s t hs hst => ?_) (hm.memOk _)
  obtain ⟨env', e, -, hcond, hnext, hasked⟩ := hst
  rw [hasked]
  exact next_memory hs hcond hnext

theorem machineRun_memory (hm : MemoryBooted m₀) (hrun : Run (machineStep env (BoardMmio tame)) m₀ m) :
    ∃ asked, MemOk tame (freePages m₀.kernel.vm.pmm) (protOf asked) m.kernel := by
  refine hrun.invariant (fun m => ∃ asked, MemOk tame (freePages m₀.kernel.vm.pmm) (protOf asked) m.kernel)
    (fun s t hs hst => ?_) ⟨fun _ _ => 0, hm.memOk _⟩
  obtain ⟨asked, hs⟩ := hs
  obtain ⟨env', e, -, hcond, hnext⟩ := hst
  exact ⟨s.askedNext e asked, next_memory hs hcond hnext⟩

/-! ## What EL0 can reach -/

variable {prot : SlotId → Nat → Nat} {i : SlotId}

theorem MemOk.table_of_region {r : UserRegion} (h : MemOk tame pool prot k) (hr : r ∈ (k.processes i).userRegions) :
    (k.processes i).pageTable ≠ 0 := by
  intro h0
  rw [h.empty i h0] at hr
  cases hr

/-- A page of a region is a page of the pool. -/
theorem MemOk.region_page {r : UserRegion} {j : Nat} (h : MemOk tame pool prot k) (ht : (k.processes i).pageTable ≠ 0)
    (hr : r ∈ (k.processes i).userRegions) (hj : j < r.pages) :
    kernelOwn k (i, .region r j) = some (r.paddr + j * pageSize) ∧ (r.paddr + j * pageSize) % pageSize = 0 ∧
      r.paddr + j * pageSize < 2 ^ 48 := by
  have hown : kernelOwn k (i, .region r j) = some (r.paddr + j * pageSize) :=
    spaceOwn_region.mpr ⟨hr, (h.agrees i ht).agrees.owned r hr, hj, rfl⟩
  have hreal := h.pages.real _ ((h.pages.own.cover _).mpr (.inr ⟨_, hown⟩))
  have hbound := h.pages.pmm.page_bound hreal.1
  refine ⟨hown, h.pages.pmm.page_aligned hreal.1, ?_⟩
  unfold pageSize at hbound ⊢
  omega

/-- An entry that EL0 can use is that of a page of a region. -/
theorem MemOk.user_leaf {va e : Nat} (h : MemOk True pool prot k)
    (he : leafOf k.vm.mem (k.processes i).pageTable va = some e) (hu : e &&& descApUser ≠ 0) :
    ∃ r ∈ (k.processes i).userRegions, ∃ j < r.pages, leafKey va = leafKey (r.start + j * pageSize) ∧
      kernelOwn k (i, .region r j) = some (e &&& descAddrMask) ∧
        e = pageDescriptor (r.paddr + j * pageSize) (prot i r.start) := by
  have ht : (k.processes i).pageTable ≠ 0 := by
    intro h0
    rw [h0, leafOf_zero] at he
    cases he
  obtain ⟨r, hr, j, hj, hkey⟩ := (h.agrees i ht).agrees.only trivial va e he hu
  have hmapped := (h.agrees i ht).agrees.mapped r hr j hj
  rw [← leafOf_key _ _ hkey] at hmapped
  have heq : e = pageDescriptor (r.paddr + j * pageSize) (prot i r.start) :=
    Option.some.inj (he.symm.trans hmapped)
  obtain ⟨hown, hal, hb⟩ := h.region_page ht hr hj
  refine ⟨r, hr, j, hj, hkey, ?_, heq⟩
  rw [heq, pageDescriptor_addr hal hb]
  exact hown

/-- The entry for an address in a region. -/
theorem MemOk.region_leaf {va : Nat} {r : UserRegion} (h : MemOk tame pool prot k)
    (hr : r ∈ (k.processes i).userRegions)
    (h1 : r.start ≤ va) (h2 : va < r.stop) :
    ∃ j < r.pages, va / pageSize = (r.start + j * pageSize) / pageSize ∧
      leafOf k.vm.mem (k.processes i).pageTable va = some
        (pageDescriptor (r.paddr + j * pageSize) (prot i r.start)) := by
  have ht := h.table_of_region hr
  have ha := (h.agrees i ht).agrees
  have hstop := ha.stop_eq (h.pages.regions i) hr
  have hal := (ha.aligned r hr).1
  have hj : (va - r.start) / pageSize < r.pages := by
    rw [hstop] at h2
    exact Nat.div_lt_of_lt_mul (by rw [Nat.mul_comm]; omega)
  have hpage : va / pageSize = (r.start + (va - r.start) / pageSize * pageSize) / pageSize := by
    unfold pageSize at *
    omega
  refine ⟨_, hj, hpage, ?_⟩
  rw [leafOf_key _ _ (leafKey_of_page hpage)]
  exact ha.mapped r hr _ hj

/-- EL0 of the process in slot `i` can use the page of an address. -/
def UserPage (k : Kernel ρ) (i : SlotId) (va : Nat) : Prop :=
  ∃ e, leafOf k.vm.mem (k.processes i).pageTable va = some e ∧ e &&& descApUser ≠ 0

theorem MemOk.userPage_iff {va : Nat} (h : MemOk True pool prot k) (hva : va < 2 ^ 48) :
    UserPage k i va ↔ ∃ r ∈ (k.processes i).userRegions, r.start ≤ va ∧ va < r.stop := by
  constructor
  · rintro ⟨e, he, hu⟩
    obtain ⟨r, hr, j, hj, hkey, -, -⟩ := h.user_leaf he hu
    have ht := h.table_of_region hr
    have ha := (h.agrees i ht).agrees
    have hstop := ha.stop_eq (h.pages.regions i) hr
    have hbound := ha.bound r hr
    have hal := (ha.aligned r hr).1
    unfold processUserMmapLimit at hbound
    have hlow : r.start + j * pageSize < 2 ^ 48 := by
      unfold pageSize at *
      omega
    have hpage := page_of_leafKey hva hlow hkey
    refine ⟨r, hr, ?_, ?_⟩ <;> unfold pageSize at * <;> omega
  · rintro ⟨r, hr, h1, h2⟩
    have ht := h.table_of_region hr
    obtain ⟨j, hj, -, hleaf⟩ := h.region_leaf hr h1 h2
    refine ⟨_, hleaf, fun hno => ?_⟩
    exact (h.agrees i ht).agrees.user r hr ((pageDescriptor_user _ _).mp hno)

/-- What `process_user_range_contains` accepts is in one region. -/
theorem contains_region {p : Process} {start size : Nat} (h0 : size ≠ 0)
    (h : processUserRangeContains start size p = true) :
    ∃ r ∈ p.userRegions, r.start ≤ start ∧ start + size ≤ r.stop := by
  unfold processUserRangeContains userRegionEnd at h
  rw [decide_eq_false h0, Bool.false_or] at h
  by_cases hend : size = 0 ∨ start > uint64Max - size
  · rw [if_pos hend] at h
    cases h
  · rw [if_neg hend] at h
    simp only [List.any_eq_true, decide_eq_true_eq] at h
    exact h

/-- In every state of a run, for every process: EL0 can use exactly the addresses in its regions; in a region
they are mapped to its pages in order; and what `process_user_range_contains` accepts is mapped. -/
theorem machineRun_isolation (hm : MemoryBooted m₀) (hrun : Run (machineStep env (BoardMmio True)) m₀ m) (i : SlotId) :
    (∀ va < 2 ^ 48, UserPage m.kernel i va ↔
      ∃ r ∈ (m.kernel.processes i).userRegions, r.start ≤ va ∧ va < r.stop) ∧
    (∀ r ∈ (m.kernel.processes i).userRegions, ∀ va, va % pageSize = 0 → r.start ≤ va → va < r.stop →
      ∃ e, leafOf m.kernel.vm.mem (m.kernel.processes i).pageTable va = some e ∧ e &&& descApUser ≠ 0 ∧
        e &&& descAddrMask = r.paddr + (va - r.start)) ∧
    (∀ start size, size ≠ 0 → processUserRangeContains start size (m.kernel.processes i) = true →
      ∀ va, start ≤ va → va < start + size → UserPage m.kernel i va) := by
  obtain ⟨asked, h⟩ := machineRun_memory hm hrun
  refine ⟨fun va hva => h.userPage_iff hva, fun r hr va hal h1 h2 => ?_, fun start size h0 hc va h1 h2 => ?_⟩
  · have ht := h.table_of_region hr
    obtain ⟨j, hj, hpage, hleaf⟩ := h.region_leaf hr h1 h2
    obtain ⟨-, hpal, hpb⟩ := h.region_page ht hr hj
    refine ⟨_, hleaf, fun hno => (h.agrees i ht).agrees.user r hr ((pageDescriptor_user _ _).mp hno), ?_⟩
    rw [pageDescriptor_addr hpal hpb]
    have hsal := ((h.agrees i ht).agrees.aligned r hr).1
    unfold pageSize at *
    omega
  · obtain ⟨r, hr, hr1, hr2⟩ := contains_region h0 hc
    have hbound := (h.agrees i (h.table_of_region hr)).agrees.bound r hr
    unfold processUserMmapLimit at hbound
    exact (h.userPage_iff (by omega)).mpr ⟨r, hr, by omega, by omega⟩

theorem sampleMachine_memory : MemoryBooted sampleMachine := by
  have hbase : sampleMachine.kernel.vm.pmm.memBase = 0x40000000 := by decide +kernel
  have htotal : sampleMachine.kernel.vm.pmm.totalPages = 64 := by decide +kernel
  refine ⟨sampleMachine_booted, ⟨?_, ?_, ?_⟩, by decide +kernel, fun _ => ⟨rfl, rfl⟩, rfl⟩
  · rw [hbase]
    decide
  · rw [hbase, htotal]
    decide
  · rintro ⟨page, -, -, h0⟩
    unfold pageAddr at h0
    omega

/-- No board of the sample has devices. -/
theorem sampleBoot_mmio {tame : Prop} {es : List Event} (hes : ∀ e ∈ es, e = sampleBoot ∨ ∀ b s d, e ≠ .boot b s d) :
    ∀ e ∈ es, ∀ m : Machine Unit, BoardMmio tame m e := by
  intro e he m _ b s d heq
  rcases hes e he with h | h
  · rw [h] at heq
    cases heq
  · exact absurd heq (h b s (some d))

theorem sampleEvents_mmio {tame : Prop} : ∀ e ∈ sampleEvents, ∀ m : Machine Unit, BoardMmio tame m e := by
  refine sampleBoot_mmio ?_
  simp [sampleEvents]

theorem machineRun_isolation_sample : ∃ m : Machine Unit,
    Run (machineStep sampleEnv (BoardMmio True)) sampleMachine m ∧
      processUserRangeContains 0x400000 8 (m.kernel.processes 0) = true ∧ UserPage m.kernel 0 0x400004 := by
  obtain ⟨m, hm, hf⟩ := exists_sampleRun sampleEvents
    (fun m => processUserRangeContains 0x400000 8 (m.kernel.processes 0)) true (by decide +kernel)
  have hrun : Run (machineStep sampleEnv (BoardMmio True)) sampleMachine m := Machine.run_steps sampleEvents_mmio hm
  obtain ⟨-, -, hrange⟩ := machineRun_isolation sampleMachine_memory hrun 0
  exact ⟨m, hrun, hf, hrange _ _ (by decide) hf _ (by decide) (by decide)⟩

/-! ## What the kernel can write -/

/-- The kernel can write to the page of an address through the table of the process. -/
def WritablePage (k : Kernel ρ) (i : SlotId) (va : Nat) : Prop :=
  ∃ e, leafOf k.vm.mem (k.processes i).pageTable va = some e ∧ e &&& descApRo = 0

/-- The region there is not that of the image, and was not asked for without `PROT_WRITE`. -/
def AskedWritable (asked : Asked) (i : SlotId) (start : Nat) : Prop :=
  start ≠ panelImageVaddr i ∧ (start = panelStackVaddr i ∨ (asked i start).toNat = 0 ∨
    (asked i start).toNat &&& userVmProtWrite ≠ 0)

theorem protOf_write {start : Nat} (hu : protOf asked i start &&& vmmFlagUser ≠ 0) :
    protOf asked i start &&& vmmFlagWrite ≠ 0 ↔ AskedWritable asked i start := by
  unfold protOf AskedWritable at *
  by_cases himage : start = panelImageVaddr i
  · simp only [himage, if_true, ne_eq, not_true, false_and, iff_false]
    decide
  rw [if_neg himage] at hu ⊢
  by_cases hstack : start = panelStackVaddr i
  · rw [if_pos hstack]
    exact iff_of_true (by decide) ⟨himage, .inl hstack⟩
  · rw [if_neg hstack] at hu ⊢
    cases hf : flagsToVmm (asked i start).toNat with
    | none =>
      rw [hf] at hu
      exact absurd (Nat.zero_and _) hu
    | some f =>
      rw [Option.getD_some, flagsToVmm_write hf]
      exact ⟨fun h => ⟨himage, .inr h⟩, fun h => h.2.resolve_left hstack⟩

theorem MemOk.writablePage_iff {va : Nat} {r : UserRegion} (h : MemOk tame pool (protOf asked) k)
    (hr : r ∈ (k.processes i).userRegions) (h1 : r.start ≤ va) (h2 : va < r.stop) :
    WritablePage k i va ↔ AskedWritable asked i r.start := by
  obtain ⟨j, -, -, hleaf⟩ := h.region_leaf hr h1 h2
  have hu := (h.agrees i (h.table_of_region hr)).agrees.user r hr
  rw [← protOf_write hu, ← pageDescriptor_readOnly (r.paddr + j * pageSize)]
  constructor
  · rintro ⟨e, he, hw⟩
    rw [hleaf] at he
    rwa [Option.some.inj he]
  · exact fun hw => ⟨_, hleaf, hw⟩

/-- A buffer that `sys_user_buf_out` accepts is in one region, and the kernel can write to it if and only if this
is neither the image nor a region that was asked for without `PROT_WRITE`. -/
theorem trackedRun_writable {t₀ t : Tracked ρ} (hm : MemoryBooted t₀.machine)
    (hrun : Run (trackedStep env fun _ _ => True) t₀ t) {i : SlotId} {ptr len : Nat} (h0 : len ≠ 0)
    (hbuf : userBufRange (t.machine.kernel.processes i) ptr len = true) :
    (∀ va, ptr ≤ va → va < ptr + len → WritablePage t.machine.kernel i va) ↔
      ∃ r ∈ (t.machine.kernel.processes i).userRegions, (r.start ≤ ptr ∧ ptr + len ≤ r.stop) ∧
        AskedWritable t.asked i r.start := by
  have hany : Run (trackedStep env (BoardMmio False)) t₀ t :=
    Relation.ReflTransGen.mono
      (fun s t ⟨env', e, hsib, _, hnext⟩ => ⟨env', e, hsib, fun hno => hno.elim, hnext⟩) _ _ hrun
  have h := trackedRun_memory hm hany
  unfold userBufRange at hbuf
  simp only [decide_eq_true_eq] at hbuf
  constructor
  · intro hw
    obtain ⟨r, hr, hr1, hr2⟩ := contains_region h0 hbuf.2
    exact ⟨r, hr, ⟨hr1, hr2⟩, (h.writablePage_iff hr hr1 (by omega)).mp (hw ptr (Nat.le_refl _) (by omega))⟩
  · rintro ⟨r, hr, ⟨hr1, hr2⟩, hasked⟩ va h1 h2
    exact (h.writablePage_iff hr (by omega) (by omega)).mpr hasked

/-- A run with the ghost. -/
theorem exists_trackedRun {cond : Machine ρ → Event → Prop} (asked : Asked) (hrun : Run (machineStep env cond) m₀ m) :
    ∃ asked', Run (trackedStep env cond) ⟨m₀, asked⟩ ⟨m, asked'⟩ := by
  induction hrun with
  | refl => exact ⟨asked, .refl⟩
  | tail _ hst ih =>
    obtain ⟨asked', hrun⟩ := ih
    obtain ⟨env', e, hsib, hcond, hnext⟩ := hst
    exact ⟨_, hrun.tail ⟨env', e, hsib, hcond, hnext, rfl⟩⟩

theorem trackedRun_writable_sample : ∃ t : Tracked Unit,
    Run (trackedStep sampleEnv fun _ _ => True) ⟨sampleMachine, fun _ _ => 0⟩ t ∧
      userBufRange (t.machine.kernel.processes 0) 0x800000 8 = true ∧
      ∀ va, 0x800000 ≤ va → va < 0x800000 + 8 → WritablePage t.machine.kernel 0 va := by
  obtain ⟨m, hm, hf⟩ := exists_sampleRun sampleEvents
    (fun m => (userBufRange (m.kernel.processes 0) 0x800000 8,
      (m.kernel.processes 0).userRegions.map fun r => (r.start, r.stop)))
    (true, [(0x400000, 0x402000), (0x800000, 0x801000)]) (by decide +kernel)
  obtain ⟨hbuf, hregions⟩ := Prod.mk.inj hf
  have hplain : Run (machineStep sampleEnv fun _ _ => True) sampleMachine m :=
    Machine.run_steps (fun _ _ _ => trivial) hm
  obtain ⟨asked, hrun⟩ := exists_trackedRun (fun _ _ => 0) hplain
  have hbooted : MemoryBooted (Tracked.mk sampleMachine fun _ _ => 0).machine := sampleMachine_memory
  refine ⟨⟨m, asked⟩, hrun, hbuf, (trackedRun_writable hbooted hrun (by decide) hbuf).mpr ?_⟩
  have hstack : ((0x800000 : Nat), (0x801000 : Nat)) ∈ (m.kernel.processes 0).userRegions.map fun r =>
    (r.start, r.stop) := by
    rw [hregions]
    decide
  obtain ⟨r, hr, heq⟩ := List.mem_map.mp hstack
  obtain ⟨h1, h2⟩ := Prod.mk.inj heq
  refine ⟨r, hr, ⟨by omega, by omega⟩, ?_, .inl ?_⟩
  · rw [h1]
    decide
  · rw [h1]
    decide

/-- A buffer in the image of the panel is accepted, and its page is read-only. -/
theorem sysUserBufOut_image_readOnly : ∃ m : Machine Unit, Run (machineStep sampleEnv fun _ _ => True) sampleMachine m ∧
    userBufRange (m.kernel.processes 0) 0x400000 8 = true ∧ ¬WritablePage m.kernel 0 0x400000 := by
  obtain ⟨m, hm, hf⟩ := exists_sampleRun sampleEvents
    (fun m => (userBufRange (m.kernel.processes 0) 0x400000 8,
      (leafOf m.kernel.vm.mem (m.kernel.processes 0).pageTable 0x400000).map (· &&& descApRo)))
    (true, some descApRo) (by decide +kernel)
  obtain ⟨hbuf, hleaf⟩ := Prod.mk.inj hf
  refine ⟨m, Machine.run_steps (fun _ _ _ => trivial) hm, hbuf, ?_⟩
  rintro ⟨e, he, hw⟩
  rw [he, Option.map_some, hw] at hleaf
  exact absurd hleaf (by decide)

end Armonios
