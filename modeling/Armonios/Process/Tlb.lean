import Armonios.Process.Pages

/-!
# Cached translations

The kernel with a TLB: any translations that were valid in the installed table since `mmu_set_ttbr0`, the only
function that invalidates any. The steps are EL0 accesses, `mmap`, `munmap` and switches.

* `tlbRun_owned`: as long as `munmap` is called for pages without a cached translation only, EL0 reaches its own
  pages only; a call for a page with one leaves EL0 with a page that is free.
-/

namespace Armonios

variable {ρ : Type} {env : Env ρ} {k k' : Kernel ρ} {m m₀ : Machine ρ} {pool : Set Nat} {tame : Prop}
  {prot : SlotId → Nat → Nat} {i j : SlotId}

/-- A translation is an address below `2 ^ 48` that was accessed and the entry that was found. -/
structure Cached (ρ : Type) where
  kernel : Kernel ρ
  tlb : Set (Nat × Nat)

/-- `process_activate_context` invalidates everything if the process has a table. -/
def afterSwitch (k : Kernel ρ) (tlb : Set (Nat × Nat)) : Set (Nat × Nat) :=
  match k.current with
  | some i => if (k.processes i).pageTable ≠ 0 then ∅ else tlb
  | none => tlb

/-- `cond` restricts the calls of `munmap`. -/
inductive TlbStep (cond : Cached ρ → UInt64 → UInt64 → Prop) : Cached ρ → Cached ρ → Prop
  | access {k : Kernel ρ} {tlb : Set (Nat × Nat)} {va e : Nat} (hva : va < 2 ^ 48)
    (he : leafOf k.vm.mem k.ttbr0 va = some e) : TlbStep cond ⟨k, tlb⟩ ⟨k, insert (va, e) tlb⟩
  | evict {k : Kernel ρ} {tlb tlb' : Set (Nat × Nat)} (h : tlb' ⊆ tlb) : TlbStep cond ⟨k, tlb⟩ ⟨k, tlb'⟩
  | mmap {k : Kernel ρ} {tlb : Set (Nat × Nat)} (hint size flags : UInt64) :
    TlbStep cond ⟨k, tlb⟩ ⟨(sysMmap hint size flags k).2, tlb⟩
  | munmap {k : Kernel ρ} {tlb : Set (Nat × Nat)} (addr size : UInt64) (h : cond ⟨k, tlb⟩ addr size) :
    TlbStep cond ⟨k, tlb⟩ ⟨(sysMunmap addr size k).2, tlb⟩
  | switch {k k' : Kernel ρ} {tlb : Set (Nat × Nat)} {policy : DispatchPolicy} {frame : Frame}
    (h : processDispatchNext k.current policy k = some (frame, k')) : TlbStep cond ⟨k, tlb⟩ ⟨k', afterSwitch k' tlb⟩

/-- No translation that EL0 can use is cached for the pages of the range. -/
def NotCached (s : Cached ρ) (addr size : UInt64) : Prop :=
  ∀ va e, (va, e) ∈ s.tlb → e &&& descApUser ≠ 0 → ¬(addr.toNat ≤ va ∧ va < addr.toNat + userPageAlignUp size.toNat)

/-- What EL0 of the current process can reach with the cached translations are its own pages. -/
def ReachesOwn (s : Cached ρ) : Prop :=
  ∀ i, s.kernel.current = some i → (s.kernel.processes i).pageTable ≠ 0 → ∀ va e, (va, e) ∈ s.tlb →
    e &&& descApUser ≠ 0 → ∃ r n, kernelOwn s.kernel (i, .region r n) = some (e &&& descAddrMask)

/-! ## The invariant -/

/-- The translation is that of a page of a region of process `i`. -/
def Covered (k : Kernel ρ) (i : SlotId) (va e : Nat) : Prop :=
  va < 2 ^ 48 ∧ ∃ r ∈ (k.processes i).userRegions, ∃ n < r.pages, leafKey va = leafKey (r.start + n * pageSize) ∧
    e &&& descAddrMask = r.paddr + n * pageSize

/-- The table of process `i` is installed, and the translations are those of its pages. -/
structure TlbOk (i : SlotId) (s : Cached ρ) : Prop where
  table : s.kernel.ttbr0 = (s.kernel.processes i).pageTable
  current : ∀ j, s.kernel.current = some j → (s.kernel.processes j).pageTable ≠ 0 → j = i
  covered : ∀ va e, (va, e) ∈ s.tlb → e &&& descApUser ≠ 0 → Covered s.kernel i va e

structure TlbInv (pool : Set Nat) (s : Cached ρ) : Prop where
  memory : ∃ prot, MemOk True pool prot s.kernel
  tlb : ∃ i, TlbOk i s

/-- An address on a page of a region is in the region. -/
theorem MemOk.in_region {va n : Nat} {r : UserRegion} (h : MemOk tame pool prot k)
    (hr : r ∈ (k.processes i).userRegions)
    (hn : n < r.pages) (hva : va < 2 ^ 48) (hkey : leafKey va = leafKey (r.start + n * pageSize)) :
    r.start ≤ va ∧ va < r.stop := by
  have ha := (h.agrees i (h.table_of_region hr)).agrees
  have hstop := ha.stop_eq (h.pages.regions i) hr
  have hbound := ha.bound r hr
  have hal := (ha.aligned r hr).1
  unfold processUserMmapLimit at hbound
  have hlow : r.start + n * pageSize < 2 ^ 48 := by
    unfold pageSize at *
    omega
  have heq := page_of_leafKey hva hlow hkey
  constructor <;> unfold pageSize at * <;> omega

theorem TlbInv.reachesOwn {s : Cached ρ} (h : TlbInv pool s) : ReachesOwn s := by
  obtain ⟨prot, hmem⟩ := h.memory
  obtain ⟨i, htlb⟩ := h.tlb
  intro j hj ht va e hin hu
  obtain rfl := htlb.current j hj ht
  obtain ⟨-, r, hr, n, hn, -, hpage⟩ := htlb.covered va e hin hu
  rw [hpage]
  exact ⟨r, n, (hmem.region_page ht hr hn).1⟩

/-! ## The steps -/

theorem exists_protAfter (k : Kernel ρ) (flags : Nat) (prot : SlotId → Nat → Nat) :
    ∃ prot', ProtAfter k flags prot prot' := by
  cases hc : k.current with
  | none => exact ⟨prot, fun _ _ => rfl, fun _ hi => by simp [hc] at hi, fun _ _ hi => by simp [hc] at hi⟩
  | some i =>
    refine ⟨Function.update prot i (Function.update (prot i) (k.processes i).nextUserVaddr ((flagsToVmm flags).getD 0)),
      fun j hj => ?_, fun j hj a ha => ?_, fun j f hj _ hf => ?_⟩
    · have hji : j ≠ i := fun he => hj (he ▸ hc)
      exact Function.update_of_ne hji _ _
    · obtain rfl : i = j := Option.some.inj (hc.symm.trans hj)
      rw [Function.update_self, Function.update_of_ne (Nat.ne_of_lt ha)]
    · obtain rfl : i = j := Option.some.inj (hc.symm.trans hj)
      rw [Function.update_self, Function.update_self, hf, Option.getD_some]

/-- `mmap` changes nothing, or adds to the regions of the current process. -/
theorem sysMmap_cases (hint size flags : UInt64) (h : MemOk tame pool prot k) : (sysMmap hint size flags k).2 = k ∨
    ∃ i s, k.current = some i ∧ (sysMmap hint size flags k).2 = k.put i s ∧
      s.process.pageTable = (k.processes i).pageTable ∧ (k.processes i).userRegions ⊆ s.process.userRegions := by
  unfold sysMmap
  cases hi : k.current with
  | none => exact .inl (onCurrent_none hi)
  | some i =>
    by_cases h0 : (k.processes i).pageTable = 0
    · exact .inl (onCurrent_idle (fun s => userVmMapAnonymous_idle) hi h0)
    · obtain ⟨prot', hprot⟩ := exists_protAfter k flags.toNat prot
      refine .inr (onCurrent_spec (P := fun _ k' => ∃ i' s, some i = some i' ∧ k' = k.put i' s ∧
        s.process.pageTable = (k.processes i').pageTable ∧ (k.processes i').userRegions ⊆ s.process.userRegions) hi ?_)
      refine Wp.mono (userVmMapAnonymous_spec (h.pages.space i) (h.agrees i h0) (hprot.low i hi)
        fun f hf => hprot.new i f hi h0 hf) (fun _ s hs => ?_) fun _ _ hno => hno
      exact ⟨i, s, rfl, rfl, hs.1.table, hs.2⟩

/-- `munmap` fails and changes nothing, or returns 0, and one region of the current process is gone. -/
theorem sysMunmap_cases (addr size : UInt64) (h : MemOk tame pool prot k) :
    ((sysMunmap addr size k).1 ≠ 0 ∧ (sysMunmap addr size k).2 = k) ∨
    ∃ i s r, k.current = some i ∧ (k.processes i).pageTable ≠ 0 ∧ sysMunmap addr size k = (0, k.put i s) ∧
      processFindUserRegion addr.toNat (userPageAlignUp size.toNat) (k.processes i) = some r ∧
      s.process.pageTable = (k.processes i).pageTable ∧ Unmapped r (k.space i) s := by
  unfold sysMunmap
  cases hi : k.current with
  | none =>
    refine .inl ⟨?_, onCurrent_none hi⟩
    unfold onCurrent
    rw [hi]
    exact (by decide : userVmErrInval ≠ 0)
  | some i =>
    by_cases h0 : (k.processes i).pageTable = 0
    · have hidle : userVmUnmapAnonymous addr.toNat size.toNat (k.space i) = .ok userVmErrInval (k.space i) :=
        userVmUnmapAnonymous_idle h0
      refine .inl (onCurrent_spec (P := fun n k' => n ≠ 0 ∧ k' = k) hi (wp_of_ok hidle ?_))
      exact ⟨by decide, Kernel.put_self⟩
    · refine onCurrent_spec (P := fun n k' => (n ≠ 0 ∧ k' = k) ∨ ∃ i' s r, some i = some i' ∧
        (k.processes i').pageTable ≠ 0 ∧ (n, k') = (0, k.put i' s) ∧
        processFindUserRegion addr.toNat (userPageAlignUp size.toNat) (k.processes i') = some r ∧
        s.process.pageTable = (k.processes i').pageTable ∧ Unmapped r (k.space i') s) hi ?_
      refine Wp.mono (userVmUnmapAnonymous_spec (h.pages.space i) (h.agrees i h0)) (fun n s hs => ?_) fun _ _ hno => hno
      obtain ⟨hmap, ⟨rfl, rfl⟩ | ⟨rfl, r, hfind, hun⟩⟩ := hs
      · exact .inl ⟨by decide, Kernel.put_self⟩
      · exact .inr ⟨i, s, r, rfl, h0, rfl, hfind, hmap.table, hun⟩

theorem Covered.subset {va e : Nat} (h : Covered k i va e)
    (hsub : (k.processes i).userRegions ⊆ (k'.processes i).userRegions) : Covered k' i va e := by
  obtain ⟨hva, r, hr, hn⟩ := h
  exact ⟨hva, r, hsub hr, hn⟩

/-- The kernel after a call for process `j`. -/
theorem TlbOk.put {s : Space} {tlb : Set (Nat × Nat)} (h : TlbOk i ⟨k, tlb⟩) (hj : k.current = some j)
    (ht : s.process.pageTable = (k.processes j).pageTable)
    (hc : ∀ va e, (va, e) ∈ tlb → e &&& descApUser ≠ 0 → Covered (k.put j s) i va e) : TlbOk i ⟨k.put j s, tlb⟩ := by
  have htable : ∀ l, ((k.put j s).processes l).pageTable = (k.processes l).pageTable := by
    intro l
    by_cases hl : l = j
    · subst hl
      simp [Kernel.put, ht]
    · rw [Kernel.put_other hl]
  refine ⟨h.table.trans (htable i).symm, fun l hl hlt => ?_, hc⟩
  exact h.current l hl (by rw [← htable]; exact hlt)

theorem TlbInv.access {tlb : Set (Nat × Nat)} {va e : Nat} (h : TlbInv pool ⟨k, tlb⟩) (hva : va < 2 ^ 48)
    (he : leafOf k.vm.mem k.ttbr0 va = some e) : TlbInv pool ⟨k, insert (va, e) tlb⟩ := by
  obtain ⟨⟨prot, hmem⟩, i, htlb⟩ := h
  refine ⟨⟨prot, hmem⟩, i, htlb.table, htlb.current, fun va' e' hin hu => ?_⟩
  rcases hin with heq | hin
  · obtain ⟨rfl, rfl⟩ := Prod.mk.inj heq
    have htable : k.ttbr0 = (k.processes i).pageTable := htlb.table
    rw [htable] at he
    obtain ⟨r, hr, n, hn, hkey, hown, -⟩ := hmem.user_leaf he hu
    refine ⟨hva, r, hr, n, hn, hkey, ?_⟩
    exact (spaceOwn_region.mp hown).2.2.2
  · exact htlb.covered va' e' hin hu

theorem TlbInv.mmap {tlb : Set (Nat × Nat)} (h : TlbInv pool ⟨k, tlb⟩) (hint size flags : UInt64) :
    TlbInv pool ⟨(sysMmap hint size flags k).2, tlb⟩ := by
  obtain ⟨⟨prot, hmem⟩, i, htlb⟩ := h
  obtain ⟨prot', hprot⟩ := exists_protAfter k flags.toNat prot
  refine ⟨⟨prot', sysMmap_memory hmem hprot⟩, i, ?_⟩
  rcases sysMmap_cases hint size flags hmem with heq | ⟨j, s, hj, heq, ht, hsub⟩
  · rw [heq]
    exact htlb
  · rw [heq]
    refine htlb.put hj ht fun va e hin hu => (htlb.covered va e hin hu).subset ?_
    by_cases hij : i = j
    · subst hij
      simpa [Kernel.put] using hsub
    · rw [Kernel.put_other hij]
      exact List.Subset.refl _

/-- The region that `munmap` finds is the range. -/
theorem find_range {addr size : Nat} {p : Process} {r : UserRegion} (h : processFindUserRegion addr size p = some r) :
    r.start = addr ∧ r.stop = addr + size := by
  obtain ⟨l₁, l₂, -, hat⟩ := find_regionAt h
  exact ⟨hat.start_eq, hat.stop_eq⟩

theorem TlbInv.munmap {tlb : Set (Nat × Nat)} {addr size : UInt64} (h : TlbInv pool ⟨k, tlb⟩)
    (hno : NotCached ⟨k, tlb⟩ addr size) : TlbInv pool ⟨(sysMunmap addr size k).2, tlb⟩ := by
  obtain ⟨⟨prot, hmem⟩, i, htlb⟩ := h
  refine ⟨⟨prot, sysMunmap_memory hmem⟩, i, ?_⟩
  rcases sysMunmap_cases addr size hmem with ⟨-, heq⟩ | ⟨j, s, r, hj, hjt, heq, hfind, ht, hun⟩
  · rw [heq]
    exact htlb
  · rw [heq]
    obtain rfl := htlb.current j hj hjt
    refine htlb.put hj ht fun va e hin hu => ?_
    obtain ⟨hva, q, hq, n, hn, hkey, hpage⟩ := htlb.covered va e hin hu
    refine ⟨hva, q, ?_, n, hn, hkey, hpage⟩
    simp only [Kernel.put, Function.update_self]
    refine (hun.regions q).mpr ⟨hq, ?_⟩
    -- the region that is gone has no translation in the TLB
    rintro rfl
    obtain ⟨h1, h2⟩ := find_range hfind
    have hrange := hmem.in_region hq hn hva hkey
    rw [h1, h2] at hrange
    exact hno va e hin hu hrange

theorem dispatchNext_table {current : Option SlotId} {policy : DispatchPolicy} {r : Frame × Kernel ρ}
    (h : processDispatchNext current policy k = some r) : ∃ i, r.2.current = some i ∧
      r.2.ttbr0 = if (r.2.processes i).pageTable ≠ 0 then (r.2.processes i).pageTable else k.ttbr0 := by
  unfold processDispatchNext at h
  split at h
  · cases h
  split at h
  · cases h
  · rename_i next _
    cases h
    refine ⟨next, rfl, ?_⟩
    unfold switchTo
    simp only [Kernel.setProcess, Function.update_self]
    split
    · split <;> rfl
    · rfl

theorem TlbInv.switch {tlb : Set (Nat × Nat)} {policy : DispatchPolicy} {frame : Frame} (h : TlbInv pool ⟨k, tlb⟩)
    (hd : processDispatchNext k.current policy k = some (frame, k')) : TlbInv pool ⟨k', afterSwitch k' tlb⟩ := by
  obtain ⟨⟨prot, hmem⟩, i, htlb⟩ := h
  have hsame : SameMemory k k' := dispatchNext_memory hd
  obtain ⟨j, hj, httbr⟩ := dispatchNext_table hd
  dsimp only at hj httbr
  refine ⟨⟨prot, hmem.same hsame⟩, ?_⟩
  unfold afterSwitch
  rw [hj]
  dsimp only
  by_cases ht : (k'.processes j).pageTable ≠ 0
  · rw [if_pos ht] at httbr ⊢
    refine ⟨j, httbr, fun l hl _ => ?_, fun _ _ hin => hin.elim⟩
    exact (Option.some.inj (hj.symm.trans hl)).symm
  · -- the table of `i` stays, and so do its translations
    rw [if_neg ht] at httbr ⊢
    refine ⟨i, ?_, fun l hl hlt => ?_, fun va e hin hu => ?_⟩
    · exact (httbr.trans htlb.table).trans (hsame.processes i).table.symm
    · obtain rfl : j = l := Option.some.inj (hj.symm.trans hl)
      exact absurd hlt ht
    · refine (htlb.covered va e hin hu).subset ?_
      rw [(hsame.processes i).regions]
      exact List.Subset.refl _

theorem TlbStep.inv {s s' : Cached ρ} (h : TlbInv pool s) (hs : TlbStep NotCached s s') : TlbInv pool s' := by
  cases hs with
  | access hva he => exact h.access hva he
  | evict hsub =>
    obtain ⟨hmem, i, htlb⟩ := h
    exact ⟨hmem, i, htlb.table, htlb.current, fun va e hin => htlb.covered va e (hsub hin)⟩
  | mmap hint size flags => exact h.mmap hint size flags
  | munmap addr size hno => exact h.munmap hno
  | switch hd => exact h.switch hd

/-- A call that returns 0 while a translation for the range is cached leaves it with a page that is free. -/
theorem TlbInv.notCached_of {s : Cached ρ} {addr size : UInt64} (h : TlbInv pool s)
    (h0 : (sysMunmap addr size s.kernel).1 = 0) (hown : ReachesOwn ⟨(sysMunmap addr size s.kernel).2, s.tlb⟩) :
    NotCached s addr size := by
  obtain ⟨⟨prot, hmem⟩, i, htlb⟩ := h
  rcases sysMunmap_cases addr size hmem with ⟨hne, -⟩ | ⟨j, t, r, hj, hjt, heq, hfind, ht, hun⟩
  · exact absurd h0 hne
  intro va e hin hu hrange
  obtain rfl := htlb.current j hj hjt
  obtain ⟨hva, q, hq, n, hn, hkey, hpage⟩ := htlb.covered va e hin hu
  obtain ⟨h1, h2⟩ := find_range hfind
  have hrq := hmem.in_region hq hn hva hkey
  -- the address is in both regions
  have hqr : q = r := by
    by_contra hne
    rcases (hmem.pages.regions j).apart hq hun.owned.1 hne with h | h <;> omega
  subst hqr
  have hfree : e &&& descAddrMask ∈ freePages t.vm.pmm := hun.free (mem_pageSet.mpr ⟨n, hn, hpage⟩)
  have hmem' : MemOk True pool prot (s.kernel.put j t) := by
    have hafter : MemOk True pool prot (sysMunmap addr size s.kernel).2 := sysMunmap_memory hmem
    rwa [heq] at hafter
  rw [heq] at hown
  have htable : ((s.kernel.put j t).processes j).pageTable ≠ 0 := by
    simpa [Kernel.put, ht] using hjt
  obtain ⟨q', n', hq'⟩ := hown j hj htable va e hin hu
  exact hmem'.pages.own.apart _ _ hq' hfree

theorem tlbRun_inv {s : Cached ρ} (h : MemOk True pool prot k) (hi : (k.processes i).pageTable ≠ 0)
    (hs : Run (TlbStep NotCached) ⟨(switchTo i k).2, ∅⟩ s) : TlbInv pool s := by
  have hstart : TlbInv pool (Cached.mk (switchTo i k).2 ∅) := by
    refine ⟨⟨_, h.same (switchTo_memory i)⟩, i, ?_, fun j hj _ => ?_, fun _ _ hin => hin.elim⟩
    · simp [switchTo, Kernel.setProcess, hi]
    · exact (Option.some.inj hj).symm
  exact hs.invariant (TlbInv pool) (fun _ _ hs hst => hst.inv hs) hstart

/-- From the activation of a process on: as long as `munmap` is called without cached translations for its range,
EL0 can reach its own pages only. And a call that returns 0 keeps this if and only if there are none. -/
theorem tlbRun_owned (hm : MemoryBooted m₀) (hrun : Run (machineStep env (BoardMmio True)) m₀ m) {i : SlotId}
    (hi : (m.kernel.processes i).pageTable ≠ 0) {s : Cached ρ}
    (hs : Run (TlbStep NotCached) ⟨(switchTo i m.kernel).2, ∅⟩ s) :
    ReachesOwn s ∧ ∀ addr size, (sysMunmap addr size s.kernel).1 = 0 →
      (ReachesOwn ⟨(sysMunmap addr size s.kernel).2, s.tlb⟩ ↔ NotCached s addr size) := by
  obtain ⟨asked, h⟩ := machineRun_memory hm hrun
  have hinv := tlbRun_inv h hi hs
  exact ⟨hinv.reachesOwn, fun addr size h0 => ⟨hinv.notCached_of h0, fun hno => (hinv.munmap hno).reachesOwn⟩⟩

/-- The panel of the sample maps a page and writes to it. -/
theorem exists_sampleTouch : ∃ (m : Machine Unit) (e : Nat),
    Run (machineStep sampleEnv (BoardMmio True)) sampleMachine m ∧
    (m.kernel.processes 0).pageTable ≠ 0 ∧ e &&& descApUser ≠ 0 ∧
    (∀ cond, Run (TlbStep cond) ⟨(switchTo 0 m.kernel).2, ∅⟩
      ⟨(sysMmap 0 4096 3 (switchTo 0 m.kernel).2).2, {(processUserMmapBase, e)}⟩) ∧
    (sysMunmap 0x100000000 4096 (sysMmap 0 4096 3 (switchTo 0 m.kernel).2).2).1 = 0 := by
  obtain ⟨m, hm, hf⟩ := exists_sampleRun [sampleBoot, .launch sampleRegs]
    (fun m =>
      let k := (sysMmap 0 4096 3 (switchTo 0 m.kernel).2).2
      (decide ((m.kernel.processes 0).pageTable ≠ 0),
        (leafOf k.vm.mem k.ttbr0 processUserMmapBase).map fun e => decide (e &&& descApUser ≠ 0),
        (sysMunmap 0x100000000 4096 k).1))
    (true, some true, 0) (by decide +kernel)
  obtain ⟨ht, hf⟩ := Prod.mk.inj hf
  obtain ⟨hleaf, h0⟩ := Prod.mk.inj hf
  obtain ⟨e, he, hu⟩ := Option.map_eq_some_iff.mp hleaf
  have hrun : Run (machineStep sampleEnv (BoardMmio True)) sampleMachine m :=
    Machine.run_steps (sampleBoot_mmio (by simp)) hm
  refine ⟨m, e, hrun, of_decide_eq_true ht, of_decide_eq_true hu, fun cond => ?_, h0⟩
  rw [← insert_empty_eq]
  exact (Relation.ReflTransGen.single (.mmap 0 4096 3)).tail (.access (by decide) he)

theorem tlbRun_owned_sample : ∃ (m : Machine Unit) (s : Cached Unit),
    Run (machineStep sampleEnv (BoardMmio True)) sampleMachine m ∧ (m.kernel.processes 0).pageTable ≠ 0 ∧
      Run (TlbStep NotCached) ⟨(switchTo 0 m.kernel).2, ∅⟩ s ∧ s.tlb.Nonempty ∧ ReachesOwn s := by
  obtain ⟨m, e, hrun, ht, -, hs, -⟩ := exists_sampleTouch
  exact ⟨m, _, hrun, ht, hs _, ⟨_, rfl⟩, (tlbRun_owned sampleMachine_memory hrun ht (hs _)).1⟩

/-- A page that the panel has written to is still in its reach after `munmap` has freed it. -/
theorem munmap_leaves_translation : ∃ (m : Machine Unit) (s : Cached Unit),
    Run (machineStep sampleEnv (BoardMmio True)) sampleMachine m ∧
      Run (TlbStep fun _ _ _ => True) ⟨(switchTo 0 m.kernel).2, ∅⟩ s ∧ (sysMunmap 0x100000000 4096 s.kernel).1 = 0 ∧
      ¬ReachesOwn ⟨(sysMunmap 0x100000000 4096 s.kernel).2, s.tlb⟩ := by
  obtain ⟨m, e, hrun, ht, hu, hs, h0⟩ := exists_sampleTouch
  refine ⟨m, _, hrun, hs _, h0, fun hown => ?_⟩
  obtain ⟨asked, hmem⟩ := machineRun_memory sampleMachine_memory hrun
  have hinv := tlbRun_inv hmem ht (hs NotCached)
  exact hinv.notCached_of h0 hown _ e rfl hu (by decide)

end Armonios
