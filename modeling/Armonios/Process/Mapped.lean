import Armonios.Process.Space

/-!
# Regions and page table

`Agrees`: the page table of a process maps its regions, each to its own pages and with the permissions that
`prot` says, and gives EL0 nothing else. The last part holds if the board maps its devices without
`VMM_FLAG_USER`, which is the parameter `tame`.

* `userVmMapAnonymous_spec`, `userVmUnmapAnonymous_spec`: `mmap` and `munmap` keep the agreement and the
  exclusive ownership of the pages, whether they succeed or not.
-/

namespace Armonios

variable {s s' : Space} {pool S : Set Nat} {r q : UserRegion} {v v' : Vm} {l l₁ l₂ : List UserRegion}
  {tame : Prop} {prot prot' : Nat → Nat} {mem mem' : TableMem} {pgd addr n : Nat}

/-- What the regions in `l` say about the table `pgd`. -/
structure Agrees (tame : Prop) (prot : Nat → Nat) (l : List UserRegion) (mem : TableMem) (pgd : Nat) : Prop where
  aligned : ∀ r ∈ l, r.start % pageSize = 0 ∧ r.stop % pageSize = 0
  bound : ∀ r ∈ l, r.stop ≤ processUserMmapLimit
  owned : ∀ r ∈ l, r.Owned
  user : ∀ r ∈ l, prot r.start &&& vmmFlagUser ≠ 0
  mapped : ∀ r ∈ l, ∀ i < r.pages,
    leafOf mem pgd (r.start + i * pageSize) = some (pageDescriptor (r.paddr + i * pageSize) (prot r.start))
  only : tame → ∀ va e, leafOf mem pgd va = some e → e &&& descApUser ≠ 0 → ∃ r ∈ l, InPages r.start r.pages va

/-- Where the next region of `mmap` goes. -/
structure NextOk (p : Process) : Prop where
  base : processUserMmapBase ≤ p.nextUserVaddr
  limit : p.nextUserVaddr ≤ processUserMmapLimit
  aligned : p.nextUserVaddr % pageSize = 0
  below : ∀ r ∈ p.userRegions, r.stop ≤ p.nextUserVaddr

/-- A process whose table and regions agree. -/
structure SpaceAgrees (tame : Prop) (prot : Nat → Nat) (s : Space) : Prop where
  agrees : Agrees tame prot s.process.userRegions s.vm.mem s.process.pageTable
  next : NextOk s.process

theorem Agrees.congr_prot (h : Agrees tame prot l mem pgd) (hp : ∀ r ∈ l, prot' r.start = prot r.start) :
    Agrees tame prot' l mem pgd := by
  refine ⟨h.aligned, h.bound, h.owned, fun r hr => ?_, fun r hr => ?_, h.only⟩
  · rw [hp r hr]
    exact h.user r hr
  · rw [hp r hr]
    exact h.mapped r hr

/-- Whole pages. -/
theorem pages_of_size (h : r.stop = r.start + n * pageSize) : r.pages = n := by
  unfold UserRegion.pages
  rw [h]
  unfold pageSize
  omega

theorem pages_mul (hs : r.start % pageSize = 0) (he : r.stop % pageSize = 0) (hp : r.start < r.stop) :
    r.stop = r.start + r.pages * pageSize := by
  unfold UserRegion.pages pageSize at *
  omega

/-- A page cannot be in two ranges that are apart. -/
theorem not_inPages_of_apart {a m va : Nat} (ha : a % pageSize = 0) (hab : a + m * pageSize ≤ 2 ^ 48)
    (haddr : addr % pageSize = 0) (hb : addr + n * pageSize ≤ 2 ^ 48)
    (hapart : a + m * pageSize ≤ addr ∨ addr + n * pageSize ≤ a) (h : InPages a m va) : ¬InPages addr n va := by
  rintro ⟨j, hj, hkj⟩
  obtain ⟨i, hi, hki⟩ := h
  have hpage := page_of_leafKey (by unfold pageSize at *; omega) (by unfold pageSize at *; omega) (hki.symm.trans hkj)
  unfold pageSize at *
  omega

theorem Agrees.stop_eq (h : Agrees tame prot l mem pgd) (hl : RegionsOk l) (hr : r ∈ l) :
    r.stop = r.start + r.pages * pageSize :=
  pages_mul (h.aligned r hr).1 (h.aligned r hr).2 (hl.proper r hr)

/-- A range apart from all regions. -/
def ClearOf (l : List UserRegion) (addr n : Nat) : Prop :=
  addr % pageSize = 0 ∧ addr + n * pageSize ≤ 2 ^ 48 ∧
    ∀ r ∈ l, r.stop ≤ addr ∨ addr + n * pageSize ≤ r.start

theorem Agrees.not_inPages {va : Nat} (h : Agrees tame prot l mem pgd) (hl : RegionsOk l) (hclear : ClearOf l addr n)
    (hr : r ∈ l) (hva : InPages r.start r.pages va) : ¬InPages addr n va := by
  obtain ⟨hal, hb, hapart⟩ := hclear
  have hstop := h.stop_eq hl hr
  have hbound := h.bound r hr
  refine not_inPages_of_apart (h.aligned r hr).1 ?_ hal hb ?_ hva
  · rw [← hstop]
    unfold processUserMmapLimit at hbound
    omega
  · rw [← hstop]
    exact hapart r hr

/-- Entries outside of the regions are cleared, or were so. -/
theorem Agrees.fewer (h : Agrees tame prot l v.mem pgd) (hl : RegionsOk l) (hclear : ClearOf l addr n)
    (hf : FewerPages pgd addr n v v') : Agrees tame prot l v'.mem pgd := by
  refine ⟨h.aligned, h.bound, h.owned, h.user, fun r hr i hi => ?_, fun ht va e he hu => ?_⟩
  · rw [← h.mapped r hr i hi]
    refine (hf _).resolve_right fun hno => ?_
    exact h.not_inPages hl hclear hr ⟨i, hi, rfl⟩ hno.2
  · rcases hf va with hsame | ⟨hnone, -⟩
    · exact h.only ht va e (hsame ▸ he) hu
    · rw [hnone] at he
      cases he

theorem SameLeaves.fewer (h : SameLeaves pgd v v') : FewerPages pgd addr n v v' := fun va => .inl (h va)

/-- A new region is mapped. -/
theorem Agrees.insert {paddr : Nat} (h : Agrees tame prot l v.mem pgd) (hl : RegionsOk l)
    (hclear : ClearOf l r.start n) (hn : r.stop = r.start + n * pageSize) (hb : r.stop ≤ processUserMmapLimit)
    (hown : r.Owned) (hpaddr : r.paddr = paddr) (hu : prot r.start &&& vmmFlagUser ≠ 0)
    (hm : MappedPages pgd r.start paddr (prot r.start) n v v') : Agrees tame prot (l ++ [r]) v'.mem pgd := by
  subst hpaddr
  have hpages := pages_of_size hn
  have hmem : ∀ q, q ∈ l ++ [r] ↔ q ∈ l ∨ q = r := fun q => by simp
  refine ⟨fun q hq => ?_, fun q hq => ?_, fun q hq => ?_, fun q hq => ?_, fun q hq i hi => ?_,
    fun ht va e he huser => ?_⟩
  · rcases (hmem q).mp hq with hq | rfl
    · exact h.aligned q hq
    · refine ⟨hclear.1, ?_⟩
      rw [hn, Nat.add_mul_mod_self_right]
      exact hclear.1
  · rcases (hmem q).mp hq with hq | rfl
    · exact h.bound q hq
    · exact hb
  · rcases (hmem q).mp hq with hq | rfl
    · exact h.owned q hq
    · exact hown
  · rcases (hmem q).mp hq with hq | rfl
    · exact h.user q hq
    · exact hu
  · rcases (hmem q).mp hq with hq | rfl
    · rw [← h.mapped q hq i hi]
      exact hm.other _ (h.not_inPages hl hclear hq ⟨i, hi, rfl⟩)
    · exact hm.set i (hpages ▸ hi) _ rfl
  · by_cases hva : InPages r.start n va
    · exact ⟨r, by simp, by rw [hpages]; exact hva⟩
    · rw [hm.other va hva] at he
      obtain ⟨q, hq, hqva⟩ := h.only ht va e he huser
      exact ⟨q, by simp [hq], hqva⟩

/-- A region is unmapped. -/
theorem Agrees.erase (h : Agrees tame prot (l₁ ++ r :: l₂) v.mem pgd) (hl : RegionsOk (l₁ ++ r :: l₂))
    (hc : ClearedPages pgd r.start r.pages v v') : Agrees tame prot (l₁ ++ l₂) v'.mem pgd := by
  have hrmem : r ∈ l₁ ++ r :: l₂ := by simp
  have hsub : ∀ q ∈ l₁ ++ l₂, q ∈ l₁ ++ r :: l₂ := fun q hq => by
    rcases List.mem_append.mp hq with hq | hq <;> simp [hq]
  have hapart : ∀ q ∈ l₁ ++ l₂, q.Apart r := by
    intro q hq
    refine hl.apart (hsub q hq) hrmem ?_
    rintro rfl
    have hnd := hl.nodup
    rw [List.nodup_middle] at hnd
    exact (List.nodup_cons.mp hnd).1 hq
  have hstop := h.stop_eq hl hrmem
  have hclear : ClearOf (l₁ ++ l₂) r.start r.pages := by
    refine ⟨(h.aligned r hrmem).1, ?_, fun q hq => ?_⟩
    · have hbound := h.bound r hrmem
      unfold processUserMmapLimit at hbound
      omega
    · rw [← hstop]
      exact hapart q hq
  refine ⟨fun q hq => h.aligned q (hsub q hq), fun q hq => h.bound q (hsub q hq), fun q hq => h.owned q (hsub q hq),
    fun q hq => h.user q (hsub q hq), fun q hq i hi => ?_, fun ht va e he hu => ?_⟩
  · rw [← h.mapped q (hsub q hq) i hi]
    refine hc.other _ ?_
    have hq' := hsub q hq
    refine not_inPages_of_apart (h.aligned q hq').1 ?_ hclear.1 hclear.2.1 ?_ ⟨i, hi, rfl⟩
    · rw [← h.stop_eq hl hq']
      have hbound := h.bound q hq'
      unfold processUserMmapLimit at hbound
      omega
    · rw [← h.stop_eq hl hq']
      exact hclear.2.2 q hq
  · by_cases hva : InPages r.start r.pages va
    · rw [hc.cleared va hva] at he
      cases he
    · rw [hc.other va hva] at he
      obtain ⟨q, hq, hqva⟩ := h.only ht va e he hu
      have hne : q ≠ r := fun heq => hva (heq ▸ hqva)
      refine ⟨q, ?_, hqva⟩
      simp only [List.mem_append, List.mem_cons] at hq ⊢
      tauto

/-! ## The functions -/

theorem wp_onProcess {f : Process → Option Process} {p : Process} {Q : Unit → Space → Prop} {E : Unit → Space → Prop}
    (h : f s.process = some p) : Wp (onProcess f) s Q E ↔ Q () { s with process := p } := by
  unfold Wp onProcess
  rw [h]

theorem wp_ignoring {σ α : Type} {m : EStateM Unit σ α} {t : σ} {Q : Unit → σ → Prop} {E : Unit → σ → Prop} :
    Wp (ignoring m) t Q E ↔ Wp m t (fun _ t' => Q () t') fun _ t' => Q () t' := by
  unfold Wp ignoring
  cases m t <;> rfl

/-- A process with a region `r` at the end of its table that has no pages yet. -/
structure Pending (pool : Set Nat) (tame : Prop) (prot : Nat → Nat) (l : List UserRegion) (r : UserRegion) (n : Nat)
    (s : Space) : Prop where
  ok : SpaceOk pool s
  regions : s.process.userRegions = l ++ [r]
  fresh : ¬r.Owned
  table : s.process.pageTable ≠ 0
  size : r.stop = r.start + n * pageSize
  nonempty : n ≠ 0
  bound : r.stop ≤ processUserMmapLimit
  agrees : Agrees tame prot l s.vm.mem s.process.pageTable
  clear : ClearOf l r.start n

theorem Pending.regionsOk {pool : Set Nat} (h : Pending pool tame prot l r n s) : RegionsOk l := by
  have hok := h.ok.regions
  rw [h.regions] at hok
  have := hok.erase
  rwa [List.append_nil] at this

theorem Pending.size_bound {pool : Set Nat} (h : Pending pool tame prot l r n s) : r.start + n * pageSize ≤ 2 ^ 48 := by
  have hb := h.bound
  rw [h.size] at hb
  unfold processUserMmapLimit at hb
  omega

theorem Pending.regionAt {pool : Set Nat} (h : Pending pool tame prot l r n s) :
    RegionAt r.start (n * pageSize) l r [] := by
  have hb := h.size_bound
  refine .last (h.regions ▸ h.ok.regions) h.size ?_ ?_
  · have := h.nonempty
    unfold pageSize
    omega
  · rw [h.size]
    unfold uint64Max
    omega

/-- The region is given up. -/
theorem Pending.remove {pool : Set Nat} (h : Pending pool tame prot l r n s) :
    processRemoveUserRegion r.start (n * pageSize) s.process = some { s.process with userRegions := l } ∧
      SpaceOk pool ⟨s.vm, { s.process with userRegions := l }⟩ := by
  refine ⟨by simpa using h.regionAt.remove h.regions, ?_⟩
  refine h.ok.congr h.regionsOk (fun q hq => ?_) rfl
  show q ∈ l ↔ q ∈ s.process.userRegions
  rw [h.regions, List.mem_append, List.mem_singleton]
  exact ⟨.inl, fun hm => hm.resolve_right fun he => h.fresh (he ▸ hq)⟩

theorem Pending.step {pool : Set Nat} (h : Pending pool tame prot l r n s) (hg : Grew s.process.pageTable s.vm v')
    (ha : Agrees tame prot l v'.mem s.process.pageTable) : Pending pool tame prot l r n { s with vm := v' } :=
  ⟨(h.ok.grew h.table hg).ok, h.regions, h.fresh, h.table, h.size, h.nonempty, h.bound, ha, h.clear⟩

/-- The regions are `l` now, and the table agrees with them; the rest of the process is what it was. -/
structure Became (pool : Set Nat) (tame : Prop) (prot : Nat → Nat) (l : List UserRegion) (s s' : Space) : Prop where
  step : SpaceStep pool s s'
  process : s'.process = { s.process with userRegions := l }
  agrees : Agrees tame prot l s'.vm.mem s.process.pageTable

theorem undoMapping_spec {paddr : Nat} (h : Pending (pool \ pageSet paddr n) tame prot l r n s)
    (hS : pageSet paddr n ⊆ pool) (hreal : ∀ a ∈ pool, a ∈ managed s.vm.pmm ∧ a ≠ 0) :
    Wp (undoMapping r.start (n * pageSize) paddr) s (fun _ s' => Became pool tame prot l s s')
      fun _ _ => False := by
  -- after `vmm_unmap_range`, whatever it returned
  have hrest : ∀ v', Grew s.process.pageTable s.vm v' → FewerPages s.process.pageTable r.start n s.vm v' →
      Wp (do
        ignoring (onProcess (processRemoveUserRegion r.start (n * pageSize)))
        onVm (onPmm fun pmm => ((), freePageRange paddr (n * pageSize) pmm)) : SpaceM Unit) { s with vm := v' }
        (fun _ s' => Became pool tame prot l s s') fun _ _ => False := by
    intro v' hg hf
    have hagrees := h.agrees.fewer h.regionsOk h.clear hf
    have hpend := h.step hg hagrees
    obtain ⟨hremove, hok⟩ := hpend.remove
    have hstep := h.ok.grew h.table hg
    refine wp_bind.mpr (wp_ignoring.mpr ((wp_onProcess hremove).mpr (wp_onPart.mpr (wp_onPmm.mpr ?_))))
    have hreal' : ∀ a ∈ pool, a ∈ managed v'.pmm ∧ a ≠ 0 := by
      rw [hg.took.pool.managed]
      exact hreal
    obtain ⟨hok', hgave⟩ := hok.freeAll hS hreal' (fun a => Iff.rfl) (pagesOf_nodup paddr (n * pageSize))
    refine ⟨⟨hok', hg.took.pool.trans hgave.pool, fun t ht => ?_⟩, rfl, hagrees⟩
    exact hstep.frame t fun hin => ht hin.1
  refine wp_bind.mpr (wp_get.mpr (wp_bind.mpr (wp_ignoring.mpr (wp_onPart.mpr ?_))))
  refine Wp.mono (vmmUnmapRange_spec (h.ok.table h.table) h.clear.1 h.size_bound) (fun _ v' hv => ?_) fun _ v' hv => ?_
  · exact hrest v' hv.1 (hv.2.fewer (Nat.le_refl n))
  · exact hrest v' hv.1 hv.2.1

theorem userPageAlignUp_spec {size : Nat} (h : userPageAlignUp size ≠ 0) :
    ∃ n, n ≠ 0 ∧ userPageAlignUp size = n * pageSize ∧ n * pageSize < 2 ^ 64 := by
  unfold userPageAlignUp at *
  split
  · rename_i h0
    rw [if_pos h0] at h
    exact absurd rfl h
  · rename_i h0
    refine ⟨(size + pageSize - 1) / pageSize, ?_, rfl, ?_⟩
    · unfold pageSize
      omega
    · unfold pageSize uint64Max at *
      omega

theorem flagsToVmm_lt {flags f : Nat} (h : flagsToVmm flags = some f) : flags < 8 := by
  unfold flagsToVmm userVmSupportedFlags at h
  split at h
  · cases h
  · omega

theorem flagsToVmm_user {flags f : Nat} (h : flagsToVmm flags = some f) : f &&& vmmFlagUser ≠ 0 := by
  have hall : ∀ flags < 8, ∀ f ∈ flagsToVmm flags, f &&& vmmFlagUser ≠ 0 := by decide
  exact hall flags (flagsToVmm_lt h) f h

/-- Memory is writable if `mmap` was asked for it, or for nothing in particular. -/
theorem flagsToVmm_write {flags f : Nat} (h : flagsToVmm flags = some f) :
    f &&& vmmFlagWrite ≠ 0 ↔ flags = 0 ∨ flags &&& userVmProtWrite ≠ 0 := by
  have hall : ∀ flags < 8, ∀ f ∈ flagsToVmm flags,
      (f &&& vmmFlagWrite ≠ 0 ↔ flags = 0 ∨ flags &&& userVmProtWrite ≠ 0) := by decide
  exact hall flags (flagsToVmm_lt h) f h

theorem SpaceAgrees.congr_prot {s : Space} (h : SpaceAgrees tame prot s) (hl : RegionsOk s.process.userRegions)
    (hlow : ∀ a < s.process.nextUserVaddr, prot' a = prot a) : SpaceAgrees tame prot' s := by
  refine ⟨h.agrees.congr_prot fun r hr => hlow _ ?_, h.next⟩
  have h1 := hl.proper r hr
  have h2 := h.next.below r hr
  omega

/-- The process after `process_alloc_user_region`. -/
theorem alloc_pending {p : Process} (hok : SpaceOk pool s) (ha : SpaceAgrees tame prot s)
    (htable : s.process.pageTable ≠ 0) (hn : n * pageSize < 2 ^ 64)
    (h : processAllocUserRegion (n * pageSize) s.process = some (addr, p)) :
    addr = s.process.nextUserVaddr ∧ p.nextUserVaddr = addr + n * pageSize ∧ p.pageTable = s.process.pageTable ∧
      Pending pool tame prot s.process.userRegions ⟨addr, addr + n * pageSize, 0, 0⟩ n { s with process := p } := by
  obtain ⟨rfl, h0, hlimit, hapart, rfl⟩ := allocUserRegion_spec h
    (Nat.mul_mod_left _ _) hn ha.next.aligned ha.next.limit
  have hn0 : n ≠ 0 := fun he => h0 (by rw [he, Nat.zero_mul])
  have hfresh : ¬(⟨s.process.nextUserVaddr, s.process.nextUserVaddr + n * pageSize, 0, 0⟩ : UserRegion).Owned :=
    fun ho => ho.2 rfl
  refine ⟨rfl, rfl, rfl, ?_, rfl, hfresh, htable, rfl, hn0, hlimit, ha.agrees, ha.next.aligned, ?_, hapart⟩
  · refine hok.congr (hok.regions.snoc ?_ hapart) (fun q hq => ?_) rfl
    · show s.process.nextUserVaddr < s.process.nextUserVaddr + n * pageSize
      omega
    · show q ∈ s.process.userRegions ++ _ ↔ _
      rw [List.mem_append, List.mem_singleton]
      exact ⟨fun hm => hm.resolve_right fun he => hfresh (he ▸ hq), .inl⟩
  · show s.process.nextUserVaddr + n * pageSize ≤ 2 ^ 48
    unfold processUserMmapLimit at hlimit
    omega

/-- What `mmap` and `munmap` may do to a process. -/
structure Remapped (pool : Set Nat) (tame : Prop) (prot : Nat → Nat) (s s' : Space) : Prop where
  step : SpaceStep pool s s'
  agrees : SpaceAgrees tame prot s'
  table : s'.process.pageTable = s.process.pageTable

/-- The region has its pages. -/
theorem Pending.assigned {paddr : Nat} (h : Pending (pool \ pageSet paddr n) tame prot l r n s)
    (hS : pageSet paddr n ⊆ pool) (hreal : ∀ a ∈ pool, a ∈ managed s.vm.pmm ∧ a ≠ 0) (hpaddr : paddr ≠ 0)
    (hu : prot r.start &&& vmmFlagUser ≠ 0) (hg : Grew s.process.pageTable s.vm v')
    (hm : MappedPages s.process.pageTable r.start paddr (prot r.start) n s.vm v') :
    ∃ p, processSetUserRegionMapping r.start (n * pageSize) paddr processUserRegionOwnedPages s.process = some p ∧
      p = { s.process with userRegions := l ++ [{ r with paddr, flags := processUserRegionOwnedPages }] } ∧
      SpaceStep pool s ⟨v', p⟩ ∧ Agrees tame prot p.userRegions v'.mem p.pageTable := by
  refine ⟨_, h.regionAt.setMapping h.regions paddr processUserRegionOwnedPages, rfl, ?_, ?_⟩
  · have hstep := h.ok.grew h.table hg
    have hreal' : ∀ a ∈ pool, a ∈ managed v'.pmm ∧ a ≠ 0 := by
      rw [hg.took.pool.managed]
      exact hreal
    refine ⟨hstep.ok.assign hS hreal' h.regions rfl rfl rfl rfl h.fresh (owned_of_flags rfl hpaddr) ?_, hg.took.pool,
      fun t ht => hstep.frame t fun hin => ht hin.1⟩
    have hpages : ({ r with paddr, flags := processUserRegionOwnedPages } : UserRegion).pages = n :=
      pages_of_size h.size
    rw [hpages]
  · exact Agrees.insert h.agrees h.regionsOk h.clear h.size h.bound (owned_of_flags rfl hpaddr) rfl hu hm

/-- `user_vm_map_anonymous` once it has the pages: the region gets them, or everything is taken back. -/
theorem mapPending_spec {paddr : Nat} (h : Pending (pool \ pageSet paddr n) tame prot l r n s)
    (hS : pageSet paddr n ⊆ pool) (hreal : ∀ a ∈ pool, a ∈ managed s.vm.pmm ∧ a ≠ 0) (hpaddr : paddr ≠ 0)
    (hpal : paddr % pageSize = 0) (hu : prot r.start &&& vmmFlagUser ≠ 0) :
    Wp (do
      match ← attempt (fun _ => true)
          (onVm (vmmMapRange s.process.pageTable r.start paddr (n * pageSize) (prot r.start))) with
      | none =>
        undoMapping r.start (n * pageSize) paddr
        return userVmErrNomem
      | some () =>
        match ← attempt (fun _ => true) (onProcess
            (processSetUserRegionMapping r.start (n * pageSize) paddr processUserRegionOwnedPages)) with
        | none =>
          undoMapping r.start (n * pageSize) paddr
          return userVmErrInval
        | some () => return (r.start : Int) : SpaceM Int) s
      (fun _ s' => ∃ l', (∀ q ∈ l', q ∈ l ∨ q.stop = r.stop) ∧ l ⊆ l' ∧ Became pool tame prot l' s s')
      fun _ _ => False := by
  refine wp_bind.mpr (wp_attempt_all.mpr (wp_onPart.mpr ?_))
  refine Wp.mono (vmmMapRange_spec (h.ok.table h.table)) (fun _ v' hv => ?_) fun _ v' hv => ?_
  · obtain ⟨hg, hm⟩ := hv
    rw [pageAlignDown_of_aligned h.clear.1, pageAlignDown_of_aligned hpal,
      rangePages_of_aligned h.clear.1 (by have := h.size_bound; omega)] at hm
    obtain ⟨p, hset, rfl, hstep, hagrees⟩ := h.assigned hS hreal hpaddr hu hg hm
    refine wp_bind.mpr (wp_attempt_all.mpr ((wp_onProcess (s := { s with vm := v' }) hset).mpr ?_))
    refine ⟨_, fun q hq => ?_, List.subset_append_left _ _, hstep, rfl, hagrees⟩
    rcases List.mem_append.mp hq with hq | hq
    · exact .inl hq
    · rw [List.mem_singleton.mp hq]
      exact .inr rfl
  · obtain ⟨hg, hsame⟩ := hv
    have hpend := h.step hg (h.agrees.fewer h.regionsOk h.clear hsame.fewer)
    have hreal' : ∀ a ∈ pool, a ∈ managed v'.pmm ∧ a ≠ 0 := by
      rw [hg.took.pool.managed]
      exact hreal
    refine wp_bind.mpr (Wp.mono (undoMapping_spec hpend hS hreal') (fun _ s' hs => ?_) fun _ _ hno => hno)
    refine ⟨l, fun q hq => .inl hq, List.Subset.refl l, ⟨hs.step.ok, hg.took.pool.trans hs.step.same, fun t ht => ?_⟩,
      hs.process, hs.agrees⟩
    rw [hs.step.frame t ht]
    exact (h.ok.grew h.table hg).frame t fun hin => ht hin.1

/-- A process after the address of the next region moved on. -/
theorem NextOk.advance {p : Process} (h : NextOk p) (hlimit : p.nextUserVaddr + n * pageSize ≤ processUserMmapLimit)
    {p' : Process} (hnext : p'.nextUserVaddr = p.nextUserVaddr + n * pageSize)
    (hbelow : ∀ q ∈ p'.userRegions, q ∈ p.userRegions ∨ q.stop = p.nextUserVaddr + n * pageSize) : NextOk p' := by
  have hbase := h.base
  refine ⟨by omega, by omega, ?_, fun q hq => ?_⟩
  · rw [hnext, Nat.add_mul_mod_self_right]
    exact h.aligned
  · rcases hbelow q hq with hq | hq
    · have := h.below q hq
      omega
    · omega

theorem userVmMapAnonymous_spec {hint size flags : Nat} (hok : SpaceOk pool s) (ha : SpaceAgrees tame prot s)
    (hlow : ∀ a < s.process.nextUserVaddr, prot' a = prot a)
    (hnew : ∀ f, flagsToVmm flags = some f → prot' s.process.nextUserVaddr = f) :
    Wp (userVmMapAnonymous hint size flags) s
      (fun _ s' => Remapped pool tame prot' s s' ∧ s.process.userRegions ⊆ s'.process.userRegions)
      fun _ _ => False := by
  have ha := ha.congr_prot hok.regions hlow
  have hstart : Remapped pool tame prot' s s ∧ s.process.userRegions ⊆ s.process.userRegions :=
    ⟨⟨.refl hok, ha, rfl⟩, List.Subset.refl _⟩
  unfold userVmMapAnonymous
  refine wp_bind.mpr (wp_get.mpr ?_)
  dsimp only
  cases hflags : flagsToVmm flags with
  | none => exact hstart
  | some f =>
    refine wp_ite (fun _ => hstart) fun hcond => ?_
    simp only [not_or] at hcond
    obtain ⟨htable, -, hsize⟩ := hcond
    obtain ⟨n, hn0, hn, hlt⟩ := userPageAlignUp_spec hsize
    rw [hn]
    cases halloc : processAllocUserRegion (n * pageSize) s.process with
    | none => exact hstart
    | some result =>
      obtain ⟨addr, p⟩ := result
      obtain ⟨rfl, hnext, hptable, hpend⟩ := alloc_pending hok ha htable hlt halloc
      -- what is true of the process with the new region, or without it
      have hdone : ∀ s₁ s' : Space, ∀ l, s₁.process = p → SamePool s.vm.pmm s₁.vm.pmm → s₁.vm.mem = s.vm.mem →
          (∀ q ∈ l, q ∈ s.process.userRegions ∨ q.stop = s.process.nextUserVaddr + n * pageSize) →
          s.process.userRegions ⊆ l → Became pool tame prot' l s₁ s' →
          Remapped pool tame prot' s s' ∧ s.process.userRegions ⊆ s'.process.userRegions := by
        intro s₁ s' l hp hpool hmem hl hsub h
        refine ⟨⟨⟨h.step.ok, hpool.trans h.step.same, fun t ht => ?_⟩, ⟨?_, ?_⟩, ?_⟩, by rw [h.process]; exact hsub⟩
        · rw [h.step.frame t ht, hmem]
        · rw [h.process]
          exact h.agrees
        · rw [h.process, hp]
          exact ha.next.advance hpend.bound hnext hl
        · rw [h.process]
          exact (congrArg Process.pageTable hp).trans hptable
      refine wp_bind.mpr (wp_modify.mpr (wp_bind.mpr (wp_onPart.mpr (wp_onPmm.mpr ?_))))
      rw [Nat.mul_div_cancel n (by decide)]
      rcases pmmAllocPages_spec hok.pmm n with hnone | ⟨paddr, pmm', hsome, hpaddr, -, htook⟩
      · rw [hnone]
        refine wp_ite (fun _ => ?_) fun hne => absurd rfl hne
        obtain ⟨hremove, hok'⟩ := hpend.remove
        refine wp_bind.mpr (wp_ignoring.mpr ((wp_onProcess hremove).mpr ?_))
        exact hdone { s with process := p } _ _ rfl (.refl _) rfl (fun q hq => .inl hq) (List.Subset.refl _)
          ⟨⟨hok', .refl _, fun _ _ => rfl⟩, rfl, hpend.agrees⟩
      · rw [hsome]
        refine wp_ite (fun h0 => absurd h0 hpaddr) fun _ => ?_
        have hS : pageSet paddr n ⊆ pool := fun a haS => (hok.own.cover a).mpr (.inl (htook.were haS))
        have hpal : paddr % pageSize = 0 := by
          have hin : paddr ∈ pageSet paddr n := mem_pageSet.mpr ⟨0, by omega, by simp⟩
          exact hok.pmm.page_aligned (hok.real paddr (hS hin)).1
        have hpend' : Pending (pool \ pageSet paddr n) tame prot' s.process.userRegions
            ⟨s.process.nextUserVaddr, s.process.nextUserVaddr + n * pageSize, 0, 0⟩ n
            ⟨{ s.vm with pmm := pmm' }, p⟩ :=
          ⟨hpend.ok.took htook, hpend.regions, hpend.fresh, hpend.table, hpend.size, hpend.nonempty, hpend.bound,
            hpend.agrees, hpend.clear⟩
        have hreal : ∀ a ∈ pool, a ∈ managed pmm' ∧ a ≠ 0 := by
          rw [htook.pool.managed]
          exact hok.real
        have hmap := mapPending_spec hpend' hS hreal hpaddr hpal
          (by rw [hnew f hflags]; exact flagsToVmm_user hflags)
        rw [show prot' s.process.nextUserVaddr = f from hnew f hflags] at hmap
        refine Wp.mono hmap (fun _ s' hs => ?_) fun _ _ hno => hno
        obtain ⟨l, hl, hsub, hs⟩ := hs
        exact hdone ⟨{ s.vm with pmm := pmm' }, p⟩ s' l rfl htook.pool rfl hl hsub hs

/-- The region `r` is gone, and its pages are free. -/
structure Unmapped (r : UserRegion) (s s' : Space) : Prop where
  owned : r ∈ s.process.userRegions ∧ r.Owned
  regions : ∀ q, q ∈ s'.process.userRegions ↔ q ∈ s.process.userRegions ∧ q ≠ r
  free : pageSet r.paddr r.pages ⊆ freePages s'.vm.pmm

theorem userVmUnmapAnonymous_spec {addr size : Nat} (hok : SpaceOk pool s) (ha : SpaceAgrees tame prot s) :
    Wp (userVmUnmapAnonymous addr size) s
      (fun n s' => Remapped pool tame prot s s' ∧ ((n = userVmErrInval ∧ s' = s) ∨
        (n = 0 ∧ ∃ r, processFindUserRegion addr (userPageAlignUp size) s.process = some r ∧ Unmapped r s s')))
      fun _ _ => False := by
  have hstart : Remapped pool tame prot s s := ⟨.refl hok, ha, rfl⟩
  unfold userVmUnmapAnonymous
  refine wp_bind.mpr (wp_get.mpr ?_)
  dsimp only
  refine wp_ite (fun _ => ⟨hstart, .inl ⟨rfl, rfl⟩⟩) fun hcond => ?_
  simp only [not_or] at hcond
  obtain ⟨htable, hsize⟩ := hcond
  obtain ⟨n, hn0, hn, hlt⟩ := userPageAlignUp_spec hsize
  rw [hn]
  cases hfind : processFindUserRegion addr (n * pageSize) s.process with
  | none => exact ⟨hstart, .inl ⟨rfl, rfl⟩⟩
  | some r =>
    refine wp_ite (fun _ => ⟨hstart, .inl ⟨rfl, rfl⟩⟩) fun hcond => ?_
    simp only [not_or] at hcond
    have hown : r.Owned := hcond
    obtain ⟨l₁, l₂, hl, hat⟩ := find_regionAt hfind
    obtain rfl := hat.start_eq
    have hpages : r.pages = n := pages_of_size hat.stop_eq
    have hmem : r ∈ s.process.userRegions := by
      rw [hl]
      simp
    have hbound : r.start + n * pageSize ≤ 2 ^ 48 := by
      have := ha.agrees.bound r hmem
      rw [hat.stop_eq] at this
      unfold processUserMmapLimit at this
      omega
    refine wp_bind.mpr (wp_attempt_all.mpr (wp_onPart.mpr ?_))
    refine Wp.mono (vmmUnmapRange_spec (hok.table htable) (ha.agrees.aligned r hmem).1 hbound) (fun _ v' hv => ?_)
      fun _ v' hv => ?_
    · obtain ⟨hg, hc⟩ := hv
      have hstep := hok.grew htable hg
      refine wp_bind.mpr (wp_attempt_all.mpr ((wp_onProcess (s := { s with vm := v' }) (hat.remove hl)).mpr ?_))
      refine wp_bind.mpr (wp_onPart.mpr (wp_onPmm.mpr ?_))
      obtain ⟨haside, hS⟩ : SpaceOk (pool \ pageSet r.paddr r.pages) ⟨v', { s.process with userRegions := l₁ ++ l₂ }⟩ ∧
          pageSet r.paddr r.pages ⊆ pool := hstep.ok.unassign hl rfl rfl hown
      have hfree : ∀ a, a ∈ pagesOf r.paddr (n * pageSize) ↔ a ∈ pageSet r.paddr r.pages := by
        intro a
        rw [hpages]
        rfl
      obtain ⟨hok', hgave⟩ := haside.freeAll hS hstep.ok.real hfree (pagesOf_nodup r.paddr (n * pageSize))
      have hagrees : Agrees tame prot (l₁ ++ l₂) v'.mem s.process.pageTable := by
        have hold := ha.agrees
        rw [hl] at hold
        exact hold.erase (hl ▸ hok.regions) (hpages ▸ hc)
      have hregions : ∀ q, q ∈ l₁ ++ l₂ ↔ q ∈ s.process.userRegions ∧ q ≠ r := by
        intro q
        have hnd := hok.regions.nodup
        rw [hl, List.nodup_middle] at hnd
        have hnot := (List.nodup_cons.mp hnd).1
        rw [hl]
        simp only [List.mem_append, List.mem_cons] at hnot ⊢
        constructor
        · intro hq
          refine ⟨hq.imp id .inr, ?_⟩
          rintro rfl
          exact hnot hq
        · tauto
      refine ⟨⟨⟨hok', hg.took.pool.trans hgave.pool, hstep.frame⟩, ⟨hagrees, ?_⟩, rfl⟩,
        .inr ⟨rfl, r, rfl, ⟨hmem, hown⟩, hregions, ?_⟩⟩
      · exact ⟨ha.next.base, ha.next.limit, ha.next.aligned, fun q hq => ha.next.below q ((hregions q).mp hq).1⟩
      · show _ ⊆ freePages (freePageRange r.paddr (n * pageSize) v'.pmm)
        rw [freePageRange, hgave.free]
        exact Set.subset_union_right
    · -- every page of the region is mapped
      obtain ⟨-, -, i, hi, hnone⟩ := hv
      rw [ha.agrees.mapped r hmem i (hpages ▸ hi)] at hnone
      cases hnone

end Armonios
