import Armonios.Mm.VmmRoom
import Armonios.Process.Mapped

/-!
# When `mmap` fails

`user_vm_map_anonymous` takes a region, pages, tables and entries one after the other, and takes back what it
has when one of them is not to be had. What it does not take back is `next_user_vaddr`; and where the page at
`next_user_vaddr` was mapped already, its entry is cleared (`userVmMapAnonymous_atomic`).
-/

namespace Armonios

variable {s s' : Space} {p : Process} {v v' : Vm} {pgd vaddr n : Nat}

/-! ## What is needed -/

/-- The arguments are refused. -/
def MmapRefused (hint size flags : Nat) (p : Process) : Prop :=
  userVmSupportedFlags < flags ∨ p.pageTable = 0 ∨ hint ≠ 0 ∨ size = 0 ∨ uint64Max - (pageSize - 1) < size

/-- `PAGE_SIZE` bytes each. -/
def mmapPages (size : Nat) : Nat := (size + pageSize - 1) / pageSize

/-- The first page from `next_user_vaddr` on. -/
def mmapStart (p : Process) : Nat := (p.nextUserVaddr + pageSize - 1) / pageSize * pageSize

/-- The region table is full, the region would end after the limit, or it would meet another. -/
def NoRegionPlace (n : Nat) (p : Process) : Prop :=
  processMaxUserRegions ≤ p.userRegions.length ∨ processUserMmapLimit < mmapStart p + n * pageSize ∨
    ∃ region ∈ p.userRegions, mmapStart p < region.stop ∧ region.start < mmapStart p + n * pageSize

/-- There are `n` free pages in a row, more of them for the tables that are missing, and none of the range is mapped. -/
def MmapBacked (n : Nat) (s : Space) : Prop :=
  RunFree n s.vm.pmm ∧
    (∀ i < n, leafOf s.vm.mem s.process.pageTable (mmapStart s.process + i * pageSize) = none) ∧
    missingTables s.vm.mem s.process.pageTable (mmapStart s.process) n + n ≤ (freePages s.vm.pmm).ncard

/-- Nothing that the process sees has changed. -/
structure MmapUnchanged (s s' : Space) : Prop where
  regions : s'.process.userRegions = s.process.userRegions
  next : s'.process.nextUserVaddr = s.process.nextUserVaddr
  leaves : ∀ va, vmmLeafEntry s'.vm.mem s.process.pageTable va = vmmLeafEntry s.vm.mem s.process.pageTable va

/-- What a failed call takes back: all entries, unless the first page was mapped. -/
structure MmapUndone (s s' : Space) : Prop where
  regions : s'.process.userRegions = s.process.userRegions
  leaves : leafOf s.vm.mem s.process.pageTable (mmapStart s.process) = none →
    ∀ va, leafOf s'.vm.mem s.process.pageTable va = leafOf s.vm.mem s.process.pageTable va

/-- A call that failed for want of pages, tables or entries. -/
structure MmapGaveUp (n : Nat) (s s' : Space) : Prop extends MmapUndone s s' where
  next : s'.process.nextUserVaddr = mmapStart s.process + n * pageSize
  cleared : RunFree n s.vm.pmm → leafOf s'.vm.mem s.process.pageTable (mmapStart s.process) = none

/-- The page table of the process is a tree of tables, as the functions build them. -/
structure MmapReady (s : Space) : Prop where
  next : s.process.nextUserVaddr ≤ uint64Max
  table : s.process.pageTable ≠ 0 → TableOk s.process.pageTable s.vm
  blocks : s.process.pageTable ≠ 0 → NoBlocks s.vm.mem s.process.pageTable

/-! ## The region -/

theorem flagsToVmm_none {flags : Nat} : flagsToVmm flags = none ↔ userVmSupportedFlags < flags := by
  unfold flagsToVmm userVmSupportedFlags
  split
  · simp
    omega
  · simp
    omega

theorem userPageAlignUp_zero {size : Nat} : userPageAlignUp size = 0 ↔ size = 0 ∨
    uint64Max - (pageSize - 1) < size := by
  unfold userPageAlignUp
  split
  · simpa using ‹_›
  · unfold pageSize uint64Max at *
    omega

theorem userPageAlignUp_pages {size : Nat} (h : userPageAlignUp size ≠ 0) :
    mmapPages size ≠ 0 ∧ userPageAlignUp size = mmapPages size * pageSize ∧ mmapPages size * pageSize < 2 ^ 64 := by
  have hzero := mt userPageAlignUp_zero.mpr h
  simp only [not_or] at hzero
  unfold userPageAlignUp mmapPages
  rw [if_neg (by omega)]
  unfold pageSize uint64Max at *
  omega

/-- The process with the new region. -/
def withRegion (n : Nat) (p : Process) : Process :=
  { p with
    userRegions := p.userRegions ++ [⟨mmapStart p, mmapStart p + n * pageSize, 0, 0⟩]
    nextUserVaddr := mmapStart p + n * pageSize }

theorem allocUserRegion_none (hn : n ≠ 0) (hlt : n * pageSize < 2 ^ 64) (hnext : p.nextUserVaddr ≤ uint64Max)
    (hno : NoRegionPlace n p) : processAllocUserRegion (n * pageSize) p = none := by
  have hpos : 0 < n * pageSize := Nat.mul_pos (Nat.pos_of_ne_zero hn) (by decide)
  unfold processAllocUserRegion
  rw [if_neg (by omega), alignUp_of_aligned (Nat.mul_mod_left _ _) hlt, if_neg (Nat.lt_irrefl _)]
  dsimp only
  by_cases hwrap : alignUp p.nextUserVaddr < p.nextUserVaddr
  · rw [if_pos hwrap]
  have hstart : alignUp p.nextUserVaddr = mmapStart p := by
    unfold alignUp mmapStart uint64Max pageSize at *
    omega
  rw [if_neg hwrap, hstart]
  unfold userRegionEnd
  split
  · rfl
  · rename_i stop hstop
    split at hstop
    · cases hstop
    · cases hstop
      split
      · rfl
      · rename_i hlimit
        have hadd : processAddUserRegion (mmapStart p) (n * pageSize) p = none := by
          unfold processAddUserRegion userRegionEnd
          split
          · rfl
          · rename_i hfull
            dsimp only
            rw [if_pos]
            obtain ⟨region, hr, hmeets⟩ := (hno.resolve_left hfull).resolve_left hlimit
            exact List.any_eq_true.mpr ⟨region, hr, by simpa using hmeets⟩
        rw [hadd]

theorem allocUserRegion_some (hn : n ≠ 0) (hlt : n * pageSize < 2 ^ 64) (hplace : ¬NoRegionPlace n p) :
    processAllocUserRegion (n * pageSize) p = some (mmapStart p, withRegion n p) := by
  simp only [NoRegionPlace, not_or, not_exists, not_and] at hplace
  obtain ⟨hfull, hlimit, hmeets⟩ := hplace
  have hpos : 0 < n * pageSize := Nat.mul_pos (Nat.pos_of_ne_zero hn) (by decide)
  have hstart : alignUp p.nextUserVaddr = mmapStart p := by
    unfold processUserMmapLimit at hlimit
    unfold alignUp mmapStart pageSize at *
    omega
  have hle : p.nextUserVaddr ≤ mmapStart p := by
    unfold mmapStart pageSize
    omega
  have hend : userRegionEnd (mmapStart p) (n * pageSize) = some (mmapStart p + n * pageSize) := by
    unfold userRegionEnd
    rw [if_neg]
    unfold processUserMmapLimit at hlimit
    unfold uint64Max
    omega
  unfold processAllocUserRegion processAddUserRegion
  rw [if_neg (by omega), alignUp_of_aligned (Nat.mul_mod_left _ _) hlt, if_neg (Nat.lt_irrefl _), hstart]
  simp only [hend]
  rw [if_neg (by omega), if_neg hlimit, if_neg hfull, if_neg]
  · rfl
  · simp only [List.any_eq_true, decide_eq_true_eq, not_exists, not_and]
    exact hmeets

/-- The region that was added is the first that is found. -/
theorem withRegion_at (hn : n ≠ 0) (hplace : ¬NoRegionPlace n p) :
    RegionAt (mmapStart p) (n * pageSize) p.userRegions ⟨mmapStart p, mmapStart p + n * pageSize, 0, 0⟩ [] := by
  simp only [NoRegionPlace, not_or, not_exists, not_and] at hplace
  obtain ⟨-, hlimit, hmeets⟩ := hplace
  have hpos : 0 < n * pageSize := Nat.mul_pos (Nat.pos_of_ne_zero hn) (by decide)
  have hmax : mmapStart p + n * pageSize ≤ uint64Max := by
    unfold processUserMmapLimit at hlimit
    unfold uint64Max
    omega
  refine ⟨isAt_self rfl (by omega) hmax, fun q hq => ?_⟩
  by_contra hat
  have hat : q.isAt (mmapStart p) (n * pageSize) = true := by simpa using hat
  simp only [UserRegion.isAt, decide_eq_true_eq] at hat
  obtain ⟨hstart, hstop⟩ := hat
  rw [userRegionEnd, if_neg (by omega), Option.some.injEq] at hstop
  have := hmeets q hq
  omega

theorem withRegion_remove (hn : n ≠ 0) (hplace : ¬NoRegionPlace n p) :
    processRemoveUserRegion (mmapStart p) (n * pageSize) (withRegion n p) =
      some { withRegion n p with userRegions := p.userRegions } := by
  have hremove := (withRegion_at hn hplace).remove (p := withRegion n p) rfl
  rwa [List.append_nil] at hremove

/-! ## The pages -/

/-- A range that begins with a page that is not mapped: nothing is unmapped. -/
theorem vmmUnmapRange_unmapped (hok : TableOk pgd v) (hal : vaddr % pageSize = 0) (hn : n ≠ 0)
    (hb : vaddr + n * pageSize ≤ 2 ^ 48) (hnone : leafOf v.mem pgd vaddr = none) :
    Wp (vmmUnmapRange pgd vaddr (n * pageSize)) v (fun _ _ => False) fun _ v' => v' = v := by
  obtain ⟨m, rfl⟩ := Nat.exists_eq_succ_of_ne_zero hn
  unfold vmmUnmapRange
  refine wp_guard (fun h => absurd h hok.root) fun _ => wp_ite (fun h0 => ?_) fun _ => ?_
  · unfold pageSize at h0
    omega
  dsimp only
  rw [pageAlignDown_of_aligned hal, Nat.sub_self, pageSpan_aligned hn (by omega)]
  refine wp_guard (fun hbig => ?_) fun _ => ?_
  · unfold uint64Max at hbig
    omega
  rw [Nat.mul_div_cancel _ (by decide)]
  refine wp_bind.mpr (Wp.mono (vmmUnmapPage_spec hok (page_aligned hal 0)) (fun _ _ h => ?_) fun _ _ h => h.1)
  rw [Nat.zero_mul, Nat.add_zero] at h
  exact absurd hnone h.2.1

/-- A range that begins with a page that is mapped: this page is unmapped. -/
theorem vmmUnmapRange_first (hok : TableOk pgd v) (hal : vaddr % pageSize = 0) (hn : n ≠ 0)
    (hb : vaddr + n * pageSize ≤ 2 ^ 48) (hmapped : leafOf v.mem pgd vaddr ≠ none) :
    Wp (vmmUnmapRange pgd vaddr (n * pageSize)) v (fun _ v' => leafOf v'.mem pgd vaddr = none)
      fun _ v' => leafOf v'.mem pgd vaddr = none := by
  obtain ⟨m, rfl⟩ := Nat.exists_eq_succ_of_ne_zero hn
  have hzero : vaddr + 0 * pageSize = vaddr := by
    rw [Nat.zero_mul, Nat.add_zero]
  unfold vmmUnmapRange
  refine wp_guard (fun h => absurd h hok.root) fun _ => wp_ite (fun h0 => ?_) fun _ => ?_
  · unfold pageSize at h0
    omega
  dsimp only
  rw [pageAlignDown_of_aligned hal, Nat.sub_self, pageSpan_aligned hn (by omega)]
  refine wp_guard (fun hbig => ?_) fun _ => ?_
  · unfold uint64Max at hbig
    omega
  rw [Nat.mul_div_cancel _ (by decide)]
  refine wp_bind.mpr (Wp.mono (vmmUnmapPage_spec hok (page_aligned hal 0)) (fun _ v₁ h₁ => ?_) fun _ _ h => ?_)
  · obtain ⟨hg, -, hset⟩ := h₁
    rw [hzero] at hset
    have hnone : leafOf v₁.mem pgd vaddr = none := by
      rw [hset vaddr, if_pos rfl]
    -- the other pages do not bring the entry back
    have hclear : ClearedPages pgd vaddr 1 v₁ v₁ := by
      refine ⟨?_, fun _ _ => rfl⟩
      rintro va ⟨i, hi, hkey⟩
      obtain rfl : i = 0 := by omega
      rw [hzero] at hkey
      rw [leafOf_key _ _ hkey, hnone]
    have hok₁ := hg.ok hok
    refine Wp.mono (unmapPages_spec hok₁ hal (.refl hok₁) hclear) (fun _ v' h => ?_) fun _ v' h => ?_
    · exact h.2.cleared vaddr ⟨0, by omega, by rw [hzero]⟩
    · rcases h.2.1 vaddr with h | h
      · rw [h, hnone]
      · exact h.1
  · rw [hzero] at h
    exact absurd h.2 hmapped

theorem freePageRange_onVm (paddr size : Nat) (s : Space) (Q : Unit → Space → Prop) (E : Unit → Space → Prop) :
    Wp (onVm (onPmm fun pmm => ((), freePageRange paddr size pmm))) s Q E ↔
      Q () { s with vm := { s.vm with pmm := freePageRange paddr size s.vm.pmm } } := by
  rw [onVm, wp_onPart, wp_onPmm]

theorem pagesOf_ncard (paddr n : Nat) : {b | b ∈ pagesOf paddr (n * pageSize)}.ncard = n := by
  have hset : {b | b ∈ pagesOf paddr (n * pageSize)} = ((pagesOf paddr (n * pageSize)).toFinset : Set Nat) := by
    ext b
    simp
  rw [hset, Set.ncard_coe_finset, List.toFinset_card_of_nodup (pagesOf_nodup _ _), pagesOf_mul, List.length_map,
    List.length_range]

/-- Everything but `next_user_vaddr` is taken back after a mapping that changed no entry. -/
theorem undoMapping_gaveUp {paddr : Nat} (hn : n ≠ 0) (hplace : ¬NoRegionPlace n s.process)
    (hp : s'.process = withRegion n s.process) (hok : TableOk s.process.pageTable s'.vm)
    (hsame : SameLeaves s.process.pageTable s.vm s'.vm) :
    Wp (undoMapping (mmapStart s.process) (n * pageSize) paddr) s' (fun _ s'' => MmapGaveUp n s s'')
      fun _ _ => False := by
  have hal : mmapStart s.process % pageSize = 0 := Nat.mul_mod_left _ _
  have hb : mmapStart s.process + n * pageSize ≤ 2 ^ 48 := by
    simp only [NoRegionPlace, not_or] at hplace
    have := hplace.2.1
    unfold processUserMmapLimit at this
    omega
  have hremove := withRegion_remove hn hplace
  rw [← hp] at hremove
  -- after `vmm_unmap_range`, whatever it returned
  have hrest : ∀ v', (leafOf s.vm.mem s.process.pageTable (mmapStart s.process) = none →
      ∀ va, leafOf v'.mem s.process.pageTable va = leafOf s.vm.mem s.process.pageTable va) →
      leafOf v'.mem s.process.pageTable (mmapStart s.process) = none →
      Wp (do
        ignoring (onProcess (processRemoveUserRegion (mmapStart s.process) (n * pageSize)))
        onVm (onPmm fun pmm => ((), freePageRange paddr (n * pageSize) pmm)) : SpaceM Unit) { s' with vm := v' }
        (fun _ s'' => MmapGaveUp n s s'') fun _ _ => False := by
    intro v' hleaves hcleared
    refine wp_bind.mpr (wp_ignoring.mpr ((wp_onProcess (s := { s' with vm := v' }) hremove).mpr ?_))
    refine (freePageRange_onVm _ _ _ _ _).mpr ⟨⟨rfl, hleaves⟩, ?_, fun _ => hcleared⟩
    show s'.process.nextUserVaddr = _
    rw [hp]
    rfl
  have htable : s'.process.pageTable = s.process.pageTable := by
    rw [hp]
    rfl
  refine wp_bind.mpr (wp_get.mpr (wp_bind.mpr (wp_ignoring.mpr (wp_onPart.mpr ?_))))
  rw [htable]
  by_cases hnone : leafOf s.vm.mem s.process.pageTable (mmapStart s.process) = none
  · have hnone' := (hsame (mmapStart s.process)).trans hnone
    refine Wp.mono (vmmUnmapRange_unmapped hok hal hn hb hnone') (fun _ _ h => h.elim) fun _ v' hv => ?_
    refine hrest v' (fun _ va => ?_) ?_
    · rw [hv]
      exact hsame va
    · rw [hv]
      exact hnone'
  · have hmapped : leafOf s'.vm.mem s.process.pageTable (mmapStart s.process) ≠ none := by
      rwa [hsame (mmapStart s.process)]
    refine Wp.mono (vmmUnmapRange_first hok hal hn hb hmapped) (fun _ v' h => ?_) fun _ v' h => ?_
    · exact hrest v' (fun h0 => absurd h0 hnone) h
    · exact hrest v' (fun h0 => absurd h0 hnone) h

/-! ## The call -/

/-- The call returns an error before it has taken anything. -/
def MmapEarly (hint size flags : Nat) (p : Process) : Prop :=
  MmapRefused hint size flags p ∨ NoRegionPlace (mmapPages size) p

/-- What a call does: the arguments or the region are refused, or all that is needed is there, or the call fails
with the region already taken. -/
inductive MmapOutcome (hint size flags : Nat) (s : Space) : Int → Space → Prop
  | refused {r : Int} (hr : r < 0) (h : MmapEarly hint size flags s.process) : MmapOutcome hint size flags s r s
  | gaveUp {r : Int} {s' : Space} (hr : r < 0) (h : ¬MmapEarly hint size flags s.process)
      (hno : ¬MmapBacked (mmapPages size) s) (hs : MmapGaveUp (mmapPages size) s s') :
        MmapOutcome hint size flags s r s'
  | mapped {r : Int} {s' : Space} (hr : 0 ≤ r) (h : ¬MmapEarly hint size flags s.process)
      (hyes : MmapBacked (mmapPages size) s) : MmapOutcome hint size flags s r s'

theorem userVmMapAnonymous_outcome (hs : MmapReady s) (hint size flags : Nat) :
    Wp (userVmMapAnonymous hint size flags) s (MmapOutcome hint size flags s) fun _ _ => False := by
  unfold userVmMapAnonymous
  refine wp_bind.mpr (wp_get.mpr ?_)
  dsimp only
  cases hflags : flagsToVmm flags with
  | none => exact .refused (by decide) (.inl (.inl (flagsToVmm_none.mp hflags)))
  | some f =>
    refine wp_ite (fun hcond => ?_) fun hcond => ?_
    · refine .refused (by decide) (.inl ?_)
      rcases hcond with h | h | h
      · exact .inr (.inl h)
      · exact .inr (.inr (.inl h))
      · exact .inr (.inr (.inr (userPageAlignUp_zero.mp h)))
    simp only [not_or] at hcond
    obtain ⟨htable, hhint, hsize⟩ := hcond
    have hok := hs.table htable
    have hblocks := hs.blocks htable
    have hzero := mt userPageAlignUp_zero.mpr hsize
    obtain ⟨hn, hpages, hlt⟩ := userPageAlignUp_pages hsize
    have hflags' : ¬userVmSupportedFlags < flags := fun h => by
      rw [flagsToVmm_none.mpr h] at hflags
      cases hflags
    have hasked : ¬MmapRefused hint size flags s.process := by
      rintro (h | h | h | h)
      · exact hflags' h
      · exact htable h
      · exact hhint h
      · exact hzero h
    rw [hpages]
    by_cases hplace : NoRegionPlace (mmapPages size) s.process
    · rw [allocUserRegion_none hn hlt hs.next hplace]
      exact .refused (by decide) (.inr hplace)
    rw [allocUserRegion_some hn hlt hplace]
    have hnot : ¬MmapEarly hint size flags s.process := fun h => h.elim hasked hplace
    have hdone : ∀ r s', (r < 0 ∧ ¬MmapBacked (mmapPages size) s ∧ MmapGaveUp (mmapPages size) s s') ∨
        (0 ≤ r ∧ MmapBacked (mmapPages size) s) → MmapOutcome hint size flags s r s' := by
      rintro r s' (⟨hr, hno, h⟩ | ⟨hr, hyes⟩)
      · exact .gaveUp hr hnot hno h
      · exact .mapped hr hnot hyes
    generalize mmapPages size = n at *
    have hal : mmapStart s.process % pageSize = 0 := Nat.mul_mod_left _ _
    have hvb : mmapStart s.process + n * pageSize ≤ 2 ^ 48 := by
      simp only [NoRegionPlace, not_or] at hplace
      have := hplace.2.1
      unfold processUserMmapLimit at this
      omega
    refine wp_bind.mpr (wp_modify.mpr (wp_bind.mpr (wp_onPart.mpr (wp_onPmm.mpr ?_))))
    rw [Nat.mul_div_cancel n (by decide)]
    rcases pmmAllocPages_spec hok.pmm n with hnone | ⟨paddr, pmm', hsome, hpaddr, -, htook⟩
    · have hrun := (pmmAllocPages_none hok.pmm hn).mp (by rw [hnone])
      rw [hnone]
      refine wp_ite (fun _ => ?_) fun hne => absurd rfl hne
      refine wp_bind.mpr (wp_ignoring.mpr ((wp_onProcess (withRegion_remove hn hplace)).mpr ?_))
      exact hdone _ _ (.inl ⟨by decide, fun h => hrun h.1, ⟨rfl, fun _ _ => rfl⟩, rfl, fun h => absurd h hrun⟩)
    · have hrun : RunFree n s.vm.pmm := by
        by_contra hno
        have := (pmmAllocPages_none hok.pmm hn).mpr hno
        rw [hsome] at this
        exact hpaddr this
      rw [hsome]
      refine wp_ite (fun h0 => absurd h0 hpaddr) fun _ => ?_
      have hok' : TableOk s.process.pageTable { s.vm with pmm := pmm' } := by
        refine ⟨hok.pmm.took htook, hok.root, hok.inj, fun a ha hf => hok.apart a ha ?_⟩
        rw [htook.free] at hf
        exact hf.1
      have hpage : ∀ i < n, paddr + i * pageSize ∈ managed s.vm.pmm := by
        intro i hi
        refine freePages_subset_managed (htook.were ?_)
        exact mem_pageSet.mpr ⟨i, hi, rfl⟩
      have hpal : paddr % pageSize = 0 := by
        have hfirst := hok.pmm.page_aligned (hpage 0 (by omega))
        rwa [Nat.zero_mul, Nat.add_zero] at hfirst
      have hpb : paddr + n * pageSize ≤ 2 ^ 48 := by
        have hlast := hok.pmm.page_bound (hpage (n - 1) (by omega))
        unfold pageSize at *
        omega
      have hroom : RangeRoom s.process.pageTable (mmapStart s.process) n { s.vm with pmm := pmm' } ↔
        MmapBacked n s := by
        have hcount := htook.ncard
        rw [pagesOf_ncard] at hcount
        unfold RangeRoom MmapBacked
        dsimp only
        constructor
        · rintro ⟨h1, h2⟩
          exact ⟨hrun, h1, by omega⟩
        · rintro ⟨-, h1, h2⟩
          exact ⟨h1, by omega⟩
      refine wp_bind.mpr (wp_attempt_all.mpr (wp_onPart.mpr ?_))
      refine Wp.mono ((vmmMapRange_spec hok').and (vmmMapRange_fails hok' hblocks hal hpal hn hvb hpb)) ?_ ?_
      · rintro _ v' ⟨-, hfits⟩
        have hset := (withRegion_at hn hplace).setMapping
          (p := withRegion n s.process) rfl paddr processUserRegionOwnedPages
        refine wp_bind.mpr (wp_attempt_all.mpr ((wp_onProcess (s := ⟨v', withRegion n s.process⟩) hset).mpr ?_))
        exact hdone _ _ (.inr ⟨Int.natCast_nonneg _, hroom.mp hfits⟩)
      · rintro _ v' ⟨⟨hg, hsame⟩, hfails⟩
        have hundone : Wp (undoMapping (mmapStart s.process) (n * pageSize) paddr) ⟨v', withRegion n s.process⟩
            (fun _ s'' => MmapGaveUp n s s'') fun _ _ => False := undoMapping_gaveUp hn hplace rfl (hg.ok hok') hsame
        refine wp_bind.mpr (Wp.mono hundone (fun _ s'' h => ?_) fun _ _ h => h)
        exact hdone _ _ (.inl ⟨by decide, fun hyes => hfails (hroom.mpr hyes), h⟩)

/-- A failed call changes nothing exactly if nothing was taken or all that is needed is there. In any case the
regions are what they were, and the entries too, but for that of a first page that was mapped: it is cleared. -/
theorem userVmMapAnonymous_atomic (s : Space) (hs : MmapReady s) (hint size flags : Nat) :
    ((∀ r s', userVmMapAnonymous hint size flags s = .ok r s' → r < 0 → MmapUnchanged s s') ↔
      MmapEarly hint size flags s.process ∨ MmapBacked (mmapPages size) s) ∧
    (∀ r s', userVmMapAnonymous hint size flags s = .ok r s' → r < 0 → MmapUndone s s' ∧
      (¬MmapEarly hint size flags s.process → RunFree (mmapPages size) s.vm.pmm →
        leafOf s'.vm.mem s.process.pageTable (mmapStart s.process) = none)) := by
  have hout := userVmMapAnonymous_outcome hs hint size flags
  refine ⟨⟨fun hall => ?_, fun hcond r s' hrun hr => ?_⟩, fun r s' hrun hr => ?_⟩
  · obtain ⟨r, s', hrun, hout⟩ := hout.returns
    cases hout with
    | refused hr h => exact .inl h
    | mapped hr h hyes => exact .inr hyes
    | gaveUp hr h hno hgave =>
      -- the address moved on
      have hnext := (hall r s' hrun hr).next
      rw [hgave.next] at hnext
      have hle : s.process.nextUserVaddr ≤ mmapStart s.process := by
        unfold mmapStart pageSize
        omega
      have hpos : mmapPages size * pageSize ≠ 0 := by
        intro h0
        refine h (.inl (.inr (.inr (.inr (.inl ?_)))))
        unfold mmapPages pageSize at h0
        omega
      omega
  · have hout := hout.of_ok hrun
    cases hout with
    | refused hr h => exact ⟨rfl, rfl, fun _ => rfl⟩
    | mapped hr' h hyes => omega
    | gaveUp hr h hno hgave => exact absurd hcond (by simp [h, hno])
  · have hout := hout.of_ok hrun
    cases hout with
    | refused hr h => exact ⟨⟨rfl, fun _ _ => rfl⟩, fun hnot => absurd h hnot⟩
    | mapped hr' h hyes => omega
    | gaveUp hr h hno hgave => exact ⟨hgave.toMmapUndone, fun _ => hgave.cleared⟩

/-- A process with a page table, and no page that is free. -/
def fullSpace : Space where
  vm := ⟨⟨0x40000000, 1, fun _ => true, 0, false⟩, fun _ _ => 0⟩
  process := { processInit 1 [] with pageTable := 0x40000000 }

theorem fullSpace_ready : MmapReady fullSpace := by
  have hchild : ∀ t i, tableChild fullSpace.vm.mem t i = none := by
    intro t i
    show entryTable 0 = none
    decide
  have hnode : ∀ p a, nodeAt (tableChild fullSpace.vm.mem) fullSpace.process.pageTable p = some a → p = [] := by
    intro p a hp
    cases p with
    | nil => rfl
    | cons i p =>
      rw [nodeAt, hchild] at hp
      cases hp
  have hempty : freePages fullSpace.vm.pmm = ∅ := by
    rw [Set.eq_empty_iff_forall_notMem]
    rintro a ⟨page, -, hu, -⟩
    cases hu
  refine ⟨by decide, fun _ => ⟨⟨by decide, by decide, ?_⟩, by decide, ?_, ?_⟩, fun _ => ?_⟩
  · rw [hempty]
    exact fun h => h
  · intro p q a _ _ hp hq
    rw [hnode p a hp, hnode q a hq]
  · intro a _
    rw [hempty]
    exact fun h => h
  · intro p t i _ _ hvalid
    exact absurd (Nat.zero_and descValid) hvalid

/-- A page is asked for, and the address moves on although there is none. -/
theorem mmapRefund_missing : ¬ ∀ (s : Space), MmapReady s → ∀ hint size flags r s',
    userVmMapAnonymous hint size flags s = .ok r s' → r < 0 → MmapUnchanged s s' := by
  intro h
  have hrun : userVmMapAnonymous 0 1 0 fullSpace =
      .ok userVmErrNomem { fullSpace with process := { fullSpace.process with nextUserVaddr := 0x100001000 } } := rfl
  have hnext := (h fullSpace fullSpace_ready 0 1 0 _ _ hrun (by decide)).next
  revert hnext
  decide

theorem userVmMapAnonymous_atomic_full :
    ((∀ r s', userVmMapAnonymous 0 1 0 fullSpace = .ok r s' → r < 0 → MmapUnchanged fullSpace s') ↔
      MmapEarly 0 1 0 fullSpace.process ∨ MmapBacked (mmapPages 1) fullSpace) ∧
    (∀ r s', userVmMapAnonymous 0 1 0 fullSpace = .ok r s' → r < 0 → MmapUndone fullSpace s' ∧
      (¬MmapEarly 0 1 0 fullSpace.process → RunFree (mmapPages 1) fullSpace.vm.pmm →
        leafOf s'.vm.mem fullSpace.process.pageTable (mmapStart fullSpace.process) = none)) :=
  userVmMapAnonymous_atomic fullSpace fullSpace_ready 0 1 0

end Armonios
