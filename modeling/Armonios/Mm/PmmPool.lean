import Armonios.Mm.Pmm
import Armonios.Lib.Run
import Mathlib

/-!
# The pool of pages

What the allocator is for: a set of free pages, which are numbered from the base on. An allocation takes the lowest
pages in a row that are free (`allocRun`); a reservation takes what meets a range, a free gives back one page.

* `PmmCall.onPmm_holds`: every call does with the allocator of `Mm/Pmm.lean` what it does with the set.

The counter is the number of free pages, and no page behind the last is free (`PoolHolds`).
-/

namespace Armonios

/-! ## Calls -/

/-- A call, with the values of its registers. -/
inductive PmmCall
  | reserveRange (start size : BitVec 64)
  | allocPage
  | allocPages (count : BitVec 64)
  | freePage (paddr : BitVec 64)

/-- What a call returns, with 0 for the calls that return nothing. -/
def PmmCall.onPmm (pmm : Pmm) : PmmCall → Nat × Pmm
  | reserveRange start size => (0, pmmReserveRange start.toNat size.toNat pmm)
  | allocPage => pmmAllocPage pmm
  | allocPages count => pmmAllocPages count.toNat pmm
  | freePage paddr => (0, pmmFreePage paddr.toNat pmm)

/-- The pages from `first` on are free. -/
def FreeRun (free : Set Nat) (count first : Nat) : Prop := ∀ page, first ≤ page → page < first + count → page ∈ free

/-- A page meets a range of addresses. -/
def Meets (base start size page : Nat) : Prop :=
  ∃ a, start ≤ a ∧ a < start + size ∧ base + page * pageSize ≤ a ∧ a < base + (page + 1) * pageSize

open Classical in
/-- The lowest pages in a row, with the address of the first, or 0 without them. -/
noncomputable def allocRun (base count : Nat) (free : Set Nat) : Nat × Set Nat :=
  if h : count ≠ 0 ∧ ∃ first, FreeRun free count first then
    (base + Nat.find h.2 * pageSize, free \ {page | Nat.find h.2 ≤ page ∧ page < Nat.find h.2 + count})
  else (0, free)

noncomputable def PmmCall.onFree (base total : Nat) (free : Set Nat) : PmmCall → Nat × Set Nat
  | reserveRange start size => (0, free \ {page | Meets base start.toNat size.toNat page})
  | allocPage => allocRun base 1 free
  | allocPages count => allocRun base count.toNat free
  | freePage paddr => (0, free ∪ {page | page < total ∧ paddr.toNat = base + page * pageSize})

/-! ## The free pages of the allocator -/

/-- The allocator has these free pages, and counts them. -/
structure PoolHolds (base total : Nat) (pmm : Pmm) (free : Set Nat) : Prop where
  memBase : pmm.memBase = base
  totalPages : pmm.totalPages = total
  below : ∀ page ∈ free, page < total
  used : ∀ page, pmm.used page = false ↔ page ∈ free
  count : pmm.freeCount = free.ncard

section Pool

variable {pmm : Pmm} {base total page count : Nat} {free : Set Nat}

theorem PoolHolds.finite (h : PoolHolds base total pmm free) : free.Finite := (Set.finite_Iio total).subset h.below

theorem PoolHolds.count_le (h : PoolHolds base total pmm free) : pmm.freeCount ≤ total := by
  rw [h.count]
  calc free.ncard ≤ (Set.Iio total).ncard := Set.ncard_le_ncard h.below (Set.finite_Iio total)
    _ = total := by simp [Set.ncard_eq_toFinset_card']

theorem PoolHolds.pageAddr (h : PoolHolds base total pmm free) (page : Nat) :
    Armonios.pageAddr pmm page = base + page * pageSize := by
  rw [← h.memBase]
  rfl

theorem PoolHolds.setUsed (h : PoolHolds base total pmm free) (page : Nat) :
    PoolHolds base total (setUsed page pmm) (free \ {page}) := by
  have hpool := setUsed_pool page pmm
  refine ⟨hpool.memBase.trans h.memBase, hpool.totalPages.trans h.totalPages, fun q hq => h.below q hq.1,
    fun q => ?_, ?_⟩
  · rw [setUsed_used, Bool.or_eq_false_iff, h.used]
    simp
  · unfold Armonios.setUsed
    by_cases hp : page ∈ free
    · have hu := (h.used page).mpr hp
      rw [if_neg (by simp [hu]), Set.ncard_sdiff_singleton_of_mem hp, ← h.count]
    · have hu : pmm.used page = true := by
        by_contra hno
        exact hp ((h.used page).mp (by simpa using hno))
      rw [if_pos hu, h.count, Set.sdiff_singleton_eq_self hp]

theorem PoolHolds.setFree (h : PoolHolds base total pmm free) (hp : page < total) :
    PoolHolds base total (setFree page pmm) (free ∪ {page}) := by
  unfold Armonios.setFree
  by_cases hu : pmm.used page = true
  · have hnot : page ∉ free := fun hmem => by
      rw [(h.used page).mpr hmem] at hu
      cases hu
    rw [if_pos hu]
    refine ⟨h.memBase, h.totalPages, ?_, fun q => ?_, ?_⟩
    · rintro q (hq | rfl)
      · exact h.below q hq
      · exact hp
    · by_cases hq : q = page
      · subst hq
        simp
      · simp [hq, h.used]
    · show pmm.freeCount + 1 = _
      rw [Set.union_singleton, Set.ncard_insert_of_notMem hnot h.finite, h.count]
  · have hmem : page ∈ free := (h.used page).mp (by simpa using hu)
    rw [if_neg hu, Set.union_singleton, Set.insert_eq_of_mem hmem]
    exact ⟨h.memBase, h.totalPages, h.below, h.used, h.count⟩

theorem PoolHolds.foldl_setUsed (h : PoolHolds base total pmm free) (l : List Nat) :
    PoolHolds base total (l.foldl (fun pmm page => Armonios.setUsed page pmm) pmm) (free \ {page | page ∈ l}) := by
  induction l generalizing pmm free with
  | nil => simpa using h
  | cons x l ih =>
    have hrest := ih (h.setUsed x)
    rw [Set.sdiff_sdiff] at hrest
    have hset : {x} ∪ {page | page ∈ l} = {page | page ∈ x :: l} := by
      ext q
      simp
    rwa [hset] at hrest

/-- `pmm_init` after its first `n` pages. -/
def initPages (memBase total n : Nat) : Pmm :=
  (List.range n).foldl (fun pmm page => setFree page pmm)
    { memBase, totalPages := total, used := fun _ => true, freeCount := 0, misfreed := false }

theorem initPages_succ (memBase total n : Nat) :
    initPages memBase total (n + 1) = setFree n (initPages memBase total n) := by
  unfold initPages
  rw [List.range_succ, List.foldl_append, List.foldl_cons, List.foldl_nil]

theorem initPages_holds {n : Nat} (hn : n ≤ total) : PoolHolds base total (initPages base total n)
    {page | page < n} := by
  induction n with
  | zero => exact ⟨rfl, rfl, by simp, by simp [initPages], by simp [initPages]⟩
  | succ n ih =>
    rw [initPages_succ]
    have hnext := (ih (by omega)).setFree hn
    have hset : {page | page < n} ∪ {n} = {page | page < n + 1} := by
      ext q
      simp only [Set.mem_union, Set.mem_ofPred_eq, Set.mem_singleton_iff]
      omega
    rwa [hset] at hnext

/-! ## Allocations -/

open Classical in
/-- An allocation takes the lowest pages in a row. -/
theorem allocRun_eq {first : Nat} (hn : count ≠ 0) (hrun : FreeRun free count first)
    (hleast : ∀ other, FreeRun free count other → first ≤ other) :
    allocRun base count free =
      (base + first * pageSize, free \ {page | first ≤ page ∧ page < first + count}) := by
  have hex : count ≠ 0 ∧ ∃ first, FreeRun free count first := ⟨hn, first, hrun⟩
  have hfind : Nat.find hex.2 = first :=
    le_antisymm (Nat.find_min' hex.2 hrun) (hleast _ (Nat.find_spec hex.2))
  rw [allocRun, dif_pos hex, hfind]

theorem allocRun_none (h : count ≠ 0 → ∀ first, ¬ FreeRun free count first) : allocRun base count free = (0, free) := by
  rw [allocRun, dif_neg]
  rintro ⟨hn, first, hrun⟩
  exact h hn first hrun

/-- The scan finds the lowest pages in a row. No run starts before the pages that are counted. -/
theorem PoolHolds.scanRun (h : PoolHolds base total pmm free) {left runStart runCount : Nat} (hcount : runCount < count)
    (hpage : page + left = total) (hstart : runCount ≠ 0 → runStart + runCount = page)
    (hcounted : ∀ q, page ≤ q + runCount → q < page → q ∈ free)
    (hbefore : ∀ first, FreeRun free count first → page ≤ first + runCount) :
    (∀ first, scanRun pmm count left page runStart runCount = some first →
      FreeRun free count first ∧ ∀ other, FreeRun free count other → first ≤ other) ∧
    (scanRun pmm count left page runStart runCount = none → ∀ first, ¬ FreeRun free count first) := by
  induction left generalizing page runStart runCount with
  | zero =>
    refine ⟨?_, fun _ first hrun => ?_⟩
    · intro first hf
      cases hf
    have hlast := h.below (first + count - 1) (hrun _ (by omega) (by omega))
    have := hbefore first hrun
    omega
  | succ left ih =>
    unfold Armonios.scanRun
    by_cases hu : pmm.used page = true
    · rw [if_pos hu]
      refine ih (by omega) (by omega) (fun h => absurd rfl h) (fun q h1 h2 => by omega) fun first hrun => ?_
      -- the page would be in the run
      by_contra hlt
      have := hbefore first hrun
      have hmem := hrun page (by omega) (by omega)
      rw [(h.used page).mpr hmem] at hu
      cases hu
    · rw [if_neg hu]
      have hmem : page ∈ free := (h.used page).mp (by simpa using hu)
      have hsum : (if runCount = 0 then page else runStart) + runCount = page := by
        split
        · omega
        · exact hstart ‹_›
      have hmore : ∀ q, page + 1 ≤ q + (runCount + 1) → q < page + 1 → q ∈ free := by
        intro q h1 h2
        rcases Nat.lt_succ_iff_lt_or_eq.mp h2 with h2 | rfl
        · exact hcounted q (by omega) h2
        · exact hmem
      simp only
      split
      · rename_i hfull
        constructor
        · intro first hf
          cases hf
          refine ⟨fun q h1 h2 => hmore q (by omega) (by omega), fun other hrun => ?_⟩
          have := hbefore other hrun
          omega
        · intro hf
          cases hf
      · exact ih (by omega) (by omega) (fun _ => by omega) hmore fun first hrun => by
          have := hbefore first hrun
          omega

theorem PoolHolds.allocPages (h : PoolHolds base total pmm free) (count : Nat) :
    (pmmAllocPages count pmm).1 = (allocRun base count free).1 ∧
      PoolHolds base total (pmmAllocPages count pmm).2 (allocRun base count free).2 := by
  unfold pmmAllocPages
  by_cases hn : count = 0 ∨ pmm.totalPages < count
  · rw [if_pos hn, allocRun_none]
    · exact ⟨rfl, h⟩
    · intro h0 first hrun
      have hlast := h.below (first + count - 1) (hrun _ (by omega) (by omega))
      rw [h.totalPages] at hn
      omega
  · rw [if_neg hn]
    simp only [not_or] at hn
    have hlen : 0 + pmm.totalPages = total := by
      rw [h.totalPages, Nat.zero_add]
    obtain ⟨hsome, hnone⟩ := h.scanRun (Nat.pos_of_ne_zero hn.1) hlen (fun h => absurd rfl h)
      (fun q _ hq => absurd hq (Nat.not_lt_zero q)) (fun _ _ => Nat.zero_le _)
    cases hscan : Armonios.scanRun pmm count pmm.totalPages 0 0 0 with
    | none =>
      rw [allocRun_none fun _ => hnone hscan]
      exact ⟨rfl, h⟩
    | some first =>
      obtain ⟨hrun, hleast⟩ := hsome first hscan
      rw [allocRun_eq hn.1 hrun hleast]
      have htaken := h.foldl_setUsed (List.range' first count)
      simp only [List.mem_range'_1] at htaken
      exact ⟨h.pageAddr first, htaken⟩

theorem PoolHolds.allocPage (h : PoolHolds base total pmm free) :
    (pmmAllocPage pmm).1 = (allocRun base 1 free).1 ∧
      PoolHolds base total (pmmAllocPage pmm).2 (allocRun base 1 free).2 := by
  have hone : ∀ first, FreeRun free 1 first ↔ first ∈ free := by
    intro first
    constructor
    · intro hrun
      exact hrun first (Nat.le_refl _) (by omega)
    · intro hf page h1 h2
      obtain rfl : page = first := by omega
      exact hf
  unfold pmmAllocPage
  cases hfind : findFree pmm with
  | none =>
    rw [allocRun_none]
    · exact ⟨rfl, h⟩
    · intro _ first hrun
      have hf := (hone first).mp hrun
      unfold findFree at hfind
      rw [List.find?_eq_none] at hfind
      have hlt := h.below first hf
      refine hfind first (by rw [List.mem_range, h.totalPages]; exact hlt) ?_
      simp [(h.used first).mpr hf]
  | some page =>
    have hpage : page ∈ free := by
      have := List.find?_some hfind
      exact (h.used page).mp (by simpa using this)
    have hleast : ∀ other, FreeRun free 1 other → page ≤ other := by
      intro other hrun
      have ho := (hone other).mp hrun
      by_contra hlt
      unfold findFree at hfind
      have := (List.find?_range_eq_some.mp hfind).2.2 other (by omega)
      simp [(h.used other).mpr ho] at this
    rw [allocRun_eq (by decide) ((hone page).mpr hpage) hleast]
    have htaken := h.setUsed page
    have hset : {q | page ≤ q ∧ q < page + 1} = {page} := by
      ext q
      simp only [Set.mem_ofPred_eq, Set.mem_singleton_iff]
      omega
    rw [hset]
    exact ⟨h.pageAddr page, htaken⟩

/-! ## Reservations and frees -/

theorem meets_iff {start size : Nat} : Meets base start size page ↔
    0 < size ∧ start < base + (page + 1) * pageSize ∧ base + page * pageSize < start + size := by
  constructor
  · rintro ⟨a, h1, h2, h3, h4⟩
    omega
  · rintro ⟨h1, h2, h3⟩
    have : page * pageSize < (page + 1) * pageSize := by
      unfold pageSize
      omega
    exact ⟨max start (base + page * pageSize), by omega, by omega, by omega, by omega⟩

/-- What a board reports: whole pages below the end of the addresses. -/
structure Reported (base total : Nat) : Prop where
  aligned : base % pageSize = 0
  bound : base + total * pageSize ≤ uint64Max

theorem PoolHolds.reserveRange (h : PoolHolds base total pmm free) (hr : Reported base total) {start size : Nat}
    (hstart : start ≤ uint64Max) (hsize : size ≤ uint64Max) :
    PoolHolds base total (pmmReserveRange start size pmm) (free \ {page | Meets base start size page}) := by
  have hbase := hr.aligned
  have hbound := hr.bound
  have hend : managedEnd pmm = base + total * pageSize := by
    unfold managedEnd addSaturated
    rw [h.memBase, h.totalPages, if_neg (by omega)]
  have hnone : (∀ page ∈ free, ¬ Meets base start size page) →
      free \ {page | Meets base start size page} = free := by
    intro hno
    exact sdiff_eq_left.mpr (Set.disjoint_left.mpr hno)
  unfold pmmReserveRange
  simp only [hend, h.memBase, h.totalPages]
  split
  · -- there is nothing to reserve, or no page
    rename_i hzero
    rw [hnone]
    · exact h
    · intro page hp
      have := h.below page hp
      rw [meets_iff]
      omega
  split
  · -- the range is below the pages, or behind them
    rename_i hout
    rw [hnone]
    · exact h
    · intro page hp
      have := h.below page hp
      rw [meets_iff]
      unfold addSaturated at hout
      unfold pageSize uint64Max at *
      split at hout <;> omega
  · rename_i hzero hin
    have hstop : addSaturated start size = if uint64Max < start + size then uint64Max else start + size := by
      unfold addSaturated
      split <;> split <;> omega
    generalize addSaturated start size = stop at hin hstop ⊢
    have hfirst : ∀ page, (if start < base then 0 else (start / pageSize * pageSize - base) / pageSize) ≤ page ↔
        start < base + (page + 1) * pageSize := by
      intro page
      unfold pageSize at *
      split <;> omega
    have hlast : ∀ page < total, (page < if base + total * pageSize ≤ stop then total
        else min ((alignUpSaturated stop - base) / pageSize) total) ↔ base + page * pageSize < stop := by
      intro page hp
      unfold alignUpSaturated
      unfold pageSize uint64Max at *
      split
      · omega
      · split
        · omega
        · rw [if_neg (by omega)]
          omega
    generalize (if start < base then 0 else (start / pageSize * pageSize - base) / pageSize) = pageStart at hfirst ⊢
    generalize (if base + total * pageSize ≤ stop then total
      else min ((alignUpSaturated stop - base) / pageSize) total) = pageEnd at hlast ⊢
    have hset : free \ {page | Meets base start size page} =
        free \ {page | page ∈ List.range' pageStart (pageEnd - pageStart)} := by
      ext page
      simp only [Set.mem_sdiff, Set.mem_ofPred_eq, and_congr_right_iff]
      intro hp
      have hlt := h.below page hp
      have h1 := hfirst page
      have h2 := hlast page hlt
      rw [meets_iff, List.mem_range'_1, not_iff_not]
      unfold pageSize at *
      split at hstop <;> omega
    rw [hset]
    exact h.foldl_setUsed _

theorem PoolHolds.freePage (h : PoolHolds base total pmm free) (hr : Reported base total) (paddr : Nat) :
    PoolHolds base total (pmmFreePage paddr pmm) (free ∪ {page | page < total ∧ paddr = base + page * pageSize}) := by
  have hbase := hr.aligned
  -- the ghost says nothing about the pages
  have hghost : PoolHolds base total ⟨base, total, pmm.used, pmm.freeCount, true⟩ free :=
    ⟨rfl, rfl, h.below, h.used, h.count⟩
  have hnone : (∀ page, page < total → paddr ≠ base + page * pageSize) →
      free ∪ {page | page < total ∧ paddr = base + page * pageSize} = free := by
    intro hno
    rw [Set.union_eq_left]
    rintro page ⟨hp, heq⟩
    exact absurd heq (hno page hp)
  unfold pmmFreePage
  simp only [h.memBase, h.totalPages]
  split
  · rename_i hforeign
    rw [hnone]
    · exact hghost
    · intro page _
      unfold pageSize at *
      omega
  split
  · rename_i hbehind
    rw [hnone]
    · exact hghost
    · intro page _
      unfold pageSize at *
      omega
  · rename_i hown hin
    have hpage : {page | page < total ∧ paddr = base + page * pageSize} = {(paddr - base) / pageSize} := by
      ext page
      simp only [Set.mem_ofPred_eq, Set.mem_singleton_iff]
      unfold pageSize at *
      omega
    rw [hpage]
    exact h.setFree (by omega)

theorem PmmCall.onPmm_holds (h : PoolHolds base total pmm free) (hr : Reported base total) (c : PmmCall) :
    (c.onPmm pmm).1 = (c.onFree base total free).1 ∧ PoolHolds base total (c.onPmm pmm).2
      (c.onFree base total free).2 := by
  have hword : ∀ x : BitVec 64, x.toNat ≤ uint64Max := fun x => Nat.le_pred_of_lt x.isLt
  cases c with
  | reserveRange start size => exact ⟨rfl, h.reserveRange hr (hword start) (hword size)⟩
  | allocPage => exact h.allocPage
  | allocPages count => exact h.allocPages count.toNat
  | freePage paddr => exact ⟨rfl, h.freePage hr paddr.toNat⟩

end Pool

end Armonios
