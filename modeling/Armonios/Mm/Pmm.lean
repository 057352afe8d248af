import Armonios.Lib.Wp
import Mathlib.Data.Set.Insert
import Mathlib.Data.List.Nodup

/-!
# The physical page allocator

The model of `kernel/mm/pmm.c`. A page is free or in use; `g_bitmap` has a bit for each page that the
board reports, `used` here. Addresses are `Nat`: the allocator works on a range of real memory, which
ends below `2 ^ 48` (`PmmOk`), so no sum of two addresses wraps.

* `freePages`: the addresses of the free pages, and how the operations change them.
-/

namespace Armonios

/-- `PAGE_SIZE`. -/
def pageSize : Nat := 4096

/-- `PMM_MAX_PAGES`. -/
def pmmMaxPages : Nat := 32768

/-- `UINT64_MAX`. -/
def uint64Max : Nat := 2 ^ 64 - 1

/-- The globals of the allocator. `misfreed` is a ghost: `pmm_free_page` ignores a page that is not in
use, and the ghost remembers that it was asked to free one. -/
structure Pmm where
  memBase : Nat
  totalPages : Nat
  used : Nat → Bool
  freeCount : Nat
  misfreed : Bool

def setUsed (page : Nat) (pmm : Pmm) : Pmm :=
  if pmm.used page then pmm
  else { pmm with used := Function.update pmm.used page true, freeCount := pmm.freeCount - 1 }

def setFree (page : Nat) (pmm : Pmm) : Pmm :=
  if pmm.used page then
    { pmm with used := Function.update pmm.used page false, freeCount := pmm.freeCount + 1 }
  else { pmm with misfreed := true }

def pmmInit (memBase memSize : Nat) : Pmm :=
  let totalPages := min (memSize / pageSize) pmmMaxPages
  (List.range totalPages).foldl (fun pmm page => setFree page pmm)
    { memBase, totalPages, used := fun _ => true, freeCount := 0, misfreed := false }

def addSaturated (a b : Nat) : Nat := if a > uint64Max - b then uint64Max else a + b

def alignUpSaturated (value : Nat) : Nat :=
  if value % pageSize = 0 then value
  else if value > uint64Max - (pageSize - 1) then uint64Max
  else (value + pageSize - 1) / pageSize * pageSize

def managedEnd (pmm : Pmm) : Nat := addSaturated pmm.memBase (pmm.totalPages * pageSize)

def pmmReserveRange (start size : Nat) (pmm : Pmm) : Pmm :=
  if size = 0 ∨ pmm.totalPages = 0 then pmm
  else
    let stop := addSaturated start size
    if stop ≤ pmm.memBase ∨ managedEnd pmm ≤ start then pmm
    else
      let pageStart := if start < pmm.memBase then 0
        else (start / pageSize * pageSize - pmm.memBase) / pageSize
      let pageEnd := if managedEnd pmm ≤ stop then pmm.totalPages
        else min ((alignUpSaturated stop - pmm.memBase) / pageSize) pmm.totalPages
      (List.range' pageStart (pageEnd - pageStart)).foldl (fun pmm page => setUsed page pmm) pmm

/-- The address of a page. -/
def pageAddr (pmm : Pmm) (page : Nat) : Nat := pmm.memBase + page * pageSize

/-- The first free page. -/
def findFree (pmm : Pmm) : Option Nat := (List.range pmm.totalPages).find? fun page => !pmm.used page

/-- Returns 0 if no page is free. -/
def pmmAllocPage (pmm : Pmm) : Nat × Pmm :=
  match findFree pmm with
  | some page => (pageAddr pmm page, setUsed page pmm)
  | none => (0, pmm)

/-- The scan of `pmm_alloc_pages` from `page` on, with `left` pages to go. -/
def scanRun (pmm : Pmm) (count : Nat) : (left page runStart runCount : Nat) → Option Nat
  | 0, _, _, _ => none
  | left + 1, page, runStart, runCount =>
    if pmm.used page then scanRun pmm count left (page + 1) runStart 0
    else
      let runStart := if runCount = 0 then page else runStart
      if runCount + 1 = count then some runStart
      else scanRun pmm count left (page + 1) runStart (runCount + 1)

/-- Returns 0 if there are no `count` free pages in a row. -/
def pmmAllocPages (count : Nat) (pmm : Pmm) : Nat × Pmm :=
  if count = 0 ∨ pmm.totalPages < count then (0, pmm)
  else
    match scanRun pmm count pmm.totalPages 0 0 0 with
    | some start =>
      (pageAddr pmm start, (List.range' start count).foldl (fun pmm page => setUsed page pmm) pmm)
    | none => (0, pmm)

def pmmFreePage (paddr : Nat) (pmm : Pmm) : Pmm :=
  if paddr < pmm.memBase ∨ paddr % pageSize ≠ 0 then { pmm with misfreed := true }
  else
    let page := (paddr - pmm.memBase) / pageSize
    if pmm.totalPages ≤ page then { pmm with misfreed := true } else setFree page pmm

/-- The pages of the `size` bytes from `paddr` on, as the loops over a range of pages visit them. -/
def pagesOf (paddr size : Nat) : List Nat :=
  (List.range ((size + pageSize - 1) / pageSize)).map fun i => paddr + i * pageSize

/-- `pmm_free_page` for one page after the other. -/
def pmmFreeAll (pages : List Nat) (pmm : Pmm) : Pmm := pages.foldl (fun pmm page => pmmFreePage page pmm) pmm

/-- `free_page_range` of `user_vm.c`, and the same loop in `process_free_resources` and
`free_image_pages`. -/
def freePageRange (paddr size : Nat) (pmm : Pmm) : Pmm := pmmFreeAll (pagesOf paddr size) pmm

variable {pmm pmm' pmm'' : Pmm} {S : Set Nat} {a n page : Nat}

/-! ## The pages of the allocator -/

/-- The addresses of the pages in the range of the allocator. -/
def managed (pmm : Pmm) : Set Nat := {a | ∃ page < pmm.totalPages, a = pageAddr pmm page}

/-- The addresses of the free pages. -/
def freePages (pmm : Pmm) : Set Nat :=
  {a | ∃ page < pmm.totalPages, pmm.used page = false ∧ a = pageAddr pmm page}

/-- What the kernel gives `pmm_init` and reserves: page-aligned memory in the 48 bits of a physical
address; the page at the address 0, if there is one, holds the kernel. -/
structure PmmOk (pmm : Pmm) : Prop where
  aligned : pmm.memBase % pageSize = 0
  bound : pmm.memBase + pmm.totalPages * pageSize ≤ 2 ^ 48
  zero : 0 ∉ freePages pmm

theorem freePages_subset_managed : freePages pmm ⊆ managed pmm := by
  intro a h
  obtain ⟨page, hp, -, rfl⟩ := h
  exact ⟨page, hp, rfl⟩

theorem pageAddr_inj {p q : Nat} (h : pageAddr pmm p = pageAddr pmm q) : p = q := by
  unfold pageAddr pageSize at h
  omega

theorem PmmOk.page_aligned (h : PmmOk pmm) (ha : a ∈ managed pmm) : a % pageSize = 0 := by
  obtain ⟨page, -, rfl⟩ := ha
  have hb := h.aligned
  unfold pageAddr pageSize at *
  omega

theorem PmmOk.page_bound (h : PmmOk pmm) (ha : a ∈ managed pmm) : a + pageSize ≤ 2 ^ 48 := by
  obtain ⟨page, hp, rfl⟩ := ha
  have hb := h.bound
  unfold pageAddr pageSize at *
  omega

/-- The allocator went from `pmm` to `pmm'` with the same range of pages. -/
structure SamePool (pmm pmm' : Pmm) : Prop where
  memBase : pmm'.memBase = pmm.memBase
  totalPages : pmm'.totalPages = pmm.totalPages
  misfreed : pmm'.misfreed = pmm.misfreed

theorem SamePool.refl (pmm : Pmm) : SamePool pmm pmm := ⟨rfl, rfl, rfl⟩

theorem SamePool.trans (h : SamePool pmm pmm') (h' : SamePool pmm' pmm'') : SamePool pmm pmm'' :=
  ⟨h'.memBase.trans h.memBase, h'.totalPages.trans h.totalPages, h'.misfreed.trans h.misfreed⟩

theorem SamePool.pageAddr (h : SamePool pmm pmm') (page : Nat) :
    Armonios.pageAddr pmm' page = Armonios.pageAddr pmm page := by
  unfold Armonios.pageAddr
  rw [h.memBase]

theorem SamePool.managed (h : SamePool pmm pmm') : managed pmm' = Armonios.managed pmm := by
  unfold Armonios.managed
  simp only [h.totalPages, h.pageAddr]

/-- The pages in `S` were free and are in use now. -/
structure Took (S : Set Nat) (pmm pmm' : Pmm) : Prop where
  pool : SamePool pmm pmm'
  were : S ⊆ freePages pmm
  free : freePages pmm' = freePages pmm \ S

/-- The pages in `S` were in use and are free now. -/
structure Gave (S : Set Nat) (pmm pmm' : Pmm) : Prop where
  pool : SamePool pmm pmm'
  free : freePages pmm' = freePages pmm ∪ S

theorem PmmOk.took (h : PmmOk pmm) (ht : Took S pmm pmm') : PmmOk pmm' := by
  refine ⟨by rw [ht.pool.memBase]; exact h.aligned, ?_, fun h0 => ?_⟩
  · rw [ht.pool.memBase, ht.pool.totalPages]
    exact h.bound
  · rw [ht.free] at h0
    exact h.zero h0.1

theorem PmmOk.gave (h : PmmOk pmm) (ht : Gave S pmm pmm') (hz : 0 ∉ S) : PmmOk pmm' := by
  refine ⟨by rw [ht.pool.memBase]; exact h.aligned, ?_, fun h0 => ?_⟩
  · rw [ht.pool.memBase, ht.pool.totalPages]
    exact h.bound
  · rw [ht.free] at h0
    exact h0.elim h.zero hz

/-! ## Allocating -/

theorem setUsed_pool (page : Nat) (pmm : Pmm) : SamePool pmm (setUsed page pmm) := by
  unfold setUsed
  split
  · exact .refl pmm
  · exact ⟨rfl, rfl, rfl⟩

theorem setUsed_used (page q : Nat) (pmm : Pmm) :
    (setUsed page pmm).used q = (pmm.used q || decide (q = page)) := by
  unfold setUsed
  by_cases hq : q = page
  · subst hq
    split <;> simp_all
  · split <;> simp [hq]

theorem foldl_setUsed_pool (l : List Nat) (pmm : Pmm) :
    SamePool pmm (l.foldl (fun pmm page => setUsed page pmm) pmm) := by
  induction l generalizing pmm with
  | nil => exact .refl pmm
  | cons x l ih => exact (setUsed_pool x pmm).trans (ih (setUsed x pmm))

theorem foldl_setUsed_used (l : List Nat) (q : Nat) (pmm : Pmm) :
    (l.foldl (fun pmm page => setUsed page pmm) pmm).used q = (pmm.used q || decide (q ∈ l)) := by
  induction l generalizing pmm with
  | nil => simp
  | cons x l ih =>
    rw [List.foldl_cons, ih, setUsed_used]
    by_cases hq : q = x <;> simp [hq]

/-- Marking the pages of a list that are all free. -/
theorem foldl_setUsed_took (l : List Nat) (hl : ∀ page ∈ l, page < pmm.totalPages ∧ pmm.used page = false) :
    Took {a | ∃ page ∈ l, a = pageAddr pmm page} pmm (l.foldl (fun pmm page => setUsed page pmm) pmm) := by
  have hpool := foldl_setUsed_pool l pmm
  refine ⟨hpool, ?_, ?_⟩
  · rintro a ⟨page, hp, rfl⟩
    exact ⟨page, (hl page hp).1, (hl page hp).2, rfl⟩
  · ext a
    constructor
    · rintro ⟨page, hp, hu, rfl⟩
      rw [foldl_setUsed_used, Bool.or_eq_false_iff, decide_eq_false_iff_not] at hu
      rw [hpool.totalPages] at hp
      rw [hpool.pageAddr]
      refine ⟨⟨page, hp, hu.1, rfl⟩, ?_⟩
      rintro ⟨q, hq, he⟩
      exact hu.2 (pageAddr_inj he ▸ hq)
    · rintro ⟨⟨page, hp, hu, rfl⟩, hno⟩
      refine ⟨page, by rw [hpool.totalPages]; exact hp, ?_, (hpool.pageAddr page).symm⟩
      rw [foldl_setUsed_used, hu, Bool.false_or, decide_eq_false_iff_not]
      exact fun hq => hno ⟨page, hq, rfl⟩

/-- `pmm_alloc_page` returns 0 and leaves the bitmap alone, or returns a page that was free. -/
theorem pmmAllocPage_spec (hok : PmmOk pmm) : pmmAllocPage pmm = (0, pmm) ∨
    ∃ a pmm', pmmAllocPage pmm = (a, pmm') ∧ a ≠ 0 ∧ Took {a} pmm pmm' := by
  unfold pmmAllocPage
  cases h : findFree pmm with
  | none => exact .inl rfl
  | some page =>
    refine .inr ⟨_, _, rfl, ?_, ?_⟩
    all_goals
      have hmem := List.mem_of_find?_eq_some h
      have hfree := List.find?_some h
      simp only [List.mem_range, Bool.not_eq_true'] at hmem hfree
    · intro h0
      exact hok.zero ⟨page, hmem, hfree, h0.symm⟩
    · simpa using foldl_setUsed_took [page] (by simpa using ⟨hmem, hfree⟩)

/-- The scan finds pages in a row that are free. -/
theorem scanRun_spec {count left runStart runCount start : Nat} (hpage : page + left = pmm.totalPages)
    (hrun : runCount ≠ 0 → runStart + runCount = page)
    (hfree : ∀ q, runCount ≠ 0 → runStart ≤ q → q < page → pmm.used q = false)
    (h : scanRun pmm count left page runStart runCount = some start) :
    start + count ≤ pmm.totalPages ∧ ∀ q, start ≤ q → q < start + count → pmm.used q = false := by
  induction left generalizing page runStart runCount with
  | zero => cases h
  | succ left ih =>
    unfold scanRun at h
    split at h
    · exact ih (by omega) (fun h => absurd rfl h) (fun q h => absurd rfl h) h
    · rename_i hu
      have hu : pmm.used page = false := by simpa using hu
      -- the run with this page
      have hnew : ∀ q, (if runCount = 0 then page else runStart) ≤ q → q < page + 1 → pmm.used q = false := by
        intro q hq hlt
        by_cases hc : runCount = 0
        · rw [if_pos hc] at hq
          obtain rfl : q = page := by omega
          exact hu
        · rw [if_neg hc] at hq
          rcases Nat.lt_succ_iff_lt_or_eq.mp hlt with hlt | rfl
          · exact hfree q hc hq hlt
          · exact hu
      have hlen : (if runCount = 0 then page else runStart) + (runCount + 1) = page + 1 := by
        split
        · omega
        · have := hrun ‹_›
          omega
      simp only at h
      split at h
      · cases h
        rename_i hcount
        rw [← hcount, hlen]
        exact ⟨by omega, hnew⟩
      · exact ih (by omega) (fun _ => hlen) (fun q _ => hnew q) h

theorem mem_pagesOf {paddr size : Nat} :
    a ∈ pagesOf paddr size ↔ ∃ i < (size + pageSize - 1) / pageSize, a = paddr + i * pageSize := by
  unfold pagesOf
  simp only [List.mem_map, List.mem_range]
  constructor
  · rintro ⟨i, hi, rfl⟩
    exact ⟨i, hi, rfl⟩
  · rintro ⟨i, hi, rfl⟩
    exact ⟨i, hi, rfl⟩

theorem pagesOf_nodup (paddr size : Nat) : (pagesOf paddr size).Nodup := by
  refine List.Nodup.map ?_ List.nodup_range
  intro i j h
  simp only [pageSize] at h
  omega

theorem pagesOf_mul (paddr n : Nat) :
    pagesOf paddr (n * pageSize) = (List.range n).map fun i => paddr + i * pageSize := by
  have h : (n * pageSize + pageSize - 1) / pageSize = n := by
    unfold pageSize
    omega
  unfold pagesOf
  rw [h]

/-- `pmm_alloc_pages` returns 0 and leaves the bitmap alone, or returns pages in a row that were free. -/
theorem pmmAllocPages_spec (hok : PmmOk pmm) (n : Nat) : pmmAllocPages n pmm = (0, pmm) ∨
    ∃ a pmm', pmmAllocPages n pmm = (a, pmm') ∧ a ≠ 0 ∧ n ≠ 0 ∧
      Took {b | b ∈ pagesOf a (n * pageSize)} pmm pmm' := by
  unfold pmmAllocPages
  split
  · exact .inl rfl
  · rename_i hn
    simp only [not_or] at hn
    cases h : scanRun pmm n pmm.totalPages 0 0 0 with
    | none => exact .inl rfl
    | some start =>
      obtain ⟨hend, hfree⟩ := scanRun_spec (by omega) (by simp) (by simp) h
      have hl : ∀ page ∈ List.range' start n, page < pmm.totalPages ∧ pmm.used page = false := by
        intro page hp
        rw [List.mem_range'_1] at hp
        exact ⟨by omega, hfree page hp.1 hp.2⟩
      have htook := foldl_setUsed_took (List.range' start n) hl
      have hset : {a | ∃ page ∈ List.range' start n, a = pageAddr pmm page} =
          {b | b ∈ pagesOf (pageAddr pmm start) (n * pageSize)} := by
        ext b
        simp only [Set.mem_ofPred_eq, pagesOf_mul, List.mem_map, List.mem_range, List.mem_range'_1, pageAddr]
        constructor
        · rintro ⟨page, ⟨h1, h2⟩, rfl⟩
          exact ⟨page - start, by omega, by unfold pageSize; omega⟩
        · rintro ⟨i, hi, rfl⟩
          exact ⟨start + i, by omega, by unfold pageSize; omega⟩
      rw [hset] at htook
      refine .inr ⟨_, _, rfl, fun h0 => ?_, hn.1, htook⟩
      exact hok.zero ⟨start, by omega, hfree start (Nat.le_refl _) (by omega), h0.symm⟩

/-! ## Freeing -/

/-- Freeing a page that is in use. -/
theorem pmmFreePage_spec (hok : PmmOk pmm) (ha : a ∈ managed pmm) (hu : a ∉ freePages pmm) :
    Gave {a} pmm (pmmFreePage a pmm) := by
  have hal := hok.page_aligned ha
  obtain ⟨page, hp, rfl⟩ := ha
  have hused : pmm.used page = true := by
    by_contra hno
    exact hu ⟨page, hp, by simpa using hno, rfl⟩
  have hpage : (pageAddr pmm page - pmm.memBase) / pageSize = page := by
    unfold pageAddr pageSize
    omega
  have hfree : pmmFreePage (pageAddr pmm page) pmm = setFree page pmm := by
    unfold pmmFreePage
    rw [if_neg (by unfold pageAddr at *; omega)]
    simp only [hpage]
    rw [if_neg (by omega)]
  rw [hfree]
  unfold setFree
  rw [if_pos hused]
  refine ⟨⟨rfl, rfl, rfl⟩, ?_⟩
  ext b
  constructor
  · rintro ⟨q, hq, hqu, rfl⟩
    by_cases hqp : q = page
    · subst hqp
      exact .inr rfl
    · simp only [Function.update_of_ne hqp] at hqu
      exact .inl ⟨q, hq, hqu, rfl⟩
  · rintro (⟨q, hq, hqu, rfl⟩ | rfl)
    · refine ⟨q, hq, ?_, rfl⟩
      by_cases hqp : q = page
      · rw [hqp]
        simp
      · simp only [Function.update_of_ne hqp]
        exact hqu
    · exact ⟨page, hp, by simp, rfl⟩

/-- Freeing pages that are in use, each once. -/
theorem pmmFreeAll_spec {l : List Nat} (hok : PmmOk pmm) (hl : ∀ a ∈ l, a ∈ managed pmm ∧ a ∉ freePages pmm ∧ a ≠ 0)
    (hnd : l.Nodup) : Gave {a | a ∈ l} pmm (pmmFreeAll l pmm) := by
  induction l generalizing pmm with
  | nil => exact ⟨.refl pmm, by simp [pmmFreeAll]⟩
  | cons x l ih =>
    obtain ⟨hx, hnd⟩ := List.nodup_cons.mp hnd
    obtain ⟨hm, hu, h0⟩ := hl x (by simp)
    have hfirst := pmmFreePage_spec hok hm hu
    have hrest : Gave {a | a ∈ l} (pmmFreePage x pmm) (pmmFreeAll l (pmmFreePage x pmm)) := by
      refine ih (hok.gave hfirst fun h => h0 (Set.mem_singleton_iff.mp h).symm) (fun a ha => ?_) hnd
      obtain ⟨h1, h2, h3⟩ := hl a (List.mem_cons_of_mem x ha)
      refine ⟨by rw [hfirst.pool.managed]; exact h1, ?_, h3⟩
      rw [hfirst.free]
      rintro (h | h)
      · exact h2 h
      · exact hx (Set.mem_singleton_iff.mp h ▸ ha)
    refine ⟨hfirst.pool.trans hrest.pool, ?_⟩
    show freePages (pmmFreeAll l (pmmFreePage x pmm)) = _
    rw [hrest.free, hfirst.free]
    ext b
    simp only [Set.mem_union, Set.mem_singleton_iff, Set.mem_ofPred_eq, List.mem_cons]
    tauto

end Armonios
