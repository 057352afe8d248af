import Armonios.Mm.PmmPool

/-!
# The bitmap of the page allocator

`kernel/mm/pmm.c` on its words: `g_bitmap` with 64 pages a word, and the globals as 64-bit values.

* `pmmRun_refines`: after `pmm_init`, any calls return what they return on the set of free pages, and leave a bitmap
  and a counter that have them.

`Packs` relates the words to `Mm/Pmm.lean`, and `Mm/PmmPool.lean` relates that to the set.
-/

namespace Armonios

structure PmmWords where
  bitmap : Vector (BitVec 64) (pmmMaxPages / 64)
  memBase : BitVec 64
  totalPages : BitVec 64
  freePages : BitVec 64

namespace PmmWords

def bitsPerWord : Nat := 64

def alignDown (value : BitVec 64) : BitVec 64 := value &&& ~~~4095#64

def alignUp (value : BitVec 64) : BitVec 64 := (value + 4096#64 - 1#64) &&& ~~~4095#64

def addSaturated (a b : BitVec 64) : BitVec 64 :=
  if a > BitVec.allOnes 64 - b then BitVec.allOnes 64 else a + b

def alignUpSaturated (value : BitVec 64) : BitVec 64 :=
  if value &&& 4095#64 = 0#64 then value
  else if value > BitVec.allOnes 64 - 4095#64 then BitVec.allOnes 64
  else alignUp value

def managedEnd (w : PmmWords) : BitVec 64 := addSaturated w.memBase (w.totalPages * 4096#64)

/-- `1ULL << bit` of a page. -/
def mask (page : Nat) : BitVec 64 := 1#64 <<< (page % bitsPerWord)

/-- The word of a page. -/
def word (w : PmmWords) (page : Nat) : BitVec 64 := w.bitmap[page / bitsPerWord]?.getD 0#64

def setUsed (page : Nat) (w : PmmWords) : PmmWords :=
  if w.word page &&& mask page = 0#64 then
    { w with
      bitmap := w.bitmap.setIfInBounds (page / bitsPerWord) (w.word page ||| mask page)
      freePages := w.freePages - 1#64 }
  else w

def setFree (page : Nat) (w : PmmWords) : PmmWords :=
  if w.word page &&& mask page ≠ 0#64 then
    { w with
      bitmap := w.bitmap.setIfInBounds (page / bitsPerWord) (w.word page &&& ~~~mask page)
      freePages := w.freePages + 1#64 }
  else w

def pmmInit (memBase memSize : BitVec 64) : PmmWords :=
  let pages := memSize / 4096#64
  let totalPages := if pages > BitVec.ofNat 64 pmmMaxPages then BitVec.ofNat 64 pmmMaxPages else pages
  (List.range totalPages.toNat).foldl (fun w page => setFree page w)
    { bitmap := Vector.replicate _ (BitVec.allOnes 64), memBase, totalPages, freePages := 0#64 }

def pmmReserveRange (start size : BitVec 64) (w : PmmWords) : PmmWords :=
  if size = 0#64 ∨ w.totalPages = 0#64 then w
  else
    let stop := addSaturated start size
    let limit := w.managedEnd
    if stop ≤ w.memBase ∨ start ≥ limit then w
    else
      let pageStart := if start < w.memBase then 0#64 else (alignDown start - w.memBase) / 4096#64
      let pageEnd := if stop ≥ limit then w.totalPages
        else
          let pageEnd := (alignUpSaturated stop - w.memBase) / 4096#64
          if pageEnd > w.totalPages then w.totalPages else pageEnd
      (List.range' pageStart.toNat (pageEnd.toNat - pageStart.toNat)).foldl (fun w page => setUsed page w) w

/-- `g_mem_base + page * PAGE_SIZE`. -/
def pageAddr (w : PmmWords) (page : Nat) : BitVec 64 := w.memBase + BitVec.ofNat 64 page * 4096#64

def pmmAllocPage (w : PmmWords) : BitVec 64 × PmmWords :=
  match (List.range w.totalPages.toNat).find? fun page => w.word page &&& mask page = 0#64 with
  | some page => (w.pageAddr page, setUsed page w)
  | none => (0#64, w)

/-- The loop of `pmm_alloc_pages` from `page` on, with `left` pages to go. -/
def scanRun (w : PmmWords) (count : BitVec 64) : (left page runStart runCount : Nat) → Option Nat
  | 0, _, _, _ => none
  | left + 1, page, runStart, runCount =>
    if w.word page &&& mask page = 0#64 then
      let runStart := if runCount = 0 then page else runStart
      if runCount + 1 = count.toNat then some runStart
      else scanRun w count left (page + 1) runStart (runCount + 1)
    else scanRun w count left (page + 1) runStart 0

def pmmAllocPages (count : BitVec 64) (w : PmmWords) : BitVec 64 × PmmWords :=
  if count = 0#64 ∨ count > w.totalPages then (0#64, w)
  else
    match scanRun w count w.totalPages.toNat 0 0 0 with
    | some start =>
      (w.pageAddr start, (List.range' start count.toNat).foldl (fun w page => setUsed page w) w)
    | none => (0#64, w)

def pmmFreePage (paddr : BitVec 64) (w : PmmWords) : PmmWords :=
  if paddr < w.memBase ∨ paddr &&& 4095#64 ≠ 0#64 then w
  else
    let page := (paddr - w.memBase) / 4096#64
    if page ≥ w.totalPages then w else setFree page.toNat w

end PmmWords

def PmmCall.onWords (w : PmmWords) : PmmCall → Nat × PmmWords
  | reserveRange start size => (0, w.pmmReserveRange start size)
  | allocPage => ((w.pmmAllocPage).1.toNat, (w.pmmAllocPage).2)
  | allocPages count => ((w.pmmAllocPages count).1.toNat, (w.pmmAllocPages count).2)
  | freePage paddr => (0, w.pmmFreePage paddr)

/-! ## Bits -/

/-- The bit of a page. -/
def PmmWords.isUsed (w : PmmWords) (page : Nat) : Bool := (w.word page).getLsbD (page % PmmWords.bitsPerWord)

section Bits

variable {x y : BitVec 64} {page q : Nat}

theorem bit_lt (page : Nat) : page % PmmWords.bitsPerWord < 64 := Nat.mod_lt _ (by decide)

theorem getLsbD_mask (page : Nat) {i : Nat} (hi : i < 64) :
    (PmmWords.mask page).getLsbD i = decide (i = page % PmmWords.bitsPerWord) := by
  have hbit := bit_lt page
  unfold PmmWords.mask
  simp only [BitVec.getLsbD_shiftLeft, BitVec.getLsbD_one, hi, decide_true, Bool.true_and]
  grind

theorem and_mask_eq_zero (x : BitVec 64) (page : Nat) :
    x &&& PmmWords.mask page = 0#64 ↔ x.getLsbD (page % PmmWords.bitsPerWord) = false := by
  have hbit := bit_lt page
  constructor
  · intro h
    have hget := congrArg (fun y => y.getLsbD (page % PmmWords.bitsPerWord)) h
    simpa [getLsbD_mask page hbit] using hget
  · intro h
    refine BitVec.eq_of_getLsbD_eq fun i hi => ?_
    rw [BitVec.getLsbD_and, getLsbD_mask page hi, BitVec.getLsbD_zero]
    by_cases hip : i = page % PmmWords.bitsPerWord
    · rw [hip, h, Bool.false_and]
    · rw [decide_eq_false hip, Bool.and_false]

theorem test_iff (w : PmmWords) (page : Nat) :
    w.word page &&& PmmWords.mask page = 0#64 ↔ w.isUsed page = false := and_mask_eq_zero _ page

/-- Two pages with the same word and the same bit. -/
theorem page_eq (h : q / PmmWords.bitsPerWord = page / PmmWords.bitsPerWord)
    (h' : q % PmmWords.bitsPerWord = page % PmmWords.bitsPerWord) : q = page := by
  unfold PmmWords.bitsPerWord at *
  omega

/-- The bit of a page, after the word of another page has got a value. -/
theorem isUsed_word {w : PmmWords} {free : BitVec 64} {page q : Nat} (hp : page < pmmMaxPages) {value : BitVec 64}
    {b : Bool} (hsame : ∀ i < 64, i ≠ page % PmmWords.bitsPerWord → value.getLsbD i = (w.word page).getLsbD i)
    (hbit : value.getLsbD (page % PmmWords.bitsPerWord) = b) :
    PmmWords.isUsed ⟨w.bitmap.setIfInBounds (page / PmmWords.bitsPerWord) value, w.memBase, w.totalPages, free⟩ q =
      if q = page then b else w.isUsed q := by
  have hword : page / PmmWords.bitsPerWord < pmmMaxPages / 64 := by
    unfold PmmWords.bitsPerWord pmmMaxPages at *
    omega
  unfold PmmWords.isUsed PmmWords.word
  simp only [Vector.getElem?_setIfInBounds]
  by_cases hw : q / PmmWords.bitsPerWord = page / PmmWords.bitsPerWord
  · rw [hw, if_pos rfl, if_pos hword, Option.getD_some]
    by_cases hq : q % PmmWords.bitsPerWord = page % PmmWords.bitsPerWord
    · rw [if_pos (page_eq hw hq), hq, hbit]
    · have hne : q ≠ page := fun h => hq (h ▸ rfl)
      rw [if_neg hne, hsame _ (bit_lt q) hq]
      rfl
  · have hne : q ≠ page := fun h => hw (h ▸ rfl)
    rw [if_neg (Ne.symm hw), if_neg hne]

theorem isUsed_setUsed {w : PmmWords} (hp : page < pmmMaxPages) (q : Nat) :
    (PmmWords.setUsed page w).isUsed q = if q = page then true else w.isUsed q := by
  unfold PmmWords.setUsed
  by_cases hu : w.isUsed page = false
  · rw [if_pos ((test_iff w page).mpr hu)]
    refine isUsed_word hp (fun i hi hne => ?_) ?_
    · rw [BitVec.getLsbD_or, getLsbD_mask page hi, decide_eq_false hne, Bool.or_false]
    · rw [BitVec.getLsbD_or, getLsbD_mask page (bit_lt page), decide_eq_true rfl, Bool.or_true]
  · rw [if_neg (fun h => hu ((test_iff w page).mp h))]
    by_cases hq : q = page
    · rw [if_pos hq, hq]
      simpa using hu
    · rw [if_neg hq]

theorem isUsed_setFree {w : PmmWords} (hp : page < pmmMaxPages) (q : Nat) :
    (PmmWords.setFree page w).isUsed q = if q = page then false else w.isUsed q := by
  unfold PmmWords.setFree
  by_cases hu : w.isUsed page = false
  · rw [if_neg (not_not.mpr ((test_iff w page).mpr hu))]
    by_cases hq : q = page
    · rw [if_pos hq, hq, hu]
    · rw [if_neg hq]
  · rw [if_pos (fun h => hu ((test_iff w page).mp h))]
    refine isUsed_word hp (fun i hi hne => ?_) ?_
    · rw [BitVec.getLsbD_and, BitVec.getLsbD_not, getLsbD_mask page hi, decide_eq_false hne]
      simp [hi]
    · rw [BitVec.getLsbD_and, BitVec.getLsbD_not, getLsbD_mask page (bit_lt page), decide_eq_true rfl]
      simp

/-! The masks of the page size. -/

theorem and_low (x : BitVec 64) : (x &&& 4095#64).toNat = x.toNat % pageSize := by
  rw [BitVec.toNat_and]
  exact Nat.and_two_pow_sub_one_eq_mod x.toNat 12

theorem alignDown_toNat (x : BitVec 64) : (PmmWords.alignDown x).toNat = x.toNat / pageSize * pageSize := by
  have hlow : ∀ i < 64, (4095#64).getLsbD i = decide (i < 12) := by decide
  have hshift : PmmWords.alignDown x = x >>> 12 <<< 12 := by
    unfold PmmWords.alignDown
    refine BitVec.eq_of_getLsbD_eq fun i hi => ?_
    simp only [BitVec.getLsbD_and, BitVec.getLsbD_not, hlow i hi, BitVec.getLsbD_shiftLeft,
      BitVec.getLsbD_ushiftRight, hi, decide_true, Bool.true_and]
    by_cases h12 : i < 12
    · simp [h12]
    · have hsum : 12 + (i - 12) = i := by omega
      simp [h12, hsum]
  rw [hshift, BitVec.toNat_shiftLeft, BitVec.toNat_ushiftRight, Nat.shiftLeft_eq, Nat.shiftRight_eq_div_pow]
  have := x.isLt
  unfold pageSize
  omega

end Bits

/-! ## The words and the allocator -/

/-- The words are those of the allocator. -/
structure Packs (w : PmmWords) (pmm : Pmm) : Prop where
  memBase : pmm.memBase = w.memBase.toNat
  totalPages : pmm.totalPages = w.totalPages.toNat
  used : ∀ page < pmmMaxPages, w.isUsed page = pmm.used page
  freeCount : pmm.freeCount = w.freePages.toNat

section Packs

variable {w : PmmWords} {pmm : Pmm} {base total page : Nat} {free : Set Nat}

theorem setUsed_packs (hw : Packs w pmm) (h : PoolHolds base total pmm free) (hp : page < pmmMaxPages) :
    Packs (PmmWords.setUsed page w) (setUsed page pmm) := by
  have hused : ∀ q < pmmMaxPages, (PmmWords.setUsed page w).isUsed q = (setUsed page pmm).used q := by
    intro q hq
    rw [isUsed_setUsed hp, setUsed_used, hw.used q hq]
    by_cases hqp : q = page <;> simp [hqp]
  refine ⟨?_, ?_, hused, ?_⟩
  · rw [(setUsed_pool page pmm).memBase, hw.memBase]
    unfold PmmWords.setUsed
    split <;> rfl
  · rw [(setUsed_pool page pmm).totalPages, hw.totalPages]
    unfold PmmWords.setUsed
    split <;> rfl
  · unfold PmmWords.setUsed setUsed
    by_cases hu : pmm.used page = true
    · rw [if_pos hu, if_neg (by rw [test_iff, hw.used page hp, hu]; decide)]
      exact hw.freeCount
    · have hfree : pmm.used page = false := by simpa using hu
      have hmem := (h.used page).mp hfree
      have hpos : 0 < pmm.freeCount := by
        rw [h.count]
        exact (Set.ncard_pos h.finite).mpr ⟨page, hmem⟩
      rw [if_neg hu, if_pos ((test_iff w page).mpr ((hw.used page hp).trans hfree))]
      have hcount := hw.freeCount
      show pmm.freeCount - 1 = (w.freePages - 1#64).toNat
      bv_omega

theorem setFree_packs (hw : Packs w pmm) (h : PoolHolds base total pmm free) (htotal : total ≤ pmmMaxPages)
    (hp : page < total) : Packs (PmmWords.setFree page w) (setFree page pmm) := by
  have hmax : page < pmmMaxPages := Nat.lt_of_lt_of_le hp htotal
  have hused : ∀ q < pmmMaxPages, (PmmWords.setFree page w).isUsed q = (setFree page pmm).used q := by
    intro q hq
    rw [isUsed_setFree hmax, hw.used q hq]
    unfold setFree
    by_cases hu : pmm.used page = true
    · rw [if_pos hu]
      by_cases hqp : q = page
      · simp [hqp]
      · simp [hqp]
    · rw [if_neg hu]
      by_cases hqp : q = page
      · simpa [hqp] using hu
      · rw [if_neg hqp]
  have hfields : (setFree page pmm).memBase = pmm.memBase ∧ (setFree page pmm).totalPages = pmm.totalPages := by
    unfold setFree
    split <;> exact ⟨rfl, rfl⟩
  refine ⟨?_, ?_, hused, ?_⟩
  · rw [hfields.1, hw.memBase]
    unfold PmmWords.setFree
    split <;> rfl
  · rw [hfields.2, hw.totalPages]
    unfold PmmWords.setFree
    split <;> rfl
  · unfold PmmWords.setFree setFree
    by_cases hu : pmm.used page = true
    · rw [if_pos hu, if_pos (by rw [ne_eq, test_iff, hw.used page hmax, hu]; decide)]
      have hle := h.count_le
      have hcount := hw.freeCount
      show pmm.freeCount + 1 = (w.freePages + 1#64).toNat
      unfold pmmMaxPages at htotal
      bv_omega
    · have hfree : pmm.used page = false := by simpa using hu
      rw [if_neg hu, if_neg (not_not.mpr ((test_iff w page).mpr ((hw.used page hmax).trans hfree)))]
      exact hw.freeCount

theorem foldl_setUsed_packs (hw : Packs w pmm) (h : PoolHolds base total pmm free) {l : List Nat}
    (hl : ∀ page ∈ l, page < pmmMaxPages) :
    Packs (l.foldl (fun w page => PmmWords.setUsed page w) w) (l.foldl (fun pmm page => setUsed page pmm) pmm) := by
  induction l generalizing w pmm free with
  | nil => exact hw
  | cons page l ih =>
    rw [List.foldl_cons, List.foldl_cons]
    have hp := hl page (List.mem_cons_self ..)
    exact ih (setUsed_packs hw h hp) (h.setUsed page) fun q hq => hl q (List.mem_cons_of_mem _ hq)

/-! ## Ranges -/

theorem word_le (a : BitVec 64) : a.toNat ≤ uint64Max := Nat.le_pred_of_lt a.isLt

theorem allOnes_sub (a : BitVec 64) : (BitVec.allOnes 64 - a).toNat = uint64Max - a.toNat := by
  have hle : a ≤ BitVec.allOnes 64 := by
    rw [BitVec.le_def, BitVec.toNat_allOnes]
    exact word_le a
  rw [BitVec.toNat_sub_of_le hle, BitVec.toNat_allOnes, uint64Max]

theorem addSaturated_toNat (a b : BitVec 64) :
    (PmmWords.addSaturated a b).toNat = addSaturated a.toNat b.toNat := by
  have hgt : a > BitVec.allOnes 64 - b ↔ a.toNat > uint64Max - b.toNat := by
    rw [gt_iff_lt, BitVec.lt_def, allOnes_sub]
  unfold PmmWords.addSaturated addSaturated
  by_cases h : a.toNat > uint64Max - b.toNat
  · rw [if_pos (hgt.mpr h), if_pos h, BitVec.toNat_allOnes, uint64Max]
  · rw [if_neg (fun h' => h (hgt.mp h')), if_neg h]
    refine BitVec.toNat_add_of_lt ?_
    unfold uint64Max at h
    omega

theorem low_eq_zero (a : BitVec 64) : a &&& 4095#64 = 0#64 ↔ a.toNat % pageSize = 0 := by
  rw [← and_low, ← BitVec.toNat_inj, BitVec.toNat_zero]

theorem alignUpSaturated_toNat (a : BitVec 64) :
    (PmmWords.alignUpSaturated a).toNat = alignUpSaturated a.toNat := by
  have hgt : a > BitVec.allOnes 64 - 4095#64 ↔ a.toNat > uint64Max - (pageSize - 1) := by
    rw [gt_iff_lt, BitVec.lt_def, allOnes_sub, pageSize, BitVec.toNat_ofNat]
  have hup : PmmWords.alignUp a = PmmWords.alignDown (a + 4095#64) := by
    unfold PmmWords.alignUp PmmWords.alignDown
    rw [BitVec.sub_eq_add_neg, BitVec.add_assoc]
    rfl
  unfold PmmWords.alignUpSaturated alignUpSaturated
  by_cases hz : a.toNat % pageSize = 0
  · rw [if_pos ((low_eq_zero a).mpr hz), if_pos hz]
  rw [if_neg (fun h => hz ((low_eq_zero a).mp h)), if_neg hz]
  by_cases h : a.toNat > uint64Max - (pageSize - 1)
  · rw [if_pos (hgt.mpr h), if_pos h, BitVec.toNat_allOnes, uint64Max]
  · rw [if_neg (fun h' => h (hgt.mp h')), if_neg h, hup, alignDown_toNat, BitVec.toNat_add_of_lt]
    · rw [BitVec.toNat_ofNat]
      rfl
    · rw [BitVec.toNat_ofNat]
      unfold uint64Max pageSize at h
      omega

theorem managedEnd_toNat (hw : Packs w pmm) (htotal : pmm.totalPages ≤ pmmMaxPages) :
    w.managedEnd.toNat = managedEnd pmm := by
  have hmul : (w.totalPages * 4096#64).toNat = pmm.totalPages * pageSize := by
    rw [hw.totalPages, BitVec.toNat_mul_of_lt]
    · rw [BitVec.toNat_ofNat]
      rfl
    · rw [← hw.totalPages, BitVec.toNat_ofNat]
      unfold pmmMaxPages at htotal
      omega
  rw [PmmWords.managedEnd, managedEnd, addSaturated_toNat, hw.memBase, hmul]

theorem reserveRange_packs (hw : Packs w pmm) (h : PoolHolds base total pmm free) (htotal : total ≤ pmmMaxPages)
    (hr : Reported base total) (start size : BitVec 64) :
    Packs (w.pmmReserveRange start size) (pmmReserveRange start.toNat size.toNat pmm) := by
  have hend := managedEnd_toNat hw (h.totalPages ▸ htotal)
  have hsize : size = 0#64 ↔ size.toNat = 0 := by
    rw [← BitVec.toNat_inj, BitVec.toNat_zero]
  have hpages : w.totalPages = 0#64 ↔ pmm.totalPages = 0 := by
    rw [hw.totalPages, ← BitVec.toNat_inj, BitVec.toNat_zero]
  unfold PmmWords.pmmReserveRange pmmReserveRange
  by_cases hzero : size.toNat = 0 ∨ pmm.totalPages = 0
  · rw [if_pos (hzero.imp hsize.mpr hpages.mpr), if_pos hzero]
    exact hw
  rw [if_neg (fun h => hzero (h.imp hsize.mp hpages.mp)), if_neg hzero]
  simp only
  have hstop := addSaturated_toNat start size
  generalize PmmWords.addSaturated start size = stop at hstop ⊢
  rw [← hstop, ← hend]
  have hbelow : stop ≤ w.memBase ↔ stop.toNat ≤ pmm.memBase := by
    rw [hw.memBase, BitVec.le_def]
  have hbehind : start ≥ w.managedEnd ↔ w.managedEnd.toNat ≤ start.toNat := by
    rw [ge_iff_le, BitVec.le_def]
  by_cases hout : stop.toNat ≤ pmm.memBase ∨ w.managedEnd.toNat ≤ start.toNat
  · rw [if_pos (hout.imp hbelow.mpr hbehind.mpr), if_pos hout]
    exact hw
  rw [if_neg (fun h => hout (h.imp hbelow.mp hbehind.mp)), if_neg hout]
  -- the same pages
  have hfirst : (if start < w.memBase then 0#64 else (PmmWords.alignDown start - w.memBase) / 4096#64).toNat =
      if start.toNat < pmm.memBase then 0 else (start.toNat / pageSize * pageSize - pmm.memBase) / pageSize := by
    rw [hw.memBase]
    by_cases hs : start.toNat < w.memBase.toNat
    · rw [if_pos (BitVec.lt_def.mpr hs), if_pos hs, BitVec.toNat_zero]
    · have hle : w.memBase ≤ PmmWords.alignDown start := by
        have hbase := hr.aligned
        rw [BitVec.le_def, alignDown_toNat, ← hw.memBase, h.memBase]
        rw [← hw.memBase, h.memBase] at hs
        unfold pageSize at *
        omega
      rw [if_neg (fun h => hs (BitVec.lt_def.mp h)), if_neg hs, BitVec.toNat_udiv, BitVec.toNat_sub_of_le hle,
        alignDown_toNat, BitVec.toNat_ofNat]
      rfl
  have hlast : (if stop ≥ w.managedEnd then w.totalPages
        else if (PmmWords.alignUpSaturated stop - w.memBase) / 4096#64 > w.totalPages then w.totalPages
          else (PmmWords.alignUpSaturated stop - w.memBase) / 4096#64).toNat =
      if w.managedEnd.toNat ≤ stop.toNat then pmm.totalPages
        else min ((alignUpSaturated stop.toNat - pmm.memBase) / pageSize) pmm.totalPages := by
    rw [hw.memBase, hw.totalPages]
    by_cases hs : w.managedEnd.toNat ≤ stop.toNat
    · rw [if_pos (BitVec.le_def.mpr hs), if_pos hs]
    · have hle : w.memBase ≤ PmmWords.alignUpSaturated stop := by
        rw [BitVec.le_def, alignUpSaturated_toNat, ← hw.memBase]
        have hword := word_le stop
        unfold alignUpSaturated
        unfold pageSize at *
        split
        · omega
        · split <;> omega
      have hdiv : ((PmmWords.alignUpSaturated stop - w.memBase) / 4096#64).toNat =
          (alignUpSaturated stop.toNat - w.memBase.toNat) / pageSize := by
        rw [BitVec.toNat_udiv, BitVec.toNat_sub_of_le hle, alignUpSaturated_toNat, BitVec.toNat_ofNat]
        rfl
      rw [if_neg (fun h => hs (BitVec.le_def.mp h)), if_neg hs, ← hdiv]
      by_cases hbig : (PmmWords.alignUpSaturated stop - w.memBase) / 4096#64 > w.totalPages
      · rw [if_pos hbig, Nat.min_eq_right (Nat.le_of_lt (BitVec.lt_def.mp hbig))]
      · rw [if_neg hbig, Nat.min_eq_left (BitVec.le_def.mp (BitVec.not_lt.mp hbig))]
  rw [hfirst, hlast]
  refine foldl_setUsed_packs hw h fun page hp => ?_
  have hle : (if w.managedEnd.toNat ≤ stop.toNat then pmm.totalPages
      else min ((alignUpSaturated stop.toNat - pmm.memBase) / pageSize) pmm.totalPages) ≤ pmm.totalPages := by
    split
    · exact Nat.le_refl _
    · exact Nat.min_le_right _ _
  have ht := h.totalPages
  rw [List.mem_range'_1] at hp
  omega

/-! ## Allocations and frees -/

theorem pageAddr_packs (hw : Packs w pmm) (h : PoolHolds base total pmm free) (hr : Reported base total)
    (hp : page < total) :
    (w.pageAddr page).toNat = pageAddr pmm page := by
  have hbound := hr.bound
  unfold uint64Max pageSize at hbound
  unfold PmmWords.pageAddr pageAddr
  have hb := hw.memBase
  rw [h.memBase] at hb
  have hmul : (BitVec.ofNat 64 page * 4096#64).toNat = page * pageSize := by
    rw [BitVec.toNat_mul_of_lt]
    · rw [BitVec.toNat_ofNat, BitVec.toNat_ofNat, Nat.mod_eq_of_lt (by omega)]
      rfl
    · rw [BitVec.toNat_ofNat, BitVec.toNat_ofNat, Nat.mod_eq_of_lt (by omega)]
      omega
  rw [BitVec.toNat_add_of_lt, hmul, hw.memBase]
  rw [hmul, ← hb]
  unfold pageSize
  omega

theorem test_eq (hw : Packs w pmm) (hp : page < pmmMaxPages) :
    w.word page &&& PmmWords.mask page = 0#64 ↔ pmm.used page = false := by
  rw [test_iff, hw.used page hp]

theorem allocPage_packs (hw : Packs w pmm) (h : PoolHolds base total pmm free) (htotal : total ≤ pmmMaxPages)
    (hr : Reported base total) :
    (w.pmmAllocPage).1.toNat = (pmmAllocPage pmm).1 ∧ Packs (w.pmmAllocPage).2 (pmmAllocPage pmm).2 := by
  have hfind : ((List.range w.totalPages.toNat).find? fun page => w.word page &&& PmmWords.mask page = 0#64) =
      findFree pmm := by
    unfold findFree
    rw [hw.totalPages]
    refine List.find?_congr fun page hp => ?_
    rw [List.mem_range, ← hw.totalPages, h.totalPages] at hp
    have htest := test_eq hw (Nat.lt_of_lt_of_le hp htotal)
    cases hu : pmm.used page <;> simp [htest, hu]
  unfold PmmWords.pmmAllocPage pmmAllocPage
  rw [hfind]
  cases hpage : findFree pmm with
  | none => exact ⟨rfl, hw⟩
  | some page =>
    have hp : page < total := by
      have hmem := List.mem_of_find?_eq_some hpage
      rwa [List.mem_range, h.totalPages] at hmem
    exact ⟨pageAddr_packs hw h hr hp, setUsed_packs hw h (Nat.lt_of_lt_of_le hp htotal)⟩

theorem scanRun_packs (hw : Packs w pmm) (count : BitVec 64) {left page runStart runCount : Nat}
    (hpage : page + left ≤ pmmMaxPages) :
    PmmWords.scanRun w count left page runStart runCount = scanRun pmm count.toNat left page runStart runCount := by
  induction left generalizing page runStart runCount with
  | zero => rfl
  | succ left ih =>
    have htest := test_eq hw (show page < pmmMaxPages by omega)
    unfold PmmWords.scanRun scanRun
    by_cases hu : pmm.used page = true
    · rw [if_neg (fun h => by rw [htest.mp h] at hu; cases hu), if_pos hu, ih (by omega)]
    · rw [if_pos (htest.mpr (by simpa using hu)), if_neg hu]
      simp only [ih (show page + 1 + left ≤ pmmMaxPages by omega)]

theorem allocPages_packs (hw : Packs w pmm) (h : PoolHolds base total pmm free) (htotal : total ≤ pmmMaxPages)
    (hr : Reported base total)
    (count : BitVec 64) : (w.pmmAllocPages count).1.toNat = (pmmAllocPages count.toNat pmm).1 ∧
      Packs (w.pmmAllocPages count).2 (pmmAllocPages count.toNat pmm).2 := by
  have ht := h.totalPages
  have hzero : count = 0#64 ↔ count.toNat = 0 := by
    rw [← BitVec.toNat_inj, BitVec.toNat_zero]
  have hmany : count > w.totalPages ↔ pmm.totalPages < count.toNat := by
    rw [gt_iff_lt, BitVec.lt_def, hw.totalPages]
  unfold PmmWords.pmmAllocPages pmmAllocPages
  by_cases hn : count.toNat = 0 ∨ pmm.totalPages < count.toNat
  · rw [if_pos (hn.imp hzero.mpr hmany.mpr), if_pos hn]
    exact ⟨rfl, hw⟩
  rw [if_neg (fun h => hn (h.imp hzero.mp hmany.mp)), if_neg hn,
    scanRun_packs hw count (by rw [← hw.totalPages]; omega),
    ← hw.totalPages]
  cases hscan : scanRun pmm count.toNat pmm.totalPages 0 0 0 with
  | none => exact ⟨rfl, hw⟩
  | some start =>
    obtain ⟨hend, -⟩ := scanRun_spec (by omega) (by simp) (by simp) hscan
    simp only [not_or] at hn
    refine ⟨pageAddr_packs hw h hr (by omega), foldl_setUsed_packs hw h fun page hp => ?_⟩
    rw [List.mem_range'_1] at hp
    omega

theorem freePage_packs (hw : Packs w pmm) (h : PoolHolds base total pmm free) (htotal : total ≤ pmmMaxPages)
    (paddr : BitVec 64) :
    Packs (w.pmmFreePage paddr) (pmmFreePage paddr.toNat pmm) := by
  have ht := h.totalPages
  have hghost : Packs w { pmm with misfreed := true } := ⟨hw.memBase, hw.totalPages, hw.used, hw.freeCount⟩
  have hbelow : paddr < w.memBase ↔ paddr.toNat < pmm.memBase := by
    rw [BitVec.lt_def, hw.memBase]
  unfold PmmWords.pmmFreePage pmmFreePage
  by_cases hout : paddr.toNat < pmm.memBase ∨ paddr.toNat % pageSize ≠ 0
  · rw [if_pos (hout.imp hbelow.mpr (fun h h' => h ((low_eq_zero paddr).mp h'))), if_pos hout]
    exact hghost
  rw [if_neg (fun h => hout (h.imp hbelow.mp (fun h h' => h ((low_eq_zero paddr).mpr h')))), if_neg hout]
  have hle : w.memBase ≤ paddr := by
    rw [BitVec.le_def, ← hw.memBase]
    omega
  have hpage : ((paddr - w.memBase) / 4096#64).toNat = (paddr.toNat - pmm.memBase) / pageSize := by
    rw [BitVec.toNat_udiv, BitVec.toNat_sub_of_le hle, BitVec.toNat_ofNat, hw.memBase]
    rfl
  have hbehind : (paddr - w.memBase) / 4096#64 ≥ w.totalPages ↔
      pmm.totalPages ≤ (paddr.toNat - pmm.memBase) / pageSize := by
    rw [ge_iff_le, BitVec.le_def, hpage, hw.totalPages]
  simp only
  by_cases hin : pmm.totalPages ≤ (paddr.toNat - pmm.memBase) / pageSize
  · rw [if_pos (hbehind.mpr hin), if_pos hin]
    exact hghost
  · rw [if_neg (fun h => hin (hbehind.mp h)), if_neg hin, hpage]
    exact setFree_packs hw h htotal (by omega)

end Packs

/-! ## Runs -/

theorem pages_toNat (memSize : BitVec 64) :
    (if memSize / 4096#64 > BitVec.ofNat 64 pmmMaxPages then BitVec.ofNat 64 pmmMaxPages else memSize / 4096#64).toNat =
      min (memSize.toNat / pageSize) pmmMaxPages := by
  have hdiv : (memSize / 4096#64).toNat = memSize.toNat / pageSize := by
    rw [BitVec.toNat_udiv, BitVec.toNat_ofNat]
    rfl
  have hmax : (BitVec.ofNat 64 pmmMaxPages).toNat = pmmMaxPages := by
    rw [BitVec.toNat_ofNat]
    rfl
  split
  · rename_i hbig
    rw [gt_iff_lt, BitVec.lt_def, hdiv, hmax] at hbig
    rw [hmax, Nat.min_eq_right (Nat.le_of_lt hbig)]
  · rename_i hsmall
    rw [gt_iff_lt, BitVec.lt_def, hdiv, hmax] at hsmall
    rw [hdiv, Nat.min_eq_left (Nat.not_lt.mp hsmall)]

/-- `pmm_init` fills the bitmap, and frees each page. -/
theorem pmmInit_packs (memBase memSize : BitVec 64) :
    Packs (PmmWords.pmmInit memBase memSize) (pmmInit memBase.toNat memSize.toNat) ∧
      PoolHolds memBase.toNat (min (memSize.toNat / pageSize) pmmMaxPages) (pmmInit memBase.toNat memSize.toNat)
        {page | page < min (memSize.toNat / pageSize) pmmMaxPages} := by
  have htotal := pages_toNat memSize
  have hmax := Nat.min_le_right (memSize.toNat / pageSize) pmmMaxPages
  unfold PmmWords.pmmInit pmmInit
  simp only
  generalize (if memSize / 4096#64 > BitVec.ofNat 64 pmmMaxPages then BitVec.ofNat 64 pmmMaxPages
    else memSize / 4096#64) = totalPages at htotal ⊢
  generalize min (memSize.toNat / pageSize) pmmMaxPages = total at htotal hmax ⊢
  rw [htotal]
  have hpages : ∀ n, n ≤ total → Packs ((List.range n).foldl (fun w page => PmmWords.setFree page w)
      ⟨Vector.replicate _ (BitVec.allOnes 64), memBase, totalPages, 0#64⟩) (initPages memBase.toNat total n) := by
    intro n hn
    induction n with
    | zero =>
      refine ⟨rfl, htotal.symm, fun page hp => ?_, rfl⟩
      have hword : page / PmmWords.bitsPerWord < pmmMaxPages / 64 := by
        unfold PmmWords.bitsPerWord pmmMaxPages at *
        omega
      have hones : PmmWords.word ⟨Vector.replicate _ (BitVec.allOnes 64), memBase, totalPages, 0#64⟩ page =
          BitVec.allOnes 64 := by
        unfold PmmWords.word
        rw [Vector.getElem?_replicate, if_pos hword, Option.getD_some]
      rw [PmmWords.isUsed, List.range_zero, List.foldl_nil, hones, BitVec.getLsbD_allOnes, decide_eq_true (bit_lt page)]
      rfl
    | succ n ih =>
      rw [initPages_succ, List.range_succ, List.foldl_append, List.foldl_cons, List.foldl_nil]
      exact setFree_packs (ih (by omega)) (initPages_holds (by omega)) hmax hn
  exact ⟨hpages total (Nat.le_refl _), initPages_holds (Nat.le_refl _)⟩

/-- The bitmap and the counter have these free pages. -/
structure WordsHold (base total : Nat) (w : PmmWords) (free : Set Nat) : Prop where
  memBase : w.memBase.toNat = base
  totalPages : w.totalPages.toNat = total
  clear : ∀ page < total, w.isUsed page = false ↔ page ∈ free
  above : ∀ page, total ≤ page → page < pmmMaxPages → w.isUsed page = true
  freeCount : w.freePages.toNat = ((Finset.range total).filter fun page => w.isUsed page = false).card

theorem Packs.hold {w : PmmWords} {pmm : Pmm} {base total : Nat} {free : Set Nat} (hw : Packs w pmm)
    (h : PoolHolds base total pmm free) (htotal : total ≤ pmmMaxPages) : WordsHold base total w free := by
  have hclear : ∀ page < total, w.isUsed page = false ↔ page ∈ free := by
    intro page hp
    rw [hw.used page (Nat.lt_of_lt_of_le hp htotal), h.used]
  refine ⟨hw.memBase.symm.trans h.memBase, hw.totalPages.symm.trans h.totalPages, hclear, fun page hp hmax => ?_, ?_⟩
  · rw [hw.used page hmax]
    by_contra hu
    have := h.below page ((h.used page).mp (by simpa using hu))
    omega
  · rw [← hw.freeCount, h.count, ← Set.ncard_coe_finset]
    congr 1
    ext page
    simp only [Finset.coe_filter, Finset.mem_range, Set.mem_ofPred_eq]
    constructor
    · intro hp
      exact ⟨h.below page hp, (hclear page (h.below page hp)).mpr hp⟩
    · rintro ⟨hlt, hp⟩
      exact (hclear page hlt).mp hp

/-- The address of an allocation is 0 if there are no pages in a row. -/
theorem allocRun_zero {base count : Nat} {free : Set Nat} (hne : base ≠ 0) :
    (allocRun base count free).1 = 0 ↔ count = 0 ∨ ∀ first, ¬ FreeRun free count first := by
  unfold allocRun
  split
  · rename_i h
    constructor
    · intro hzero
      exact absurd (Nat.add_eq_zero_iff.mp hzero).1 hne
    · intro hno
      obtain ⟨first, hrun⟩ := h.2
      exact absurd hrun (hno.resolve_left h.1 first)
  · rename_i h
    simp only [true_iff]
    by_contra hno
    simp only [not_or, not_forall, not_not] at hno
    exact h hno

/-- The calls return on the words what they return on the set of free pages, and the words have that set. An
allocation then returns 0 exactly if there are no pages in a row. -/
theorem pmmRun_refines (memBase memSize : BitVec 64) (hbase : memBase.toNat % pageSize = 0) (hne : memBase.toNat ≠ 0)
    (hsize : memBase.toNat + memSize.toNat < 2 ^ 64) (calls : List PmmCall) :
    (outputs PmmCall.onWords (PmmWords.pmmInit memBase memSize) calls).1 =
      (outputs (PmmCall.onFree memBase.toNat (min (memSize.toNat / pageSize) pmmMaxPages))
        {page | page < min (memSize.toNat / pageSize) pmmMaxPages} calls).1 ∧
    WordsHold memBase.toNat (min (memSize.toNat / pageSize) pmmMaxPages)
      (outputs PmmCall.onWords (PmmWords.pmmInit memBase memSize) calls).2
      (outputs (PmmCall.onFree memBase.toNat (min (memSize.toNat / pageSize) pmmMaxPages))
        {page | page < min (memSize.toNat / pageSize) pmmMaxPages} calls).2 ∧
    ∀ count : BitVec 64, ((PmmCall.allocPages count).onWords
        (outputs PmmCall.onWords (PmmWords.pmmInit memBase memSize) calls).2).1 = 0 ↔ count.toNat = 0 ∨
      ∀ first, ¬ FreeRun (outputs (PmmCall.onFree memBase.toNat (min (memSize.toNat / pageSize) pmmMaxPages))
        {page | page < min (memSize.toNat / pageSize) pmmMaxPages} calls).2 count.toNat first := by
  have hmax := Nat.min_le_right (memSize.toNat / pageSize) pmmMaxPages
  have hreported : Reported memBase.toNat (min (memSize.toNat / pageSize) pmmMaxPages) := by
    refine ⟨hbase, ?_⟩
    have := Nat.min_le_left (memSize.toNat / pageSize) pmmMaxPages
    unfold uint64Max pageSize at *
    omega
  obtain ⟨hwords, hpool⟩ := pmmInit_packs memBase memSize
  obtain ⟨hout, pmm, hw, h⟩ := outputs_refine
    (fun w free => ∃ pmm, Packs w pmm ∧ PoolHolds memBase.toNat (min (memSize.toNat / pageSize) pmmMaxPages) pmm free)
    (fun w free c hR => by
      obtain ⟨pmm, hw, h⟩ := hR
      obtain ⟨hpmm, hholds⟩ := c.onPmm_holds h hreported
      have hcall : (c.onWords w).1 = (c.onPmm pmm).1 ∧ Packs (c.onWords w).2 (c.onPmm pmm).2 := by
        cases c with
        | reserveRange start size => exact ⟨rfl, reserveRange_packs hw h hmax hreported start size⟩
        | allocPage => exact allocPage_packs hw h hmax hreported
        | allocPages count => exact allocPages_packs hw h hmax hreported count
        | freePage paddr => exact ⟨rfl, freePage_packs hw h hmax paddr⟩
      exact ⟨hcall.1.trans hpmm, _, hcall.2, hholds⟩)
    ⟨_, hwords, hpool⟩ calls
  refine ⟨hout, hw.hold h hmax, fun count => ?_⟩
  have hcall := (allocPages_packs hw h hmax hreported count).1.trans (h.allocPages count.toNat).1
  rw [PmmCall.onWords, hcall]
  exact allocRun_zero hne

theorem pmmRun_ram : (outputs PmmCall.onWords (PmmWords.pmmInit 0x40000000#64 0x8000000#64) [.allocPages 2#64]).1 =
    (outputs (PmmCall.onFree (0x40000000#64).toNat (min ((0x8000000#64).toNat / pageSize) pmmMaxPages))
      {page | page < min ((0x8000000#64).toNat / pageSize) pmmMaxPages} [.allocPages 2#64]).1 :=
  (pmmRun_refines 0x40000000#64 0x8000000#64 (by decide) (by decide) (by decide) [.allocPages 2#64]).1

end Armonios
