import Mathlib.Data.Set.Basic
import Armonios.Lib.Loop
import Armonios.Mm.KheapArenas

/-!
# The calls of the kernel heap

What `kheap_init`, `kmalloc` and `kfree` do to a heap between two calls (`KheapInv`): the blocks that were given out
(`given`), the pages of the heap (`heapPages`) and the bytes of the others' blocks.
-/

namespace Armonios

/-- The blocks that were given out. -/
def given (cs : List Cell) : List Cell := cs.filter fun c => c.owner.isSome

def heapPages (arenas : Arenas) : Set Nat := 
  {a | ∃ A ∈ arenas.map Prod.fst, a ∈ pagesOf A.start (A.pages * pageSize)}

/-- A heap between two calls. -/
structure KheapInv (h : Kheap) (arenas : Arenas) : Prop where
  hasBlocks : HasBlocks h (cells arenas)
  ok : HeapOk arenas
  ids : ∀ x ∈ arenas, x.1.id < h.nextArenaId
  total : h.totalBytes = (arenas.map fun x => x.1.pages * pageSize - 48).sum
  pmm : PmmOk h.pmm
  managed : heapPages arenas ⊆ managed h.pmm
  used : ∀ a ∈ heapPages arenas, a ∉ freePages h.pmm

def SameGlobals (h h' : Kheap) : Prop :=
  h'.totalBytes = h.totalBytes ∧ h'.nextArenaId = h.nextArenaId ∧ h'.pmm = h.pmm

variable {h h' h'' : Kheap} {A : Arena} {l m r pre post cs : List Cell} {c d n : Cell}
    {arenas arenas' front back : Arenas}
  {size aligned fuel : Nat}

theorem SameGlobals.trans (h₁ : SameGlobals h h') (h₂ : SameGlobals h' h'') : SameGlobals h h'' :=
  ⟨h₂.1.trans h₁.1, h₂.2.1.trans h₁.2.1, h₂.2.2.trans h₁.2.2⟩

theorem splitBlock_globals (block size : Nat) (h : Kheap) : SameGlobals h (splitBlock block size h) := by
  unfold splitBlock
  split
  · exact ⟨rfl, rfl, rfl⟩
  · dsimp only
    split <;> exact ⟨rfl, rfl, rfl⟩

theorem coalesceNext_globals (block : Nat) (h : Kheap) : SameGlobals h (coalesceNext block h) := by
  unfold coalesceNext
  dsimp only
  split
  · split <;> exact ⟨rfl, rfl, rfl⟩
  · exact ⟨rfl, rfl, rfl⟩

@[simp] theorem given_nil : given [] = [] := rfl

@[simp] theorem given_append : given (l ++ r) = given l ++ given r := List.filter_append ..

theorem mem_given : c ∈ given cs ↔ c ∈ cs ∧ c.owner ≠ none := by
  simp [given, Option.isSome_iff_ne_none]

@[simp] theorem given_cons_free (hc : c.owner = none) : given (c :: r) = given r := by
  simp [given, hc]

/-- Other blocks for an arena, where nothing else changes. -/
theorem KheapInv.replace (hinv : KheapInv h (front ++ (A, l) :: back)) (hm : Tiled A m)
    (hchain : m.IsChain Cell.NotBothFree) (hr : HasBlocks h' (cells front ++ m ++ cells back))
      (hsame : SameGlobals h h') :
    KheapInv h' (front ++ (A, m) :: back) := by
  obtain ⟨htotal, hnext, hpmm⟩ := hsame
  have hpages : heapPages (front ++ (A, m) :: back) = heapPages (front ++ (A, l) :: back) := by
    simp [heapPages]
  constructor
  case hasBlocks => rwa [cells_split]
  case ok => exact hinv.ok.replace hm hchain
  case ids =>
    rw [hnext]
    exact forall_arenas_replace hinv.ids (hinv.ids (A, l) (by simp))
  case total =>
    rw [htotal, hinv.total]
    simp
  case pmm =>
    rw [hpmm]
    exact hinv.pmm
  case managed =>
    rw [hpages, hpmm]
    exact hinv.managed
  case used =>
    rw [hpages, hpmm]
    exact hinv.used

/-! ## Freeing -/

@[simp] theorem given_mergeNext (hc : c.owner = none) : given (mergeNext c r) = given r := by
  cases r with
  | nil => exact given_cons_free hc
  | cons n r =>
    simp only [mergeNext]
    split
    · rename_i hn
      rw [given_cons_free hn]
      exact given_cons_free hc
    · exact given_cons_free hc

/-- `coalesce_next` in an arena. -/
theorem coalesceNext_arena (hr : HasBlocks h (cells (front ++ (A, l ++ c :: r) :: back)))
    (hok : HeapTiled (front ++ (A, l ++ c :: r) :: back)) :
    HasBlocks (coalesceNext c.addr h) (cells (front ++ (A, l ++ mergeNext c r) :: back)) ∧
      KeptPayloads h (coalesceNext c.addr h) (given (cells front ++ (l ++ r) ++ cells back)) := by
  have htiled : Tiled A (l ++ c :: r) := hok.tiled (A, l ++ c :: r) (by simp)
  have harena := htiled.arena c (by simp)
  have hcells := hok.cellsOk
  rw [cells_split] at hr hcells ⊢
  cases r with
  | nil =>
    have hr' : HasBlocks h ((cells front ++ l) ++ c :: cells back) := by simpa using hr
    rw [coalesceNext_none hr' fun e he => .inr (.inl fun hsame => ?_)]
    · exact ⟨hr, KeptPayloads.refl _ _⟩
    · exact hok.other_arena (.inr (List.mem_of_mem_head? he)) (hsame.symm.trans harena)
  | cons n r =>
    have hadj : n.addr = c.stop := htiled.tiles.next
    have hr' : HasBlocks h ((cells front ++ l) ++ c :: n :: (r ++ cells back)) := by simpa using hr
    have hcells' : CellsOk ((cells front ++ l) ++ c :: n :: (r ++ cells back)) := by simpa using hcells
    by_cases hn : n.owner = none
    · have hsame := harena.trans (htiled.arena n (by simp)).symm
      obtain ⟨hrep, hkept⟩ := coalesceNext_hasBlocks hr' hcells' hn hsame hadj
      refine ⟨by simpa [mergeNext, hn] using hrep, hkept.subset fun d hd => ?_⟩
      have hne : d ≠ n := by
        rintro rfl
        exact (mem_given.mp hd).2 hn
      have hmem := (mem_given.mp hd).1
      simp only [List.mem_append, List.mem_cons, hne, false_or] at hmem ⊢
      tauto
    · rw [coalesceNext_none hr' fun e he => ?_]
      · exact ⟨by simpa [mergeNext, hn] using hr, KeptPayloads.refl _ _⟩
      · obtain rfl : n = e := Option.some.inj he
        exact .inl hn

/-- `kfree` up to the first `coalesce_next`. -/
theorem kfree_forward (hinv : KheapInv h (front ++ (A, l ++ c :: r) :: back)) :
    HasBlocks (coalesceNext c.addr (h.setFree c.addr 1)) (cells (front ++ (A, l ++ mergeNext c.freed r) :: back)) ∧
      HeapTiled (front ++ (A, l ++ mergeNext c.freed r) :: back) ∧
      KeptPayloads h (coalesceNext c.addr (h.setFree c.addr 1)) (given (cells front ++ (l ++ r) ++ cells back)) := by
  have htiled : Tiled A (l ++ c :: r) := hinv.ok.tiled (A, l ++ c :: r) (by simp)
  have hrep : HasBlocks h ((cells front ++ l) ++ c :: (r ++ cells back)) := by simpa [cells] using hinv.hasBlocks
  have hcells : CellsOk ((cells front ++ l) ++ c :: (r ++ cells back)) := by simpa [cells] using hinv.ok.cellsOk
  obtain ⟨hrep1, hkept1⟩ := setFree_hasBlocks hrep hcells none
  have hok1 := hinv.ok.toHeapTiled.replace htiled.freed
  have hrep1' : HasBlocks (h.setFree c.addr 1) (cells (front ++ (A, l ++ c.freed :: r) :: back)) := by
    simpa [cells, Cell.freed] using hrep1
  have hkept1' : KeptPayloads h (h.setFree c.addr 1) (given (cells front ++ (l ++ r) ++ cells back)) := by
    refine hkept1.subset fun d hd => ?_
    have hmem := (mem_given.mp hd).1
    simp only [List.mem_append, List.mem_cons] at hmem ⊢
    tauto
  obtain ⟨hrep2, hkept2⟩ := coalesceNext_arena hrep1' hok1
  exact ⟨hrep2, hok1.replace (mergeNext_tiled htiled.freed rfl), hkept1'.trans hkept2⟩

/-- `kfree` from the second `coalesce_next` on. -/
theorem kfree_run {prev : Nat} (hfree : blockFree h.mem c.addr = 0)
    (hprev : blockPrev (coalesceNext c.addr (h.setFree c.addr 1)).mem c.addr = prev) :
    kfree (c.addr + 48) h =
      if prev ≠ 0 ∧ blockFree (coalesceNext c.addr (h.setFree c.addr 1)).mem prev ≠ 0 then
        coalesceNext prev (coalesceNext c.addr (h.setFree c.addr 1))
      else coalesceNext c.addr (h.setFree c.addr 1) := by
  unfold kfree
  rw [if_neg (by omega)]
  simp only [headerSize_eq, Nat.add_sub_cancel]
  rw [if_neg (not_not.mpr hfree), ← hprev]

/-- The last block of an earlier arena does not take the first block of the next one. -/
theorem coalesceNext_border (hr : HasBlocks h (cells (front ++ (A, m) :: back)))
    (hok : HeapTiled (front ++ (A, m) :: back)) (hm : m ≠ []) {before : List Cell} {e : Cell}
    (hfront : cells front = before ++ [e]) : coalesceNext e.addr h = h := by
  obtain ⟨c, r, rfl⟩ := List.exists_cons_of_ne_nil hm
  have hr' : HasBlocks h (before ++ e :: c :: (r ++ cells back)) := by
    rw [cells_split, hfront] at hr
    simpa using hr
  refine coalesceNext_none hr' fun n hn => ?_
  obtain rfl : c = n := Option.some.inj hn
  have htiled : Tiled A (c :: r) := hok.tiled (A, c :: r) (by simp)
  rw [htiled.arena c List.mem_cons_self]
  exact .inr (.inl (hok.other_arena (.inl (by simp [hfront]))))

/-- `kfree` of a block that was given out. -/
theorem kfree_arena (hinv : KheapInv h (front ++ (A, l ++ c :: r) :: back)) (hc : c.owner ≠ none) :
    ∃ m, KheapInv (kfree (c.addr + 48) h) (front ++ (A, m) :: back) ∧ given m = given (l ++ r) ∧
      KeptPayloads h (kfree (c.addr + 48) h) (given (cells front ++ (l ++ r) ++ cells back)) ∧
      SameGlobals h (kfree (c.addr + 48) h) := by
  obtain ⟨hl, hr, -⟩ := List.isChain_append.mp (hinv.ok.chain (A, l ++ c :: r) (by simp))
  have hchain := mergeNext_chain (c := c.freed) hr.tail
  have hfree : blockFree h.mem c.addr = 0 := by
    rw [hinv.hasBlocks.free c (by simp [cells]), if_neg hc]
  obtain ⟨hrep, hok, hkept⟩ := kfree_forward hinv
  have hglobals : SameGlobals h (coalesceNext c.addr (h.setFree c.addr 1)) :=
    coalesceNext_globals c.addr (h.setFree c.addr 1)
  obtain ⟨m, r', hmerge, haddr, -⟩ := mergeNext_head c.freed r
  have hprev : blockPrev (coalesceNext c.addr (h.setFree c.addr 1)).mem c.addr =
      lastNode 0 ((cells front ++ l).map Cell.addr) := by
    have hmid : HasBlocks (coalesceNext c.addr (h.setFree c.addr 1))
      ((cells front ++ l) ++ m :: (r' ++ cells back)) := by
      simpa [cells, hmerge] using hrep
    rw [← hmid.prev, haddr, Cell.freed_addr]
  have hrun := kfree_run hfree hprev
  rcases List.eq_nil_or_concat l with rfl | ⟨l, d, rfl⟩
  · -- the block before it is in another arena
    have hsame : kfree (c.addr + 48) h = coalesceNext c.addr (h.setFree c.addr 1) := by
      rw [hrun, List.append_nil]
      rcases List.eq_nil_or_concat (cells front) with hnil | ⟨before, e, hfront⟩
      · rw [hnil]
        exact if_neg fun hprev => hprev.1 rfl
      · rw [List.concat_eq_append] at hfront
        rw [hfront, List.map_append, List.map_singleton, lastNode_append_singleton,
          coalesceNext_border hrep hok (by simp [hmerge]) hfront, ite_self]
    rw [hsame]
    rw [cells_split] at hrep
    exact ⟨mergeNext c.freed r, hinv.replace (hok.tiled (A, [] ++ mergeNext c.freed r) (by simp)) hchain hrep hglobals,
      by simp, hkept, hglobals⟩
  rw [List.concat_eq_append] at *
  obtain ⟨hl, -, hlast⟩ := List.isChain_append.mp hl
  have hd : d ∈ cells (front ++ (A, (l ++ [d]) ++ mergeNext c.freed r) :: back) := by simp [cells]
  have hd0 : d.addr ≠ 0 := hok.cellsOk.nonzero d hd
  have hdfree := hrep.free d hd
  rw [← List.append_assoc, List.map_append, List.map_singleton, lastNode_append_singleton] at hrun
  by_cases hdn : d.owner = none
  · -- the block before it is free
    rw [if_pos hdn] at hdfree
    rw [hrun, if_pos ⟨hd0, by rw [hdfree]; exact Nat.one_ne_zero⟩]
    have hassoc : (l ++ [d]) ++ mergeNext c.freed r = l ++ d :: mergeNext c.freed r := by simp
    rw [hassoc] at hrep hok
    have htiled : Tiled A (l ++ d :: mergeNext c.freed r) :=
      hok.tiled (A, l ++ d :: mergeNext c.freed r) (by simp)
    obtain ⟨hrep2, hkept2⟩ := coalesceNext_arena hrep hok
    have hglobals2 := hglobals.trans (coalesceNext_globals d.addr (coalesceNext c.addr (h.setFree c.addr 1)))
    have hkept2' : KeptPayloads _ _ (given (cells front ++ ((l ++ [d]) ++ r) ++ cells back)) :=
      hkept2.subset (by simp [hdn])
    rw [cells_split] at hrep2
    refine ⟨l ++ mergeNext d (mergeNext c.freed r), ?_, by simp [hdn], hkept.trans hkept2', hglobals2⟩
    refine hinv.replace (mergeNext_tiled htiled hdn) ?_ hrep2 hglobals2
    refine List.isChain_append.mpr ⟨hl, mergeNext_chain hchain, fun x hx y _ => ?_⟩
    exact .inl ((hlast x hx d rfl).resolve_right (not_not.mpr hdn))
  · rw [if_neg hdn] at hdfree
    rw [hrun, if_neg fun hprev => hprev.2 hdfree]
    rw [cells_split] at hrep
    refine ⟨(l ++ [d]) ++ mergeNext c.freed r, ?_, ?_, hkept, hglobals⟩
    case refine_2 => rw [given_append, given_append (r := r), given_mergeNext c.freed_owner]
    have htiled := hok.tiled (A, (l ++ [d]) ++ mergeNext c.freed r) (by simp)
    refine hinv.replace htiled (List.isChain_append.mpr ⟨?_, hchain, ?_⟩) hrep hglobals
    · exact List.isChain_append.mpr ⟨hl, .singleton d, hlast⟩
    · intro x hx y _
      obtain rfl : d = x := by simpa using hx
      exact .inl hdn

/-! ## Giving out a block -/

theorem given_takeBlock (aligned size : Nat) (c : Cell) :
    ∃ c', given (takeBlock aligned size c) = [c'] ∧ c'.addr = c.addr ∧ c'.owner = some size := by
  unfold takeBlock
  split
  · exact ⟨_, rfl, rfl, rfl⟩
  · exact ⟨_, rfl, rfl, rfl⟩

theorem takeBlock_hasBlocks (hr : HasBlocks h (l ++ c :: r)) (hok : CellsOk (l ++ c :: r)) (hfit : aligned ≤ c.size)
    (hsmall : c.size + 80 < 2 ^ 64) (size : Nat) :
    HasBlocks ((splitBlock c.addr aligned h).setFree c.addr 0) (l ++ takeBlock aligned size c ++ r) ∧
      KeptPayloads h ((splitBlock c.addr aligned h).setFree c.addr 0) (l ++ r) := by
  by_cases hroom : c.size < aligned + 80
  · have hsame : splitBlock c.addr aligned h = h := by
      have hsize := hr.size c (by simp)
      have hmod : (aligned + headerSize + kheapMinSplit) % 2 ^ 64 = aligned + 80 := by
        rw [headerSize_eq, kheapMinSplit]
        omega
      unfold splitBlock
      rw [hmod, hsize, if_pos hroom]
    rw [hsame]
    obtain ⟨hrep, hkept⟩ := setFree_hasBlocks hr hok (some size)
    refine ⟨by simpa [takeBlock, hroom] using hrep, ?_⟩
    exact KeptPayloads.subset (by simpa using hkept) fun d hd => mem_remove (x := c) hd
  · obtain ⟨hrep, hkept⟩ := splitBlock_hasBlocks hr hok (show aligned + 80 ≤ c.size by omega)
    obtain ⟨hrep', hkept'⟩ := setFree_hasBlocks hrep (hok.split (by omega)) (some size)
    refine ⟨by simpa [takeBlock, hroom, Cell.front] using hrep', hkept.trans ?_⟩
    have hkept' := hkept'.subset fun d hd => mem_remove (mem_remove hd)
    simpa [Cell.front] using hkept'

/-- `kmalloc` of a block of an arena. -/
theorem kmalloc_arena (hinv : KheapInv h (front ++ (A, l ++ c :: r) :: back)) (hc : c.owner = none)
    (ha : aligned % 16 = 0) (hsize : size ≤ aligned) (hfit : aligned ≤ c.size) :
    KheapInv ((splitBlock c.addr aligned h).setFree c.addr 0)
      (front ++ (A, l ++ takeBlock aligned size c ++ r) :: back) ∧
      KeptPayloads h ((splitBlock c.addr aligned h).setFree c.addr 0) (given (cells front ++ (l ++ r) ++ cells back)) ∧
      SameGlobals h ((splitBlock c.addr aligned h).setFree c.addr 0) := by
  have htiled : Tiled A (l ++ c :: r) := hinv.ok.tiled (A, l ++ c :: r) (by simp)
  have hrep : HasBlocks h ((cells front ++ l) ++ c :: (r ++ cells back)) := by simpa [cells] using hinv.hasBlocks
  have hcells : CellsOk ((cells front ++ l) ++ c :: (r ++ cells back)) := by simpa [cells] using hinv.ok.cellsOk
  have hglobals : SameGlobals h ((splitBlock c.addr aligned h).setFree c.addr 0) := splitBlock_globals c.addr aligned h
  have hbound : A.stop ≤ 2 ^ 48 := (hinv.ok.placed (A, l ++ c :: r) (by simp)).bound
  have hwithin := htiled.within (c := c) (by simp)
  unfold Cell.stop at hwithin
  obtain ⟨hrep', hkept⟩ := takeBlock_hasBlocks hrep hcells hfit (by omega) size
  refine ⟨hinv.replace (takeBlock_tiled (by simpa using htiled) ha hsize hfit) ?_ (by simpa using hrep') hglobals, ?_,
    hglobals⟩
  · have hchain := hinv.ok.chain (A, l ++ c :: r) (by simp)
    exact takeBlock_chain (by simpa using hchain) hc
  · exact hkept.subset fun d hd => by simpa using (mem_given.mp hd).1

/-! ## New arenas -/

/-- The heap got pages, and no block was given out or taken back. -/
structure GotPages (h h' : Kheap) (arenas arenas' : Arenas) : Prop where
  inv : KheapInv h' arenas'
  given : given (cells arenas') = given (cells arenas)
  kept : KeptPayloads h h' (Armonios.given (cells arenas))
  pages : heapPages arenas' = heapPages arenas ∪ (freePages h.pmm \ freePages h'.pmm)
  free : freePages h'.pmm ⊆ freePages h.pmm

theorem GotPages.refl (hinv : KheapInv h arenas) : GotPages h h arenas arenas :=
  ⟨hinv, rfl, KeptPayloads.refl _ _, by simp, subset_rfl⟩

theorem GotPages.trans {arenas'' : Arenas} (h₁ : GotPages h h' arenas arenas') (h₂ : GotPages h' h'' arenas' arenas'') :
    GotPages h h'' arenas arenas'' := by
  refine ⟨h₂.inv, h₂.given.trans h₁.given, h₁.kept.trans (h₁.given ▸ h₂.kept), ?_, h₂.free.trans h₁.free⟩
  rw [h₂.pages, h₁.pages, Set.union_assoc]
  congr 1
  ext a
  have := @h₁.free a
  have := @h₂.free a
  simp only [Set.mem_union, Set.mem_sdiff]
  tauto

theorem pages_apart {a b k : Nat} (ha : a % pageSize = 0) (hb : b % pageSize = 0) {i : Nat} (hi : i ≠ 0) (hk : k ≠ 0)
    (hpages : ∀ q ∈ pagesOf a (i * pageSize), q ∉ pagesOf b (k * pageSize)) :
    a + i * pageSize ≤ b ∨ b + k * pageSize ≤ a := by
  by_contra hno
  simp only [pagesOf_mul, List.mem_map, List.mem_range] at hpages
  unfold pageSize at *
  rcases Nat.le_total a b with hle | hle
  · exact hpages b ⟨(b - a) / 4096, by omega, by omega⟩ ⟨0, by omega, by omega⟩
  · exact hpages a ⟨0, by omega, by omega⟩ ⟨(a - b) / 4096, by omega, by omega⟩

theorem pageCountForPayload_le (payload : Nat) (h0 : pageCountForPayload payload ≠ 0) :
    payload ≤ pageCountForPayload payload * pageSize - 48 := by
  unfold pageCountForPayload at *
  rw [headerSize_eq] at *
  unfold pageSize at *
  dsimp only at *
  split_ifs at * <;> omega

/-- `extend_heap` fails, or it adds an arena that has one free block of at least the asked size. -/
theorem extendHeap_inv (hinv : KheapInv h arenas) (payload : Nat) : extendHeap payload h = (0, h) ∨
    ∃ A c, (extendHeap payload h).1 = c.addr ∧ c.addr ≠ 0 ∧ c.owner = none ∧ payload ≤ c.size ∧
      GotPages h (extendHeap payload h).2 arenas (arenas ++ [(A, [c])]) := by
  by_cases h0 : pageCountForPayload payload = 0
  · refine .inl ?_
    unfold extendHeap
    exact if_pos h0
  rcases pmmAllocPages_spec hinv.pmm (pageCountForPayload payload) with hnone | ⟨b, pmm, halloc, hb, -, htook⟩
  · refine .inl ?_
    unfold extendHeap
    simp only [hnone, if_neg h0, if_true]
  right
  generalize hpages : pageCountForPayload payload = pages at *
  have hroom := pageCountForPayload_le payload (by rwa [hpages])
  rw [hpages] at hroom
  have hpage : ∀ i < pages, b + i * pageSize ∈ freePages h.pmm := by
    intro i hi
    refine htook.were ?_
    rw [Set.mem_ofPred_eq, pagesOf_mul]
    exact List.mem_map.mpr ⟨i, List.mem_range.mpr hi, rfl⟩
  have hmanaged := fun i hi => freePages_subset_managed (hpage i hi)
  have haligned : b % pageSize = 0 := by
    have := hinv.pmm.page_aligned (hmanaged 0 (by omega))
    simpa using this
  have hbound : b + pages * pageSize ≤ 2 ^ 48 := by
    have := hinv.pmm.page_bound (hmanaged (pages - 1) (by omega))
    unfold pageSize at *
    omega
  -- the new arena is apart from the others
  have hapart : ∀ x ∈ arenas, x.1.stop ≤ b ∨ b + pages * pageSize ≤ x.1.start := by
    intro x hx
    have hplaced := hinv.ok.placed x hx
    refine pages_apart hplaced.aligned haligned hplaced.pages h0 fun q hq hqb => ?_
    have hused : q ∈ heapPages arenas := ⟨x.1, List.mem_map.mpr ⟨x, hx, rfl⟩, hq⟩
    exact hinv.used q hused (htook.were hqb)
  obtain ⟨hblock, hrep, hkept, htotal, hnext, hpmm⟩ :=
    extendHeap_hasBlocks hinv.hasBlocks hinv.ok.cellsOk hpages h0 halloc hb fun d hd => by
      obtain ⟨x, hx, hdx⟩ := mem_cells.mp hd
      have hwithin := (hinv.ok.tiled x hx).within hdx
      have := hapart x hx
      unfold pageSize at *
      omega
  have hsplit : cells (arenas ++ [(⟨b, pages, h.nextArenaId⟩, [⟨b, pages * pageSize - 48, none, h.nextArenaId⟩])]) =
      cells arenas ++ [⟨b, pages * pageSize - 48, none, h.nextArenaId⟩] := by
    simp [cells]
  have hnew : heapPages (arenas ++ [(⟨b, pages, h.nextArenaId⟩, [⟨b, pages * pageSize - 48, none, h.nextArenaId⟩])]) =
      heapPages arenas ∪ {q | q ∈ pagesOf b (pages * pageSize)} := by
    ext q
    simp [heapPages, or_and_right, exists_or]
  refine ⟨⟨b, pages, h.nextArenaId⟩, ⟨b, pages * pageSize - 48, none, h.nextArenaId⟩, hblock, hb, rfl, hroom, ?_⟩
  refine ⟨⟨by rwa [hsplit], ⟨⟨?_, ?_, ?_⟩, ?_⟩, ?_, ?_, ?_, ?_, ?_⟩, by simp [hsplit], ?_, ?_, ?_⟩
  case refine_1 =>
    refine List.forall_mem_append.mpr ⟨hinv.ok.placed, ?_⟩
    simp only [List.mem_singleton, forall_eq]
    exact ⟨hb, haligned, h0, hbound⟩
  case refine_2 =>
    refine List.forall_mem_append.mpr ⟨hinv.ok.tiled, ?_⟩
    simp only [List.mem_singleton, forall_eq]
    unfold pageSize at *
    constructor
    · unfold Tiles Tiles Arena.stop Cell.stop pageSize
      dsimp only
      omega
    all_goals simp only [List.mem_singleton, forall_eq]
    · omega
    · exact fun n hn => by cases hn
  case refine_3 =>
    refine List.pairwise_append.mpr ⟨hinv.ok.apart, List.pairwise_singleton .., fun x hx y hy => ?_⟩
    obtain rfl := List.mem_singleton.mp hy
    exact ⟨Nat.ne_of_lt (hinv.ids x hx), hapart x hx⟩
  case refine_4 =>
    refine List.forall_mem_append.mpr ⟨hinv.ok.chain, ?_⟩
    simp only [List.mem_singleton, forall_eq]
    exact .singleton _
  case refine_5 =>
    rw [hnext]
    refine List.forall_mem_append.mpr ⟨fun x hx => Nat.lt_succ_of_lt (hinv.ids x hx), ?_⟩
    simp only [List.mem_singleton, forall_eq]
    exact Nat.lt_succ_self _
  case refine_6 =>
    rw [htotal, hinv.total]
    simp
  case refine_7 =>
    rw [hpmm]
    exact hinv.pmm.took htook
  case refine_8 =>
    rw [hnew, hpmm, htook.pool.managed]
    exact Set.union_subset hinv.managed (htook.were.trans freePages_subset_managed)
  case refine_9 =>
    rw [hnew, hpmm, htook.free]
    rintro a (ha | ha) ⟨hfree, hnot⟩
    · exact hinv.used a ha hfree
    · exact hnot ha
  case refine_10 => exact hkept.subset fun d hd => (mem_given.mp hd).1
  case refine_11 => rw [hnew, hpmm, htook.free, Set.sdiff_sdiff_cancel_left htook.were]
  case refine_12 =>
    rw [hpmm, htook.free]
    exact Set.sdiff_subset

/-! ## The calls -/

/-- The walk of `kmalloc` finds a free block that is large enough, or there is none. -/
theorem findFit_ends (hr : HasBlocks h (l ++ r)) (hok : CellsOk (l ++ r)) (aligned : Nat) :
    Ends (fun fuel => findFit h.mem aligned fuel (firstNode (r.map Cell.addr) 0)) 0 ∨
      ∃ c ∈ r, c.owner = none ∧ aligned ≤ c.size ∧
        Ends (fun fuel => findFit h.mem aligned fuel (firstNode (r.map Cell.addr) 0)) c.addr := by
  induction r generalizing l with
  | nil =>
    refine .inl ⟨0, fun fuel hfuel => ?_⟩
    obtain ⟨fuel, rfl⟩ := Nat.exists_eq_succ_of_ne_zero (Nat.ne_of_gt hfuel)
    exact if_pos rfl
  | cons c r ih =>
    have h0 := hok.nonzero c (by simp)
    have hfree := hr.free c (by simp)
    have hsize := hr.size c (by simp)
    by_cases hfit : c.owner = none ∧ aligned ≤ c.size
    · refine .inr ⟨c, List.mem_cons_self, hfit.1, hfit.2, 0, fun fuel hfuel => ?_⟩
      obtain ⟨fuel, rfl⟩ := Nat.exists_eq_succ_of_ne_zero (Nat.ne_of_gt hfuel)
      rw [if_pos hfit.1] at hfree
      simp [findFit, h0, hfree, hsize, hfit.2]
    · have hturn : ∀ fuel, findFit h.mem aligned (fuel + 1) (firstNode ((c :: r).map Cell.addr) 0) =
          findFit h.mem aligned fuel (firstNode (r.map Cell.addr) 0) := by
        intro fuel
        have hno : ¬(blockFree h.mem c.addr ≠ 0 ∧ aligned ≤ blockSize h.mem c.addr) := by
          rw [hfree, hsize]
          rintro ⟨hf, hs⟩
          exact hfit ⟨by_contra fun hn => hf (if_neg hn), hs⟩
        rw [List.map_cons, firstNode_cons, findFit, if_neg h0, if_neg hno, hr.next]
      have hlater : ∀ {b}, Ends (fun fuel => findFit h.mem aligned fuel (firstNode (r.map Cell.addr) 0)) b →
          Ends (fun fuel => findFit h.mem aligned fuel (firstNode ((c :: r).map Cell.addr) 0)) b := by
        rintro b ⟨k, hk⟩
        refine ⟨k + 1, fun fuel hfuel => ?_⟩
        obtain ⟨fuel, rfl⟩ := Nat.exists_eq_succ_of_ne_zero (Nat.ne_zero_of_lt hfuel)
        exact (hturn fuel).trans (hk fuel (by omega))
      rcases ih (l := l ++ [c]) (by simpa using hr) (by simpa using hok) with hnone | ⟨d, hd, hfree, hfit, hends⟩
      · exact .inl (hlater hnone)
      · exact .inr ⟨d, List.mem_cons_of_mem c hd, hfree, hfit, hlater hends⟩

/-- `kheap_init`. -/
theorem kheapInit_gotPages (hinv : KheapInv h arenas) : ∃ arenas', GotPages h (kheapInit h) arenas arenas' := by
  unfold kheapInit
  split
  · exact ⟨arenas, .refl hinv⟩
  · rcases extendHeap_inv hinv 1 with hnone | ⟨A, c, -, -, -, -, hgot⟩
    · rw [hnone]
      exact ⟨arenas, .refl hinv⟩
    · exact ⟨_, hgot⟩

/-- `p` was given out for `n` bytes. -/
def IsLive (cs : List Cell) (p n : Nat) : Prop := ∃ c ∈ cs, c.owner = some n ∧ p = c.addr + 48

theorem isLive_given (cs : List Cell) (p k : Nat) : IsLive (given cs) p k ↔ IsLive cs p k := by
  unfold IsLive
  constructor
  · rintro ⟨c, hc, howner, rfl⟩
    exact ⟨c, (mem_given.mp hc).1, howner, rfl⟩
  · rintro ⟨c, hc, howner, rfl⟩
    exact ⟨c, mem_given.mpr ⟨hc, by simp [howner]⟩, howner, rfl⟩

/-- What `kmalloc` gives out. -/
structure GaveOut (h h' : Kheap) (arenas arenas' : Arenas) (p size : Nat) : Prop where
  inv : KheapInv h' arenas'
  nonzero : p ≠ 0
  new : ∀ k, ¬IsLive (cells arenas) p k
  live : ∀ q k, IsLive (cells arenas') q k ↔ IsLive (cells arenas) q k ∨ q = p ∧ k = size
  kept : KeptPayloads h h' (given (cells arenas))
  pages : heapPages arenas' = heapPages arenas ∪ (freePages h.pmm \ freePages h'.pmm)

/-- `kmalloc` once it has a block. -/
theorem gaveOut_of_block {h₁ : Kheap} {arenas₁ : Arenas} (hgot : GotPages h h₁ arenas arenas₁) (hc : c ∈ cells arenas₁)
    (hfree : c.owner = none) (ha : aligned % 16 = 0) (hsize : size ≤ aligned) (hfit : aligned ≤ c.size) :
    ∃ arenas', GaveOut h ((splitBlock c.addr aligned h₁).setFree c.addr 0) arenas arenas' (c.addr + 48) size := by
  obtain ⟨front, A, l, r, back, rfl⟩ := exists_arena hc
  obtain ⟨hinv', hkept, -, -, hpmm⟩ := kmalloc_arena hgot.inv hfree ha hsize hfit
  obtain ⟨c', hgiven, haddr, howner⟩ := given_takeBlock aligned size c
  have hsame : given (cells arenas) = given (cells front ++ (l ++ r) ++ cells back) := by
    rw [← hgot.given, cells_split]
    simp [hfree]
  have hnew : given (cells (front ++ (A, l ++ takeBlock aligned size c ++ r) :: back)) =
      given (cells front ++ l) ++ c' :: given (r ++ cells back) := by
    rw [cells_split]
    simp [hgiven]
  refine ⟨_, hinv', by omega, ?_, ?_, hgot.kept.trans (hsame ▸ hkept), ?_⟩
  case refine_1 =>
    rintro k hlive
    rw [← isLive_given, hsame, isLive_given] at hlive
    obtain ⟨d, hd, -, heq⟩ := hlive
    have hok := hgot.inv.ok.cellsOk
    rw [cells_split] at hok
    have hok' : CellsOk ((cells front ++ l) ++ c :: (r ++ cells back)) := by simpa using hok
    have hapart := hok'.apart_middle (d := d) (by simpa using hd)
    unfold Cell.Apart Cell.stop at hapart
    omega
  case refine_2 =>
    intro q k
    rw [← isLive_given, hnew, ← isLive_given (cells arenas), hsame]
    unfold IsLive
    simp only [List.mem_append, List.mem_cons, given_append]
    constructor
    · rintro ⟨d, (hd | rfl | hd), howned, rfl⟩
      · exact .inl ⟨d, by tauto, howned, rfl⟩
      · rw [howner] at howned
        exact .inr ⟨by rw [haddr], (Option.some.inj howned).symm⟩
      · exact .inl ⟨d, by tauto, howned, rfl⟩
    · rintro (⟨d, hd, howned, rfl⟩ | ⟨rfl, rfl⟩)
      · exact ⟨d, by tauto, howned, rfl⟩
      · exact ⟨c', by tauto, howner, by rw [haddr]⟩
  case refine_3 =>
    rw [hpmm, ← hgot.pages]
    simp [heapPages]

theorem kheapAlignUp_spec (size : Nat) (hsize : size ≤ uint64Max - (kheapAlign - 1)) :
    kheapAlignUp size % 16 = 0 ∧ size ≤ kheapAlignUp size := by
  unfold kheapAlignUp uint64Max kheapAlign at *
  omega

/-- `kmalloc` of a size that it takes, if the walk finds a block. -/
theorem kmalloc_found (hsize : ¬(size = 0 ∨ size > uint64Max - (kheapAlign - 1))) {h₁ : Kheap}
    (hinit : h₁ = if h.head = 0 then kheapInit h else h) {block : Nat} (h0 : block ≠ 0)
    (hfind : findFit h₁.mem (kheapAlignUp size) fuel h₁.head = some block) :
    kmalloc fuel size h = some (block + 48, (splitBlock block (kheapAlignUp size) h₁).setFree block 0) := by
  obtain ⟨k, rfl⟩ := Nat.exists_eq_succ_of_ne_zero h0
  unfold kmalloc
  simp only [if_neg hsize, ← hinit, hfind]
  rfl

/-- `kmalloc` of a size that it takes, if the walk finds no block. -/
theorem kmalloc_extends (hsize : ¬(size = 0 ∨ size > uint64Max - (kheapAlign - 1))) {h₁ h₂ : Kheap}
    (hinit : h₁ = if h.head = 0 then kheapInit h else h) {block : Nat}
    (hextend : extendHeap (kheapAlignUp size) h₁ = (block, h₂))
    (hfind : findFit h₁.mem (kheapAlignUp size) fuel h₁.head = some 0) :
    kmalloc fuel size h = if block = 0 then some (0, h₂)
      else some (block + 48, (splitBlock block (kheapAlignUp size) h₂).setFree block 0) := by
  unfold kmalloc
  simp only [if_neg hsize, ← hinit, hfind, hextend]
  rfl

/-- `kmalloc` ends, and either it returns `NULL` or a new pointer. -/
theorem kmalloc_spec (hinv : KheapInv h arenas) (size : Nat) :
    ∃ p h' arenas', Ends (fun fuel => kmalloc fuel size h) (p, h') ∧
      (p = 0 ∧ GotPages h h' arenas arenas' ∨ GaveOut h h' arenas arenas' p size) := by
  by_cases hbad : size = 0 ∨ size > uint64Max - (kheapAlign - 1)
  · refine ⟨0, h, arenas, ⟨0, fun fuel _ => ?_⟩, .inl ⟨rfl, .refl hinv⟩⟩
    unfold kmalloc
    exact if_pos hbad
  obtain ⟨halign, hle⟩ := kheapAlignUp_spec size (by omega)
  obtain ⟨h₁, hinit⟩ : ∃ h₁, h₁ = if h.head = 0 then kheapInit h else h := ⟨_, rfl⟩
  obtain ⟨arenas₁, hgot⟩ : ∃ arenas₁, GotPages h h₁ arenas arenas₁ := by
    rw [hinit]
    split
    · exact kheapInit_gotPages hinv
    · exact ⟨arenas, .refl hinv⟩
  have hrep := hgot.inv.hasBlocks
  have hok := hgot.inv.ok.cellsOk
  have hwalk := findFit_ends (l := []) (r := cells arenas₁) hrep hok (kheapAlignUp size)
  rw [← hrep.head] at hwalk
  rcases hwalk with ⟨k, hnone⟩ | ⟨c, hc, hfree, hfit, k, hfound⟩
  · rcases extendHeap_inv hgot.inv (kheapAlignUp size) with hfail | ⟨A, c, hblock, h0, hfree, hfit, hgot'⟩
    · -- there are no pages left
      refine ⟨0, h₁, arenas₁, ⟨k, fun fuel hfuel => ?_⟩, .inl ⟨rfl, hgot⟩⟩
      exact (kmalloc_extends hbad hinit hfail (hnone fuel hfuel)).trans (if_pos rfl)
    · obtain ⟨arenas', hgave⟩ := gaveOut_of_block (hgot.trans hgot') (c := c) (by simp [cells]) hfree halign hle hfit
      refine ⟨_, _, arenas', ⟨k, fun fuel hfuel => ?_⟩, .inr hgave⟩
      exact (kmalloc_extends hbad hinit (Prod.ext hblock rfl) (hnone fuel hfuel)).trans (if_neg h0)
  · obtain ⟨arenas', hgave⟩ := gaveOut_of_block hgot hc hfree halign hle hfit
    refine ⟨_, _, arenas', ⟨k, fun fuel hfuel => ?_⟩, .inr hgave⟩
    exact kmalloc_found hbad hinit (hok.nonzero c hc) (hfound fuel hfuel)

/-- What `kfree` takes back. -/
structure TookBack (h h' : Kheap) (arenas arenas' : Arenas) (p : Nat) : Prop where
  inv : KheapInv h' arenas'
  live : ∀ q k, IsLive (cells arenas') q k ↔ IsLive (cells arenas) q k ∧ q ≠ p
  kept : KeptPayloads h h' (given (cells arenas'))
  pages : heapPages arenas' = heapPages arenas
  pmm : h'.pmm = h.pmm

theorem kfree_spec (hinv : KheapInv h arenas) {p k : Nat} (hlive : IsLive (cells arenas) p k) :
    ∃ arenas', TookBack h (kfree p h) arenas arenas' p := by
  obtain ⟨c, hc, howner, rfl⟩ := hlive
  obtain ⟨front, A, l, r, back, rfl⟩ := exists_arena hc
  obtain ⟨m, hinv', hgiven, hkept, -, -, hpmm⟩ := kfree_arena hinv (by simp [howner])
  have hsame : given (cells (front ++ (A, m) :: back)) = given (cells front ++ (l ++ r) ++ cells back) := by
    rw [cells_split]
    simp [hgiven]
  have hok := hinv.ok.cellsOk
  rw [cells_split] at hok
  have hok' : CellsOk ((cells front ++ l) ++ c :: (r ++ cells back)) := by simpa using hok
  refine ⟨_, hinv', fun q k => ?_, hsame ▸ hkept, by simp [heapPages], hpmm⟩
  rw [← isLive_given, hsame, isLive_given, cells_split]
  unfold IsLive
  constructor
  · rintro ⟨d, hd, howned, rfl⟩
    have hapart := hok'.apart_middle (d := d) (by simpa using hd)
    unfold Cell.Apart Cell.stop at hapart
    refine ⟨⟨d, ?_, howned, rfl⟩, by omega⟩
    simp only [List.mem_append, List.mem_cons] at hd ⊢
    tauto
  · rintro ⟨⟨d, hd, howned, rfl⟩, hne⟩
    have hdc : d ≠ c := fun heq => hne (by rw [heq])
    refine ⟨d, ?_, howned, rfl⟩
    simp only [List.mem_append, List.mem_cons, hdc, false_or] at hd ⊢
    tauto

end Armonios
