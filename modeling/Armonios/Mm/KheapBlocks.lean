import Mathlib.Data.List.Pairwise
import Armonios.Lib.Linked
import Armonios.Mm.Kheap

/-!
# The blocks of the kernel heap

What the functions of `kheap.c` write to headers, and what that is for the list of blocks (`Cell`) that the headers
represent (`HasBlocks`): `split_block` makes two cells of one, `coalesce_next` one of two, `extend_heap` adds one.
-/

namespace Armonios

/-! ## Writes -/

theorem headerSize_eq : headerSize = 48 := rfl

/-- What `split_block` writes. -/
structure SplitSpec (h h' : Kheap) (b size next : Nat) : Prop where
  sizeB : blockSize h'.mem b = size
  nextB : blockNext h'.mem b = b + 48 + size
  sizeN : blockSize h'.mem (b + 48 + size) = blockSize h.mem b - size - 48
  freeN : blockFree h'.mem (b + 48 + size) = 1
  nextN : blockNext h'.mem (b + 48 + size) = next
  prevN : blockPrev h'.mem (b + 48 + size) = b
  arenaN : blockArena h'.mem (b + 48 + size) = blockArena h.mem b
  prevNext : next ≠ 0 → blockPrev h'.mem next = b + 48 + size
  other : ∀ a, a ≠ b → a ≠ b + 16 → a < b + 48 + size ∨ b + 96 + size ≤ a → next = 0 ∨ a ≠ next + 24 →
    h'.mem a = h.mem a
  globals : h'.head = h.head ∧ h'.tail = (if next = 0 then b + 48 + size else h.tail) ∧
    h'.totalBytes = h.totalBytes ∧ h'.nextArenaId = h.nextArenaId ∧ h'.pmm = h.pmm

theorem splitBlock_spec {h : Kheap} {b size next : Nat} (hroom : size + 80 ≤ blockSize h.mem b)
    (hlt : blockSize h.mem b < 2 ^ 64) (hnext : blockNext h.mem b = next)
    (hout : next ≠ 0 → next + 48 ≤ b ∨ b + 48 + blockSize h.mem b ≤ next) :
    SplitSpec h (splitBlock b size h) b size next := by
  have hmod : (size + headerSize + kheapMinSplit) % 2 ^ 64 = size + 80 := by
    rw [headerSize_eq, kheapMinSplit]
    omega
  have hge : ¬blockSize h.mem b < (size + headerSize + kheapMinSplit) % 2 ^ 64 := by
    rw [hmod]
    omega
  unfold splitBlock
  rw [if_neg hge]
  unfold blockSize blockNext at *
  simp (disch := omega) only [Kheap.setSize, Kheap.setFree, Kheap.setNext, Kheap.setPrev, Kheap.setArena, Kheap.store,
    headerSize_eq, blockArena, Function.update_of_ne, hnext]
  by_cases h0 : next = 0
  · rw [if_neg (not_not.mpr h0)]
    constructor
    case other =>
      intro a hb hbn hout' _
      simp (disch := omega) only [Function.update_of_ne]
    case globals => simp [h0]
    all_goals simp (disch := omega) only [blockSize, blockFree, blockNext, blockPrev, blockArena, Function.update_of_ne,
      Function.update_self, h0, ne_eq, not_true_eq_false, false_implies]
  · have houtside := hout h0
    rw [if_pos h0]
    constructor
    case other =>
      intro a hb hbn hout' hprev
      simp (disch := omega) only [Function.update_of_ne]
    case globals => simp [h0]
    all_goals simp (disch := omega) only [blockSize, blockFree, blockNext, blockPrev, blockArena, Function.update_of_ne,
      Function.update_self, implies_true]

/-- What `coalesce_next` writes. -/
structure CoalesceSpec (h h' : Kheap) (b next : Nat) : Prop where
  sizeB : blockSize h'.mem b = blockSize h.mem b + (48 + blockSize h.mem (b + 48 + blockSize h.mem b))
  nextB : blockNext h'.mem b = next
  prevNext : next ≠ 0 → blockPrev h'.mem next = b
  other : ∀ a, a ≠ b → a ≠ b + 16 → next = 0 ∨ a ≠ next + 24 → h'.mem a = h.mem a
  globals : h'.head = h.head ∧ h'.tail = (if next = 0 then b else h.tail) ∧
    h'.totalBytes = h.totalBytes ∧ h'.nextArenaId = h.nextArenaId ∧ h'.pmm = h.pmm

theorem coalesceNext_spec {h : Kheap} {b n next : Nat} (hn : blockNext h.mem b = n)
    (hcan : blocksCanCoalesce h.mem b n = true) (hnext : blockNext h.mem n = next)
    (hout : next ≠ 0 → next + 48 ≤ b ∨ n + 48 + blockSize h.mem n ≤ next) :
    CoalesceSpec h (coalesceNext b h) b next := by
  have hadj : n = b + 48 + blockSize h.mem b := by
    obtain ⟨-, hadj⟩ := Bool.and_eq_true_iff.mp hcan
    exact (of_decide_eq_true hadj).symm
  unfold coalesceNext
  rw [hn, if_pos hcan]
  subst hadj
  unfold blockSize blockNext at *
  simp (disch := omega) only [Kheap.setSize, Kheap.setNext, Kheap.setPrev, Kheap.store, headerSize_eq,
    Function.update_of_ne, hnext]
  by_cases h0 : next = 0
  · rw [if_neg (not_not.mpr h0)]
    constructor
    case other =>
      intro a hb hbn _
      simp (disch := omega) only [Function.update_of_ne]
    case globals => simp [h0]
    all_goals simp (disch := omega) only [blockSize, blockNext, blockPrev, Function.update_of_ne, Function.update_self,
      h0, ne_eq, not_true_eq_false, false_implies]
  · have houtside := hout h0
    rw [if_pos h0]
    constructor
    case other =>
      intro a hb hbn hprev
      simp (disch := omega) only [Function.update_of_ne]
    case globals => simp [h0]
    all_goals simp (disch := omega) only [blockSize, blockNext, blockPrev, Function.update_of_ne, Function.update_self,
      implies_true]

/-- What `extend_heap` writes for a new arena at `b`. -/
structure ExtendSpec (h h' : Kheap) (pmm : Pmm) (b pages : Nat) : Prop where
  sizeB : blockSize h'.mem b = pages * pageSize - 48
  freeB : blockFree h'.mem b = 1
  nextB : blockNext h'.mem b = 0
  prevB : blockPrev h'.mem b = h.tail
  arenaB : blockArena h'.mem b = h.nextArenaId
  nextTail : h.tail ≠ 0 → blockNext h'.mem h.tail = b
  other : ∀ a, a < b ∨ b + 48 ≤ a → h.tail = 0 ∨ a ≠ h.tail + 16 → h'.mem a = h.mem a
  globals : h'.head = (if h.tail = 0 then b else h.head) ∧ h'.tail = b ∧
    h'.totalBytes = h.totalBytes + (pages * pageSize - 48) ∧ h'.nextArenaId = h.nextArenaId + 1 ∧ h'.pmm = pmm

theorem extendHeap_spec {h : Kheap} {payload pages b : Nat} {pmm : Pmm} (hpages : pageCountForPayload payload = pages)
    (h0 : pages ≠ 0) (halloc : pmmAllocPages pages h.pmm = (b, pmm)) (hb : b ≠ 0)
    (hout : h.tail ≠ 0 → h.tail + 48 ≤ b ∨ b + 48 ≤ h.tail) :
    (extendHeap payload h).1 = b ∧ ExtendSpec h (extendHeap payload h).2 pmm b pages := by
  unfold extendHeap
  simp only [hpages, h0, if_false, halloc, hb, true_and]
  unfold appendBlock
  simp (disch := omega) only [Kheap.setSize, Kheap.setFree, Kheap.setNext, Kheap.setPrev, Kheap.setArena, Kheap.store,
    blockPayloadCapacity, headerSize_eq]
  by_cases ht : h.tail = 0
  · simp only [ht, ne_eq, not_true_eq_false, if_false]
    constructor
    case other =>
      intro a hab _
      simp (disch := omega) only [Function.update_of_ne]
    case globals =>
      simp (disch := omega) only [blockSize, Function.update_of_ne, Function.update_self, ht, if_true, and_self]
    all_goals simp (disch := omega) only [blockSize, blockFree, blockNext, blockPrev, blockArena, Function.update_of_ne,
      Function.update_self, ht, ne_eq, not_true_eq_false, false_implies]
  · have houtside := hout ht
    simp only [ht, ne_eq, not_false_eq_true, if_true]
    constructor
    case other =>
      intro a hab htail
      simp (disch := omega) only [Function.update_of_ne]
    case globals =>
      simp (disch := omega) only [blockSize, Function.update_of_ne, Function.update_self, ht, if_false, and_self]
    all_goals simp (disch := omega) only [blockSize, blockFree, blockNext, blockPrev, blockArena, Function.update_of_ne,
      Function.update_self, implies_true]

/-! ## Cells -/

/-- A block: where it is, and for how many bytes it was given out, if it is not free. -/
structure Cell where
  addr : Nat
  size : Nat
  owner : Option Nat
  arena : Nat

/-- The end of a block. -/
def Cell.stop (c : Cell) : Nat := c.addr + 48 + c.size

def Cell.Apart (c d : Cell) : Prop := c.stop ≤ d.addr ∨ d.stop ≤ c.addr

instance : Std.Symm Cell.Apart := ⟨fun _ _ h => h.symm⟩

/-- The blocks of the heap, in the order of the list. -/
structure HasBlocks (h : Kheap) (cs : List Cell) : Prop where
  linked : Linked (blockNext h.mem) (blockPrev h.mem) 0 (cs.map Cell.addr) 0
  head : h.head = firstNode (cs.map Cell.addr) 0
  tail : h.tail = lastNode 0 (cs.map Cell.addr)
  size : ∀ c ∈ cs, blockSize h.mem c.addr = c.size
  free : ∀ c ∈ cs, blockFree h.mem c.addr = if c.owner = none then 1 else 0
  arena : ∀ c ∈ cs, blockArena h.mem c.addr = c.arena

/-- The blocks do not overlap. -/
structure CellsOk (cs : List Cell) : Prop where
  apart : cs.Pairwise Cell.Apart
  nonzero : ∀ c ∈ cs, c.addr ≠ 0
  small : ∀ c ∈ cs, c.size < 2 ^ 64

variable {h h' : Kheap} {l r cs : List Cell} {c d e : Cell} {lo hi : Nat}

theorem CellsOk.apart_of_ne (hok : CellsOk cs) (hc : c ∈ cs) (hd : d ∈ cs) (hne : c ≠ d) : c.Apart d :=
  hok.apart.forall hc hd hne

theorem CellsOk.apart_middle (hok : CellsOk (l ++ c :: r)) (hd : d ∈ l ++ r) : c.Apart d := by
  obtain ⟨-, hr, hl⟩ := List.pairwise_append.mp hok.apart
  rcases List.mem_append.mp hd with hd | hd
  · exact (hl d hd c List.mem_cons_self).symm
  · exact (List.pairwise_cons.mp hr).1 d hd

theorem CellsOk.remove (hok : CellsOk (l ++ c :: r)) : CellsOk (l ++ r) := by
  have hsub : (l ++ r).Sublist (l ++ c :: r) := (List.sublist_cons_self c r).append_left l
  exact ⟨hok.apart.sublist hsub, fun d hd => hok.nonzero d (hsub.subset hd), fun d hd => hok.small d (hsub.subset hd)⟩

/-- The bytes of the blocks `ds` are what they were. -/
def KeptPayloads (h h' : Kheap) (ds : List Cell) : Prop :=
  ∀ d ∈ ds, ∀ k, 48 ≤ k → k < 48 + d.size → h'.mem (d.addr + k) = h.mem (d.addr + k)

theorem KeptPayloads.refl (h : Kheap) (ds : List Cell) : KeptPayloads h h ds := fun _ _ _ _ _ => rfl

theorem KeptPayloads.trans {h h' h'' : Kheap} {ds : List Cell} (hkept : KeptPayloads h h' ds)
    (hkept' : KeptPayloads h' h'' ds) : KeptPayloads h h'' ds :=
  fun d hd k h48 hk => (hkept' d hd k h48 hk).trans (hkept d hd k h48 hk)

theorem KeptPayloads.subset {h h' : Kheap} {ds ds' : List Cell} (hkept : KeptPayloads h h' ds)
    (hsub : ∀ d ∈ ds', d ∈ ds) : KeptPayloads h h' ds' := fun d hd => hkept d (hsub d hd)

/-- Nothing was written outside of `[lo, hi)` but for the back link of the first block of `r`. -/
def Kept (h h' : Kheap) (lo hi : Nat) (r : List Cell) : Prop :=
  ∀ a, a < lo ∨ hi ≤ a → (∀ e ∈ r.head?, a ≠ e.addr + 24) → h'.mem a = h.mem a

/-- The headers and the bytes of the blocks outside of the part that was written. -/
theorem Kept.word (hkept : Kept h h' lo hi r) (hok : CellsOk (l ++ r)) (hout : ∀ d ∈ l ++ r, d.stop ≤ lo ∨ hi ≤ d.addr)
    (hd : d ∈ l ++ r) {k : Nat} (hk : k < 48 + d.size) (hne : k ≠ 24 ∨ ∀ e ∈ r.head?, d ≠ e) :
    h'.mem (d.addr + k) = h.mem (d.addr + k) := by
  have hdout := hout d hd
  unfold Cell.stop at hdout
  refine hkept _ (by omega) fun e he => ?_
  by_cases hde : d = e
  · rcases hne with h24 | hne
    · rw [hde]
      omega
    · exact absurd hde (hne e he)
  · have hmem : e ∈ l ++ r := List.mem_append_right _ (List.mem_of_mem_head? he)
    have hapart := hok.apart_of_ne hd hmem hde
    unfold Cell.Apart Cell.stop at hapart
    omega

/-- A block is not twice in the list. -/
theorem CellsOk.not_mem_tail (hok : CellsOk (l ++ r)) : ∀ d ∈ r.tail, ∀ e ∈ r.head?, d ≠ e := by
  cases r with
  | nil => simp
  | cons e r =>
    rintro d hd _ ⟨⟩ rfl
    obtain ⟨-, hr, -⟩ := List.pairwise_append.mp hok.apart
    have hapart := (List.pairwise_cons.mp hr).1 d hd
    unfold Cell.Apart Cell.stop at hapart
    omega

theorem CellsOk.not_mem_left (hok : CellsOk (l ++ r)) : ∀ d ∈ l, ∀ e ∈ r.head?, d ≠ e := by
  rintro d hd e he rfl
  obtain ⟨-, -, hl⟩ := List.pairwise_append.mp hok.apart
  have hapart := hl d hd d (List.mem_of_mem_head? he)
  unfold Cell.Apart Cell.stop at hapart
  omega

/-- The fields of the blocks outside of what was written. -/
theorem Kept.fields (hkept : Kept h h' lo hi r) (hok : CellsOk (l ++ r))
    (hout : ∀ d ∈ l ++ r, d.stop ≤ lo ∨ hi ≤ d.addr) :
    (∀ d ∈ l ++ r, blockSize h'.mem d.addr = blockSize h.mem d.addr ∧ blockFree h'.mem d.addr = blockFree h.mem d.addr ∧
      blockArena h'.mem d.addr = blockArena h.mem d.addr ∧ blockNext h'.mem d.addr = blockNext h.mem d.addr) ∧
    ∀ d ∈ l ++ r.tail, blockPrev h'.mem d.addr = blockPrev h.mem d.addr := by
  constructor
  · intro d hd
    exact ⟨hkept.word hok hout hd (k := 0) (by omega) (.inl (by omega)),
      hkept.word hok hout hd (k := 8) (by omega) (.inl (by omega)),
      hkept.word hok hout hd (k := 32) (by omega) (.inl (by omega)),
      hkept.word hok hout hd (k := 16) (by omega) (.inl (by omega))⟩
  · intro d hd
    rcases List.mem_append.mp hd with hd | hd
    · exact hkept.word hok hout (List.mem_append_left _ hd) (k := 24) (by omega) (.inr (hok.not_mem_left d hd))
    · exact hkept.word hok hout (List.mem_append_right _ (List.mem_of_mem_tail hd)) (k := 24) (by omega)
        (.inr (hok.not_mem_tail d hd))

theorem Kept.payloads (hkept : Kept h h' lo hi r) (hok : CellsOk (l ++ r))
    (hout : ∀ d ∈ l ++ r, d.stop ≤ lo ∨ hi ≤ d.addr) : KeptPayloads h h' (l ++ r) :=
  fun _ hd _ h48 hk => hkept.word hok hout hd hk (.inl (by omega))

theorem firstNode_of_head {e : Cell} (he : e ∈ r.head?) : firstNode (r.map Cell.addr) 0 = e.addr := by
  cases r with
  | nil => simp at he
  | cons c r =>
    obtain rfl := Option.some.inj he
    rfl

/-- The next block of the list. -/
theorem HasBlocks.next (hr : HasBlocks h (l ++ c :: r)) : blockNext h.mem c.addr = firstNode (r.map Cell.addr) 0 := by
  have hlinked := hr.linked
  rw [List.map_append, List.map_cons] at hlinked
  exact (linked_append.mp hlinked).2.2.1

theorem HasBlocks.prev (hr : HasBlocks h (l ++ c :: r)) : blockPrev h.mem c.addr = lastNode 0 (l.map Cell.addr) := by
  have hlinked := hr.linked
  rw [List.map_append, List.map_cons] at hlinked
  exact (linked_append.mp hlinked).2.1

/-- Where the block after a block of the list can be. -/
theorem CellsOk.next_out (hok : CellsOk (l ++ c :: r)) {next : Nat} (hnext : next = firstNode (r.map Cell.addr) 0)
    (h0 : next ≠ 0) : ∃ e ∈ r.head?, next = e.addr ∧ c.Apart e := by
  cases r with
  | nil => exact absurd hnext h0
  | cons e r => exact ⟨e, rfl, hnext, hok.apart_middle (by simp)⟩

/-- The two blocks that a block is split into. -/
def Cell.front (size : Nat) (c : Cell) : Cell := { c with size }

def Cell.back (size : Nat) (c : Cell) : Cell := ⟨c.addr + 48 + size, c.size - size - 48, none, c.arena⟩

theorem CellsOk.split (hok : CellsOk (l ++ c :: r)) {size : Nat} (hroom : size + 48 ≤ c.size) :
    CellsOk (l ++ c.front size :: c.back size :: r) := by
  obtain ⟨hl, hr, hlr⟩ := List.pairwise_append.mp hok.apart
  obtain ⟨hc, hr⟩ := List.pairwise_cons.mp hr
  -- what is apart from the block is apart from its parts
  have hparts : ∀ d, c.Apart d → (c.front size).Apart d ∧ (c.back size).Apart d := by
    intro d hd
    unfold Cell.Apart Cell.stop Cell.front Cell.back at *
    dsimp only
    omega
  constructor
  case apart =>
    refine List.pairwise_append.mpr ⟨hl, .cons ?_ (.cons (fun d hd => (hparts d (hc d hd)).2) hr), fun d hd e he => ?_⟩
    · intro d hd
      rcases List.mem_cons.mp hd with rfl | hd
      · exact .inl (Nat.le_refl _)
      · exact (hparts d (hc d hd)).1
    · have hdc := hparts d (hlr d hd c List.mem_cons_self).symm
      rcases List.mem_cons.mp he with rfl | he
      · exact hdc.1.symm
      rcases List.mem_cons.mp he with rfl | he
      · exact hdc.2.symm
      · exact hlr d hd e (List.mem_cons_of_mem c he)
  case nonzero =>
    refine List.forall_mem_append.mpr ⟨fun d hd => hok.nonzero d (List.mem_append_left _ hd), ?_⟩
    have h0 := hok.nonzero c (by simp)
    refine List.forall_mem_cons.mpr ⟨h0, List.forall_mem_cons.mpr ⟨?_, fun d hd => hok.nonzero d (by simp [hd])⟩⟩
    unfold Cell.back
    dsimp only
    omega
  case small =>
    refine List.forall_mem_append.mpr ⟨fun d hd => hok.small d (List.mem_append_left _ hd), ?_⟩
    have hsmall := hok.small c (by simp)
    refine List.forall_mem_cons.mpr ⟨?_, List.forall_mem_cons.mpr ⟨?_, fun d hd => hok.small d (by simp [hd])⟩⟩
    · unfold Cell.front
      dsimp only
      omega
    · unfold Cell.back
      dsimp only
      omega

theorem HasBlocks.congr_fields {cs' : List Cell} (hr : HasBlocks h cs) (hsub : ∀ d ∈ cs', d ∈ cs)
    (h' : Kheap) (hsame : ∀ d ∈ cs', blockSize h'.mem d.addr = blockSize h.mem d.addr ∧
      blockFree h'.mem d.addr = blockFree h.mem d.addr ∧ blockArena h'.mem d.addr = blockArena h.mem d.addr ∧
      blockNext h'.mem d.addr = blockNext h.mem d.addr) :
    ∀ d ∈ cs', blockSize h'.mem d.addr = d.size ∧ blockFree h'.mem d.addr = (if d.owner = none then 1 else 0) ∧
      blockArena h'.mem d.addr = d.arena := by
  intro d hd
  obtain ⟨hsize, hfree, harena, -⟩ := hsame d hd
  exact ⟨hsize.trans (hr.size d (hsub d hd)), hfree.trans (hr.free d (hsub d hd)),
    harena.trans (hr.arena d (hsub d hd))⟩

theorem mem_remove {x : Cell} (hd : d ∈ l ++ r) : d ∈ l ++ x :: r := by
  rcases List.mem_append.mp hd with hd | hd
  · exact List.mem_append_left _ hd
  · exact List.mem_append_right _ (List.mem_cons_of_mem x hd)

theorem splitBlock_hasBlocks (hr : HasBlocks h (l ++ c :: r)) (hok : CellsOk (l ++ c :: r)) {size : Nat}
    (hroom : size + 80 ≤ c.size) :
    HasBlocks (splitBlock c.addr size h) (l ++ c.front size :: c.back size :: r) ∧
      KeptPayloads h (splitBlock c.addr size h) (l ++ r) := by
  have hsize := hr.size c (by simp)
  have hsmall := hok.small c (by simp)
  have hnext0 := hok.next_out (r := r) rfl
  have hspec : SplitSpec h (splitBlock c.addr size h) c.addr size (firstNode (r.map Cell.addr) 0) := by
    refine splitBlock_spec (by omega) (by omega) hr.next fun h0 => ?_
    obtain ⟨e, -, hnext, hapart⟩ := hnext0 h0
    unfold Cell.Apart Cell.stop at hapart
    omega
  have hkept : Kept h (splitBlock c.addr size h) c.addr c.stop r := by
    intro a ha hhead
    unfold Cell.stop at ha
    refine hspec.other a (by omega) (by omega) (by omega) ?_
    cases r with
    | nil => exact .inl rfl
    | cons e r => exact .inr (hhead e rfl)
  have hout : ∀ d ∈ l ++ r, d.stop ≤ c.addr ∨ c.stop ≤ d.addr := fun d hd => (hok.apart_middle hd).symm
  refine ⟨?_, hkept.payloads hok.remove hout⟩
  obtain ⟨hfields, hprevs⟩ := hkept.fields hok.remove hout
  have hheader : ∀ k, k = 8 ∨ k = 24 ∨ k = 32 → (splitBlock c.addr size h).mem (c.addr + k) = h.mem (c.addr + k) := by
    intro k hk
    refine hspec.other _ (by omega) (by omega) (by omega) ?_
    by_cases h0 : firstNode (r.map Cell.addr) 0 = 0
    · exact .inl h0
    · obtain ⟨e, -, hnext, hapart⟩ := hnext0 h0
      unfold Cell.Apart Cell.stop at hapart
      omega
  have hlinked := hr.linked
  rw [List.map_append, List.map_cons] at hlinked
  have hold := hr.congr_fields (fun d hd => mem_remove hd) _ hfields
  obtain ⟨hhead, htail, -⟩ := hspec.globals
  constructor
  case linked =>
    rw [List.map_append, List.map_cons, List.map_cons]
    refine hlinked.insert hspec.nextB hspec.nextN hspec.prevN (fun a ha => ?_) (fun a ha => ?_) fun a ha => ?_
    · rw [List.head?_map] at ha
      obtain ⟨e, he, rfl⟩ := Option.map_eq_some_iff.mp ha
      have hprev := hspec.prevNext
      rw [firstNode_of_head he] at hprev
      exact hprev (hok.nonzero e (by simp [List.mem_of_mem_head? he]))
    · rw [← List.map_append, List.mem_map] at ha
      obtain ⟨d, hd, rfl⟩ := ha
      exact (hfields d hd).2.2.2
    · rw [List.append_assoc, List.mem_append, List.mem_append, List.mem_singleton, ← List.map_tail] at ha
      rcases ha with ha | rfl | ha
      · obtain ⟨d, hd, rfl⟩ := List.mem_map.mp ha
        exact hprevs d (List.mem_append_left _ hd)
      · exact hheader 24 (by omega)
      · obtain ⟨d, hd, rfl⟩ := List.mem_map.mp ha
        exact hprevs d (List.mem_append_right _ hd)
  case head =>
    rw [hhead, hr.head]
    simp only [List.map_append, List.map_cons, firstNode_append, firstNode_cons, Cell.front]
  case tail =>
    rw [htail, hr.tail]
    simp only [List.map_append, List.map_cons, lastNode_append, lastNode_cons]
    cases r with
    | nil => rfl
    | cons e r =>
      have he : e.addr ≠ 0 := hok.nonzero e (by simp)
      rw [List.map_cons, firstNode_cons, if_neg he, lastNode_cons, lastNode_cons]
  case size =>
    intro d hd
    rcases List.mem_append.mp hd with hd | hd
    · exact (hold d (List.mem_append_left _ hd)).1
    rcases List.mem_cons.mp hd with rfl | hd
    · exact hspec.sizeB
    rcases List.mem_cons.mp hd with rfl | hd
    · rw [Cell.back, hspec.sizeN, hsize]
    · exact (hold d (List.mem_append_right _ hd)).1
  case free =>
    intro d hd
    rcases List.mem_append.mp hd with hd | hd
    · exact (hold d (List.mem_append_left _ hd)).2.1
    rcases List.mem_cons.mp hd with rfl | hd
    · exact (hheader 8 (by omega)).trans (hr.free c (by simp))
    rcases List.mem_cons.mp hd with rfl | hd
    · exact hspec.freeN
    · exact (hold d (List.mem_append_right _ hd)).2.1
  case arena =>
    intro d hd
    rcases List.mem_append.mp hd with hd | hd
    · exact (hold d (List.mem_append_left _ hd)).2.2
    rcases List.mem_cons.mp hd with rfl | hd
    · exact (hheader 32 (by omega)).trans (hr.arena c (by simp))
    rcases List.mem_cons.mp hd with rfl | hd
    · exact hspec.arenaN.trans (hr.arena c (by simp))
    · exact (hold d (List.mem_append_right _ hd)).2.2

/-- A block and the free one after it. -/
def Cell.merge (c n : Cell) : Cell := { c with size := c.size + (48 + n.size) }

theorem coalesceNext_hasBlocks {n : Cell} (hr : HasBlocks h (l ++ c :: n :: r)) (hok : CellsOk (l ++ c :: n :: r))
    (hfree : n.owner = none) (harena : c.arena = n.arena) (hadj : n.addr = c.stop) :
    HasBlocks (coalesceNext c.addr h) (l ++ c.merge n :: r) ∧ KeptPayloads h (coalesceNext c.addr h) (l ++ r) := by
  have hsizeC := hr.size c (by simp)
  have hsizeN := hr.size n (by simp)
  have hrn : HasBlocks h ((l ++ [c]) ++ n :: r) := by rwa [List.append_assoc]
  have hokn : CellsOk ((l ++ [c]) ++ n :: r) := by rwa [List.append_assoc]
  have hnext0 := hokn.next_out (r := r) rfl
  have hoke : ∀ e ∈ r.head?, c.Apart e := fun e he => hok.apart_middle (by simp [List.mem_of_mem_head? he])
  have hcan : blocksCanCoalesce h.mem c.addr n.addr = true := by
    have hfreeN := hr.free n (by simp)
    rw [if_pos hfree] at hfreeN
    have hend : c.addr + 48 + c.size = n.addr := hadj.symm
    simp [blocksCanCoalesce, blocksAreAdjacent, hok.nonzero c (by simp), hok.nonzero n (by simp), hfreeN,
      hr.arena c (by simp), hr.arena n (by simp), harena, hsizeC, headerSize_eq, hend]
  have hspec : CoalesceSpec h (coalesceNext c.addr h) c.addr (firstNode (r.map Cell.addr) 0) := by
    refine coalesceNext_spec (n := n.addr) hr.next hcan hrn.next fun h0 => ?_
    obtain ⟨e, he, hnext, hapart⟩ := hnext0 h0
    have hapartC := hoke e he
    unfold Cell.Apart Cell.stop at *
    omega
  have hmem : blockSize h.mem (c.addr + 48 + blockSize h.mem c.addr) = n.size := by
    rw [hsizeC, ← hsizeN, hadj, Cell.stop]
  have hkept : Kept h (coalesceNext c.addr h) c.addr n.stop r := by
    intro a ha hhead
    unfold Cell.stop at ha hadj
    refine hspec.other a (by omega) (by omega) ?_
    cases r with
    | nil => exact .inl rfl
    | cons e r => exact .inr (hhead e rfl)
  have hokr : CellsOk (l ++ r) := by
    have hremove := hokn.remove
    rw [List.append_assoc] at hremove
    exact hremove.remove
  have hout : ∀ d ∈ l ++ r, d.stop ≤ c.addr ∨ n.stop ≤ d.addr := by
    intro d hd
    have hapartC := hok.apart_middle (d := d) (mem_remove hd)
    have hapartN := hokn.apart_middle (d := d) (by rw [List.append_assoc]; exact mem_remove hd)
    unfold Cell.Apart Cell.stop at *
    omega
  refine ⟨?_, hkept.payloads hokr hout⟩
  obtain ⟨hfields, hprevs⟩ := hkept.fields hokr hout
  have hheader : ∀ k, k = 8 ∨ k = 24 ∨ k = 32 → (coalesceNext c.addr h).mem (c.addr + k) = h.mem (c.addr + k) := by
    intro k hk
    refine hspec.other _ (by omega) (by omega) ?_
    by_cases h0 : firstNode (r.map Cell.addr) 0 = 0
    · exact .inl h0
    · obtain ⟨e, he, hnext, -⟩ := hnext0 h0
      have hapartC := hoke e he
      unfold Cell.Apart Cell.stop at hapartC
      omega
  have hlinked := hr.linked
  rw [List.map_append, List.map_cons, List.map_cons] at hlinked
  have hold := hr.congr_fields (fun d hd => mem_remove (mem_remove hd)) _ hfields
  obtain ⟨hhead, htail, -⟩ := hspec.globals
  constructor
  case linked =>
    rw [List.map_append, List.map_cons]
    refine hlinked.remove (hspec.nextB.trans hrn.next.symm) (fun a ha => ?_) (fun a ha => ?_) fun a ha => ?_
    · rw [List.head?_map] at ha
      obtain ⟨e, he, rfl⟩ := Option.map_eq_some_iff.mp ha
      have hprev := hspec.prevNext
      rw [firstNode_of_head he] at hprev
      exact hprev (hok.nonzero e (by simp [List.mem_of_mem_head? he]))
    · rw [← List.map_append, List.mem_map] at ha
      obtain ⟨d, hd, rfl⟩ := ha
      exact (hfields d hd).2.2.2
    · rw [List.append_assoc, List.mem_append, List.mem_append, List.mem_singleton, ← List.map_tail] at ha
      rcases ha with ha | rfl | ha
      · obtain ⟨d, hd, rfl⟩ := List.mem_map.mp ha
        exact hprevs d (List.mem_append_left _ hd)
      · exact hheader 24 (by omega)
      · obtain ⟨d, hd, rfl⟩ := List.mem_map.mp ha
        exact hprevs d (List.mem_append_right _ hd)
  case head =>
    rw [hhead, hr.head]
    simp only [List.map_append, List.map_cons, firstNode_append, firstNode_cons, Cell.merge]
  case tail =>
    rw [htail, hr.tail]
    simp only [List.map_append, List.map_cons, lastNode_append, lastNode_cons]
    cases r with
    | nil => rfl
    | cons e r =>
      have he : e.addr ≠ 0 := hok.nonzero e (by simp)
      rw [List.map_cons, firstNode_cons, if_neg he, lastNode_cons, lastNode_cons]
  case size =>
    intro d hd
    rcases List.mem_append.mp hd with hd | hd
    · exact (hold d (List.mem_append_left _ hd)).1
    rcases List.mem_cons.mp hd with rfl | hd
    · refine hspec.sizeB.trans ?_
      rw [hmem, hsizeC, Cell.merge]
    · exact (hold d (List.mem_append_right _ hd)).1
  case free =>
    intro d hd
    rcases List.mem_append.mp hd with hd | hd
    · exact (hold d (List.mem_append_left _ hd)).2.1
    rcases List.mem_cons.mp hd with rfl | hd
    · exact (hheader 8 (by omega)).trans (hr.free c (by simp))
    · exact (hold d (List.mem_append_right _ hd)).2.1
  case arena =>
    intro d hd
    rcases List.mem_append.mp hd with hd | hd
    · exact (hold d (List.mem_append_left _ hd)).2.2
    rcases List.mem_cons.mp hd with rfl | hd
    · exact (hheader 32 (by omega)).trans (hr.arena c (by simp))
    · exact (hold d (List.mem_append_right _ hd)).2.2

/-- A block that does not coalesce with the next one. -/
theorem coalesceNext_none (hr : HasBlocks h (l ++ c :: r))
    (hno : ∀ e ∈ r.head?, e.owner ≠ none ∨ c.arena ≠ e.arena ∨ e.addr ≠ c.stop) : coalesceNext c.addr h = h := by
  have hcannot : ¬blocksCanCoalesce h.mem c.addr (blockNext h.mem c.addr) = true := by
    rw [hr.next]
    cases r with
    | nil => simp [blocksCanCoalesce]
    | cons e r =>
      have hfree := hr.free e (by simp)
      have hsize := hr.size c (by simp)
      rcases hno e rfl with hno | hno | hno
      · rw [if_neg hno] at hfree
        simp [blocksCanCoalesce, hfree]
      · simp [blocksCanCoalesce, hr.arena c (by simp), hr.arena e (by simp), hno]
      · have hne : ¬c.addr + 48 + c.size = e.addr := fun heq => hno heq.symm
        simp [blocksCanCoalesce, blocksAreAdjacent, headerSize_eq, hsize, hne]
  unfold coalesceNext
  exact if_neg hcannot

theorem setFree_hasBlocks (hr : HasBlocks h (l ++ c :: r)) (hok : CellsOk (l ++ c :: r)) (owner : Option Nat) :
    HasBlocks (h.setFree c.addr (if owner = none then 1 else 0)) (l ++ { c with owner } :: r) ∧
      KeptPayloads h (h.setFree c.addr (if owner = none then 1 else 0)) (l ++ c :: r) := by
  have hother : ∀ a, a ≠ c.addr + 8 → (h.setFree c.addr (if owner = none then 1 else 0)).mem a = h.mem a :=
    fun a ha => Function.update_of_ne ha _ _
  have hmap : (l ++ { c with owner } :: r).map Cell.addr = (l ++ c :: r).map Cell.addr := by simp
  have haddr : ∀ d ∈ l ++ r, d.addr + 48 + d.size ≤ c.addr ∨ c.addr + 48 ≤ d.addr := by
    intro d hd
    have hapart := hok.apart_middle hd
    unfold Cell.Apart Cell.stop at hapart
    omega
  have hword : ∀ d ∈ l ++ c :: r, ∀ k < 48 + d.size, k ≠ 8 →
      (h.setFree c.addr (if owner = none then 1 else 0)).mem (d.addr + k) = h.mem (d.addr + k) := by
    intro d hd k hk h8
    refine hother _ ?_
    rcases List.mem_append.mp hd with hd | hd
    · have := haddr d (List.mem_append_left _ hd)
      omega
    rcases List.mem_cons.mp hd with rfl | hd
    · omega
    · have := haddr d (List.mem_append_right _ hd)
      omega
  have hback : ∀ d ∈ l ++ { c with owner } :: r, ∃ d' ∈ l ++ c :: r,
      d'.addr = d.addr ∧ d'.size = d.size ∧ d'.arena = d.arena := by
    intro d hd
    rcases List.mem_append.mp hd with hd | hd
    · exact ⟨d, List.mem_append_left _ hd, rfl, rfl, rfl⟩
    rcases List.mem_cons.mp hd with rfl | hd
    · exact ⟨c, by simp, rfl, rfl, rfl⟩
    · exact ⟨d, List.mem_append_right _ (List.mem_cons_of_mem c hd), rfl, rfl, rfl⟩
  refine ⟨?_, fun d hd k h48 hk => hword d hd k hk (by omega)⟩
  constructor
  case linked =>
    rw [hmap]
    refine hr.linked.congr (fun a ha => ?_) fun a ha => ?_
    · obtain ⟨d, hd, rfl⟩ := List.mem_map.mp ha
      exact hword d hd 16 (by omega) (by omega)
    · obtain ⟨d, hd, rfl⟩ := List.mem_map.mp ha
      exact hword d hd 24 (by omega) (by omega)
  case head => exact hr.head.trans (by rw [hmap])
  case tail => exact hr.tail.trans (by rw [hmap])
  case size =>
    intro d hd
    obtain ⟨d', hd', haddr', hsize, -⟩ := hback d hd
    rw [← haddr', ← hsize, ← hr.size d' hd']
    exact hword d' hd' 0 (by omega) (by omega)
  case free =>
    intro d hd
    have hkept : ∀ e ∈ l ++ r, (h.setFree c.addr (if owner = none then 1 else 0)).mem (e.addr + 8) =
      h.mem (e.addr + 8) := by
      intro e he
      have := haddr e he
      exact hother _ (by omega)
    rcases List.mem_append.mp hd with hd | hd
    · exact (hkept d (List.mem_append_left _ hd)).trans (hr.free d (List.mem_append_left _ hd))
    rcases List.mem_cons.mp hd with rfl | hd
    · exact Function.update_self _ _ _
    · exact (hkept d (List.mem_append_right _ hd)).trans (hr.free d (by simp [hd]))
  case arena =>
    intro d hd
    obtain ⟨d', hd', haddr', -, harena⟩ := hback d hd
    rw [← haddr', ← harena, ← hr.arena d' hd']
    exact hword d' hd' 32 (by omega) (by omega)

/-- A new arena is a block at the end of the list. -/
theorem extendHeap_hasBlocks {payload pages b : Nat} {pmm : Pmm} (hr : HasBlocks h cs) (hok : CellsOk cs)
    (hpages : pageCountForPayload payload = pages) (h0 : pages ≠ 0) (halloc : pmmAllocPages pages h.pmm = (b, pmm))
    (hb : b ≠ 0) (hout : ∀ d ∈ cs, d.stop ≤ b ∨ b + 48 ≤ d.addr) :
    (extendHeap payload h).1 = b ∧
      HasBlocks (extendHeap payload h).2 (cs ++ [⟨b, pages * pageSize - 48, none, h.nextArenaId⟩]) ∧
      KeptPayloads h (extendHeap payload h).2 cs ∧
      (extendHeap payload h).2.totalBytes = h.totalBytes + (pages * pageSize - 48) ∧
      (extendHeap payload h).2.nextArenaId = h.nextArenaId + 1 ∧ (extendHeap payload h).2.pmm = pmm := by
  have htail0 : h.tail ≠ 0 → ∃ e, cs.getLast? = some e ∧ h.tail = e.addr := by
    intro ht
    rw [hr.tail] at ht ⊢
    rcases List.eq_nil_or_concat cs with rfl | ⟨front, e, rfl⟩
    · exact absurd rfl ht
    · exact ⟨e, by simp, by simp⟩
  obtain ⟨hblock, hspec⟩ := extendHeap_spec hpages h0 halloc hb fun ht => by
    obtain ⟨e, he, htail⟩ := htail0 ht
    have := hout e (List.mem_of_getLast? he)
    unfold Cell.stop at this
    omega
  -- all that is written in older blocks is the link of the last one
  have hword : ∀ d ∈ cs, ∀ k < 48 + d.size, (k ≠ 16 ∨ cs.getLast? ≠ some d) →
      (extendHeap payload h).2.mem (d.addr + k) = h.mem (d.addr + k) := by
    intro d hd k hk hne
    have hapart := hout d hd
    unfold Cell.stop at hapart
    refine hspec.other _ (by omega) ?_
    by_cases ht : h.tail = 0
    · exact .inl ht
    refine .inr ?_
    obtain ⟨e, he, htail⟩ := htail0 ht
    rw [htail]
    by_cases hde : d = e
    · rcases hne with h16 | hlast
      · rw [hde]
        omega
      · exact absurd (hde ▸ he) hlast
    · have := hok.apart_of_ne hd (List.mem_of_getLast? he) hde
      unfold Cell.Apart Cell.stop at this
      omega
  obtain ⟨hhead, htail, hglobals⟩ := hspec.globals
  refine ⟨hblock, ?_, fun d hd k h48 hk => hword d hd k hk (.inl (by omega)), hglobals⟩
  constructor
  case linked =>
    rw [List.map_append, List.map_singleton]
    refine hr.linked.snoc (fun a ha => ?_) hspec.nextB (by rw [← hr.tail, hspec.prevB]) (fun a ha => ?_) fun a ha => ?_
    · rw [List.getLast?_map] at ha
      obtain ⟨e, he, rfl⟩ := Option.map_eq_some_iff.mp ha
      have htailE : h.tail = e.addr := by
        rw [hr.tail, lastNode, List.getLast?_map, he]
        rfl
      have hnext := hspec.nextTail
      rw [htailE] at hnext
      exact hnext (hok.nonzero e (List.mem_of_getLast? he))
    · rw [← List.map_dropLast] at ha
      obtain ⟨d, hd, rfl⟩ := List.mem_map.mp ha
      refine hword d ((List.dropLast_sublist cs).subset hd) 16 (by omega) (.inr fun hlast => ?_)
      -- a block is not twice in the list
      have hsplit := List.dropLast_append_getLast? d hlast
      rw [← hsplit] at hok
      have hapart := (List.pairwise_append.mp hok.apart).2.2 d hd d (by simp)
      unfold Cell.Apart Cell.stop at hapart
      omega
    · obtain ⟨d, hd, rfl⟩ := List.mem_map.mp ha
      exact hword d hd 24 (by omega) (.inl (by omega))
  case head =>
    rw [hhead, hr.head, List.map_append, firstNode_append]
    cases cs with
    | nil => simp [hr.tail]
    | cons c cs =>
      have htail : h.tail ≠ 0 := by
        rw [hr.tail, lastNode, List.getLast?_map]
        obtain ⟨e, he⟩ := Option.ne_none_iff_exists'.mp (mt List.getLast?_eq_none_iff.mp (List.cons_ne_nil c cs))
        rw [he]
        exact hok.nonzero e (List.mem_of_getLast? he)
      rw [if_neg htail]
      rfl
  case tail => rw [htail, List.map_append, List.map_singleton, lastNode_append_singleton]
  case size =>
    refine List.forall_mem_append.mpr ⟨fun d hd => ?_, fun d hd => ?_⟩
    · exact (hword d hd 0 (by omega) (.inl (by omega))).trans (hr.size d hd)
    · obtain rfl := List.mem_singleton.mp hd
      exact hspec.sizeB
  case free =>
    refine List.forall_mem_append.mpr ⟨fun d hd => ?_, fun d hd => ?_⟩
    · exact (hword d hd 8 (by omega) (.inl (by omega))).trans (hr.free d hd)
    · obtain rfl := List.mem_singleton.mp hd
      exact hspec.freeB
  case arena =>
    refine List.forall_mem_append.mpr ⟨fun d hd => ?_, fun d hd => ?_⟩
    · exact (hword d hd 32 (by omega) (.inl (by omega))).trans (hr.arena d hd)
    · obtain rfl := List.mem_singleton.mp hd
      exact hspec.arenaB

end Armonios
