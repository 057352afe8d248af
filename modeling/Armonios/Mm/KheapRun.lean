import Mathlib.Data.List.Perm.Subperm
import Armonios.Lib.Run
import Armonios.Mm.KheapCalls

/-!
# Runs of the kernel heap

Any sequence of `kheap_init`, `kmalloc` and `kfree` of live pointers, with everything that happens in between: users
write to what they were given and to memory that is not the heap's, and others take and give pages, so that an
allocation of pages can fail at any time. A call returns what its walk ends with (`Ends`).

* `kheap`: what holds in every state of every run.
-/

namespace Armonios

/-- The heap, the live pointers with the size that was asked for, and the pages that the heap got. -/
structure KheapState where
  heap : Kheap
  live : Nat → Option Nat
  pages : Set Nat

/-- Before the first call. -/
structure KheapStart (s : KheapState) : Prop where
  head : s.heap.head = 0
  tail : s.heap.tail = 0
  totalBytes : s.heap.totalBytes = 0
  pmm : PmmOk s.heap.pmm
  live : ∀ p, s.live p = none
  pages : s.pages = ∅

/-- What a user can write to: a word of a live payload, or one outside of the heap. -/
def KheapState.Writable (s : KheapState) (a : Nat) : Prop :=
  (∃ p n, s.live p = some n ∧ p ≤ a ∧ a < p + n) ∨ ∀ page ∈ s.pages, a < page ∨ page + pageSize ≤ a

/-- The state after a call that returned `h'`. -/
def KheapState.after (s : KheapState) (h' : Kheap) (live : Nat → Option Nat) : KheapState :=
  ⟨h', live, s.pages ∪ (freePages s.heap.pmm \ freePages h'.pmm)⟩

inductive KheapStep : KheapState → KheapState → Prop
  | init (s : KheapState) : KheapStep s (s.after (kheapInit s.heap) s.live)
  | fails (s : KheapState) (size : Nat) (h' : Kheap) : Ends (fun fuel => kmalloc fuel size s.heap) (0, h') →
      KheapStep s (s.after h' s.live)
  | kmalloc (s : KheapState) (size p : Nat) (h' : Kheap) : Ends (fun fuel => kmalloc fuel size s.heap) (p, h') → p ≠ 0 →
      KheapStep s (s.after h' (Function.update s.live p (some size)))
  | kfree (s : KheapState) (p n : Nat) : s.live p = some n →
      KheapStep s (s.after (kfree p s.heap) (Function.update s.live p none))
  | write (s : KheapState) (mem : Words) : (∀ a, mem a ≠ s.heap.mem a → s.Writable a) →
      KheapStep s { s with heap := { s.heap with mem } }
  | pmm (s : KheapState) (pmm : Pmm) : PmmOk pmm → s.pages ⊆ managed pmm → (∀ a ∈ s.pages, a ∉ freePages pmm) →
      KheapStep s { s with heap := { s.heap with pmm } }

/-- What holds in every state of a run, with the arenas of the heap. -/
structure KheapOk (s : KheapState) (arenas : Arenas) : Prop where
  inv : KheapInv s.heap arenas
  live : ∀ p n, s.live p = some n ↔ IsLive (cells arenas) p n
  pages : s.pages = heapPages arenas

variable {s t : KheapState} {arenas : Arenas} {c : Cell} {p q n k : Nat}

theorem KheapStart.ok (h : KheapStart s) : KheapOk s [] := by
  have hpages : heapPages [] = ∅ := by simp [heapPages]
  refine ⟨⟨⟨trivial, h.head, h.tail, ?_, ?_, ?_⟩, ⟨⟨?_, ?_, .nil⟩, ?_⟩, ?_, h.totalBytes, h.pmm, ?_, ?_⟩, ?_, ?_⟩
  all_goals simp [cells, hpages, h.live, h.pages, IsLive]

/-! ## Steps -/

/-- A header is not writable, whoever has the blocks. -/
theorem KheapOk.header (hok : KheapOk s arenas) (hc : c ∈ cells arenas) (hk : k < 48) : ¬s.Writable (c.addr + k) := by
  rintro (⟨p, n, hlive, hle, hlt⟩ | hout)
  · obtain ⟨d, hd, howner, rfl⟩ := (hok.live p n).mp hlive
    obtain ⟨x, hx, hdx⟩ := mem_cells.mp hd
    have hfits := (hok.inv.ok.tiled x hx).fits d hdx n howner
    by_cases hcd : c = d
    · rw [hcd] at hle
      omega
    · have hapart := hok.inv.ok.cellsOk.apart_of_ne hc hd hcd
      unfold Cell.Apart Cell.stop at hapart
      omega
  · obtain ⟨x, hx, hcx⟩ := mem_cells.mp hc
    have hwithin := (hok.inv.ok.tiled x hx).within hcx
    unfold Cell.stop Arena.stop at hwithin
    have hpage : x.1.start + (c.addr + k - x.1.start) / pageSize * pageSize ∈ s.pages := by
      rw [hok.pages]
      refine ⟨x.1, List.mem_map.mpr ⟨x, hx, rfl⟩, ?_⟩
      rw [pagesOf_mul]
      refine List.mem_map.mpr ⟨_, List.mem_range.mpr ?_, rfl⟩
      unfold pageSize at *
      omega
    have := hout _ hpage
    unfold pageSize at *
    omega

theorem HasBlocks.congr_mem {h : Kheap} {cs : List Cell} {mem : Words} (hr : HasBlocks h cs)
    (hmem : ∀ c ∈ cs, ∀ k < 48, mem (c.addr + k) = h.mem (c.addr + k)) : HasBlocks { h with mem } cs := by
  constructor
  case linked =>
    refine hr.linked.congr (fun a ha => ?_) fun a ha => ?_
    · obtain ⟨d, hd, rfl⟩ := List.mem_map.mp ha
      exact hmem d hd 16 (by omega)
    · obtain ⟨d, hd, rfl⟩ := List.mem_map.mp ha
      exact hmem d hd 24 (by omega)
  case head => exact hr.head
  case tail => exact hr.tail
  case size => exact fun c hc => (hmem c hc 0 (by omega)).trans (hr.size c hc)
  case free => exact fun c hc => (hmem c hc 8 (by omega)).trans (hr.free c hc)
  case arena => exact fun c hc => (hmem c hc 32 (by omega)).trans (hr.arena c hc)

theorem GotPages.kheapOk {h' : Kheap} {arenas' : Arenas} (hok : KheapOk s arenas) (h : GotPages s.heap h' arenas arenas') :
    KheapOk (s.after h' s.live) arenas' := by
  refine ⟨h.inv, fun p n => ?_, by rw [h.pages, ← hok.pages]; rfl⟩
  rw [← isLive_given, h.given, isLive_given]
  exact hok.live p n

theorem KheapOk.step (hok : KheapOk s arenas) (hstep : KheapStep s t) : ∃ arenas', KheapOk t arenas' := by
  cases hstep with
  | init =>
    obtain ⟨arenas', hgot⟩ := kheapInit_gotPages hok.inv
    exact ⟨arenas', hgot.kheapOk hok⟩
  | fails size h' hends =>
    obtain ⟨p, h'', arenas', hends', hcase⟩ := kmalloc_spec hok.inv size
    obtain ⟨rfl, rfl⟩ := Prod.mk.inj (hends.unique hends')
    rcases hcase with ⟨-, hgot⟩ | hgave
    · exact ⟨arenas', hgot.kheapOk hok⟩
    · exact absurd rfl hgave.nonzero
  | kmalloc size p h' hends h0 =>
    obtain ⟨p', h'', arenas', hends', hcase⟩ := kmalloc_spec hok.inv size
    obtain ⟨rfl, rfl⟩ := Prod.mk.inj (hends.unique hends')
    obtain hgave := hcase.resolve_left fun hnull => h0 hnull.1
    refine ⟨arenas', hgave.inv, fun q n => ?_, by rw [hgave.pages, ← hok.pages]; rfl⟩
    rw [hgave.live]
    unfold KheapState.after
    dsimp only
    by_cases hq : q = p
    · rw [hq, Function.update_self]
      have := hgave.new n
      simp only [Option.some.injEq, this, true_and, false_or]
      exact eq_comm
    · rw [Function.update_of_ne hq, hok.live]
      simp [hq]
  | kfree p n hlive =>
    obtain ⟨arenas', htook⟩ := kfree_spec hok.inv ((hok.live p n).mp hlive)
    refine ⟨arenas', htook.inv, fun q k => ?_, ?_⟩
    · rw [htook.live]
      unfold KheapState.after
      dsimp only
      by_cases hq : q = p
      · simp [hq]
      · rw [Function.update_of_ne hq, hok.live]
        simp [hq]
    · unfold KheapState.after
      dsimp only
      rw [htook.pages, htook.pmm, hok.pages]
      simp
  | write mem hmem =>
    have hkept : ∀ c ∈ cells arenas, ∀ k < 48, mem (c.addr + k) = s.heap.mem (c.addr + k) := by
      intro c hc k hk
      by_contra hne
      exact hok.header hc hk (hmem _ hne)
    exact ⟨arenas, { hok.inv with hasBlocks := hok.inv.hasBlocks.congr_mem hkept }, hok.live, hok.pages⟩
  | pmm pmm hpmm hmanaged hused =>
    rw [hok.pages] at hmanaged hused
    have hrep : HasBlocks { s.heap with pmm } (cells arenas) := { hok.inv.hasBlocks with }
    exact ⟨arenas, ⟨hrep, hok.inv.ok, hok.inv.ids, hok.inv.total, hpmm, hmanaged, hused⟩, hok.live, hok.pages⟩

theorem KheapOk.run (hok : KheapOk s arenas) (hrun : Run KheapStep s t) : ∃ arenas', KheapOk t arenas' := by
  refine hrun.invariant (fun s => ∃ arenas, KheapOk s arenas) (fun s t hs hstep => ?_) ⟨arenas, hok⟩
  obtain ⟨arenas, hok⟩ := hs
  exact hok.step hstep

/-! ## Everything freed -/

theorem freeBytesFrom_ends {h : Kheap} {l r : List Cell} (hr : HasBlocks h (l ++ r)) (hok : CellsOk (l ++ r)) :
    Ends (fun fuel => freeBytesFrom h.mem fuel (firstNode (r.map Cell.addr) 0))
      (r.map fun c => if c.owner = none then c.size else 0).sum := by
  induction r generalizing l with
  | nil =>
    refine ⟨0, fun fuel hfuel => ?_⟩
    obtain ⟨fuel, rfl⟩ := Nat.exists_eq_succ_of_ne_zero (Nat.ne_of_gt hfuel)
    exact if_pos rfl
  | cons c r ih =>
    obtain ⟨k, hk⟩ := ih (l := l ++ [c]) (by simpa using hr) (by simpa using hok)
    refine ⟨k + 1, fun fuel hfuel => ?_⟩
    obtain ⟨fuel, rfl⟩ := Nat.exists_eq_succ_of_ne_zero (Nat.ne_zero_of_lt hfuel)
    have hrest := hk fuel (by omega)
    have hfree := hr.free c (by simp)
    dsimp only at hrest ⊢
    rw [List.map_cons, firstNode_cons, freeBytesFrom, if_neg (hok.nonzero c (by simp)), hr.next, hrest, hfree,
      hr.size c (by simp)]
    by_cases hc : c.owner = none <;> simp [hc]

/-- An arena of which no block was given out is one block. -/
theorem free_arena {x : Arena × List Cell} (hplaced : x.1.Placed) (htiled : Tiled x.1 x.2)
    (hchain : x.2.IsChain Cell.NotBothFree) (hfree : ∀ c ∈ x.2, c.owner = none) :
    (x.2.map fun c => if c.owner = none then c.size else 0).sum = x.1.pages * pageSize - 48 := by
  obtain ⟨A, l⟩ := x
  have hpages := hplaced.pages
  have htiles := htiled.tiles
  dsimp only at *
  rcases l with _ | ⟨c, _ | ⟨d, l⟩⟩
  · unfold Tiles Arena.stop pageSize at htiles
    omega
  · unfold Tiles Tiles Arena.stop Cell.stop at htiles
    simp only [List.map_cons, List.map_nil, List.sum_cons, List.sum_nil, if_pos (hfree c List.mem_cons_self)]
    omega
  · rcases (List.isChain_cons_cons.mp hchain).1 with hc | hd
    · exact absurd (hfree c (by simp)) hc
    · exact absurd (hfree d (by simp)) hd

theorem free_arenas (hok : HeapOk arenas) (hfree : ∀ c ∈ cells arenas, c.owner = none) :
    ((cells arenas).map fun c => if c.owner = none then c.size else 0).sum =
      (arenas.map fun x => x.1.pages * pageSize - 48).sum := by
  have heach : ∀ x ∈ arenas, (x.2.map fun c => if c.owner = none then c.size else 0).sum = x.1.pages * pageSize - 48 :=
    fun x hx => free_arena (hok.placed x hx) (hok.tiled x hx) (hok.chain x hx) fun c hc => hfree c
      (mem_cells.mpr ⟨x, hx, hc⟩)
  rw [← List.map_congr_left heach]
  unfold cells
  clear hok hfree heach
  induction arenas with
  | nil => rfl
  | cons x arenas ih => rw [List.flatMap_cons, List.map_append, List.sum_append, ih, List.map_cons, List.sum_cons]

/-- The pages of the arenas are different pages of the allocator. -/
theorem KheapInv.total_le {h : Kheap} (hinv : KheapInv h arenas) : h.totalBytes ≤ 2 ^ 48 := by
  have hnodup : (arenas.flatMap fun x => pagesOf x.1.start (x.1.pages * pageSize)).Nodup := by
    refine List.nodup_flatMap.mpr ⟨fun x _ => pagesOf_nodup .., hinv.ok.apart.imp ?_⟩
    rintro x y ⟨-, hapart⟩ a ha hb
    simp only [pagesOf_mul, List.mem_map, List.mem_range] at ha hb
    obtain ⟨i, hi, rfl⟩ := ha
    obtain ⟨j, hj, heq⟩ := hb
    unfold Arena.stop pageSize at *
    omega
  have hsub : (arenas.flatMap fun x => pagesOf x.1.start (x.1.pages * pageSize)) ⊆
      (List.range h.pmm.totalPages).map (pageAddr h.pmm) := by
    intro a ha
    obtain ⟨x, hx, hax⟩ := List.mem_flatMap.mp ha
    obtain ⟨page, hpage, rfl⟩ := hinv.managed ⟨x.1, List.mem_map.mpr ⟨x, hx, rfl⟩, hax⟩
    exact List.mem_map.mpr ⟨page, List.mem_range.mpr hpage, rfl⟩
  have hlength := (List.subperm_of_subset hnodup hsub).length_le
  rw [List.length_map, List.length_range] at hlength
  have hsum : (arenas.map fun x => x.1.pages * pageSize - 48).sum ≤
      (arenas.flatMap fun x => pagesOf x.1.start (x.1.pages * pageSize)).length * pageSize := by
    clear hinv hnodup hsub hlength
    induction arenas with
    | nil => simp
    | cons x arenas ih =>
      simp only [List.map_cons, List.sum_cons, List.flatMap_cons, List.length_append, pagesOf_mul, List.length_map,
        List.length_range] at ih ⊢
      unfold pageSize at *
      omega
  have hbound := hinv.pmm.bound
  have htotal := hinv.total
  unfold pageSize at *
  omega

/-! ## Every run -/

/-- A call that returned `h'` changed no live payload, except that at `p`. -/
def KheapState.KeepsOthers (s : KheapState) (h' : Kheap) (p : Nat) : Prop :=
  ∀ q n a, q ≠ p → s.live q = some n → q ≤ a → a < q + n → h'.mem a = s.heap.mem a

/-- What holds between two calls. -/
structure KheapSound (s : KheapState) : Prop where
  /-- The headers are those of blocks that tile the arenas, no two neighbours of an arena are free, and what was given out
  is as large as asked (`HeapOk`). -/
  blocks : ∃ arenas, HasBlocks s.heap (cells arenas) ∧ HeapOk arenas ∧ s.pages = heapPages arenas ∧
    ∀ p n, s.live p = some n ↔ IsLive (cells arenas) p n
  pages : s.pages ⊆ managed s.heap.pmm ∧ ∀ a ∈ s.pages, a ∉ freePages s.heap.pmm
  payload : ∀ p n, s.live p = some n → p % 16 = 0 ∧
    ∀ a, p ≤ a → a < p + n → ∃ page ∈ s.pages, page ≤ a ∧ a < page + pageSize
  apart : ∀ p n q k, s.live p = some n → s.live q = some k → p ≠ q → p + n ≤ q ∨ q + k ≤ p
  init : s.KeepsOthers (kheapInit s.heap) 0
  kmalloc : ∀ size, ∃ p h', Ends (fun fuel => Armonios.kmalloc fuel size s.heap) (p, h') ∧ s.live p = none ∧
    s.KeepsOthers h' p
  kfree : ∀ p n, s.live p = some n → s.KeepsOthers (Armonios.kfree p s.heap) p
  freed : (∀ p, s.live p = none) → Ends (fun fuel => kheapFreeBytes fuel s.heap) (kheapTotalBytes s.heap)
  counted : kheapTotalBytes s.heap ≤ 2 ^ 48

theorem KeptPayloads.keepsOthers {h' : Kheap} {ds : List Cell} (hkept : KeptPayloads s.heap h' ds)
    (hlive : ∀ q n, q ≠ p → s.live q = some n → IsLive ds q n) (hfits : ∀ d ∈ ds, ∀ n ∈ d.owner, n ≤ d.size) :
    s.KeepsOthers h' p := by
  intro q n a hq hqn hle hlt
  obtain ⟨d, hd, howner, rfl⟩ := hlive q n hq hqn
  have := hfits d hd n howner
  have hword := hkept d hd (a - d.addr) (by omega) (by omega)
  rwa [show d.addr + (a - d.addr) = a by omega] at hword

theorem HeapOk.fits (hok : HeapOk arenas) : ∀ d ∈ given (cells arenas), ∀ n ∈ d.owner, n ≤ d.size := by
  intro d hd n hn
  obtain ⟨x, hx, hdx⟩ := mem_cells.mp (mem_given.mp hd).1
  exact (hok.tiled x hx).fits d hdx n hn

theorem KheapOk.sound (hok : KheapOk s arenas) : KheapSound s := by
  have hlive : ∀ p n, s.live p = some n → IsLive (given (cells arenas)) p n :=
    fun p n h => (isLive_given ..).mpr ((hok.live p n).mp h)
  constructor
  case blocks => exact ⟨arenas, hok.inv.hasBlocks, hok.inv.ok, hok.pages, hok.live⟩
  case pages =>
    rw [hok.pages]
    exact ⟨hok.inv.managed, hok.inv.used⟩
  case payload =>
    intro p n hp
    obtain ⟨c, hc, howner, rfl⟩ := (hok.live p n).mp hp
    obtain ⟨x, hx, hcx⟩ := mem_cells.mp hc
    have htiled := hok.inv.ok.tiled x hx
    have hfits := htiled.fits c hcx n howner
    have hwithin := htiled.within hcx
    unfold Cell.stop Arena.stop at hwithin
    refine ⟨by have := (htiled.aligned c hcx).1; omega, fun a hle hlt => ?_⟩
    refine ⟨x.1.start + (a - x.1.start) / pageSize * pageSize, ?_, by unfold pageSize; omega, by unfold pageSize; omega⟩
    rw [hok.pages]
    refine ⟨x.1, List.mem_map.mpr ⟨x, hx, rfl⟩, ?_⟩
    rw [pagesOf_mul]
    refine List.mem_map.mpr ⟨_, List.mem_range.mpr ?_, rfl⟩
    unfold pageSize at *
    omega
  case apart =>
    intro p n q k hp hq hne
    obtain ⟨c, hc, hcn, rfl⟩ := hlive p n hp
    obtain ⟨d, hd, hdk, rfl⟩ := hlive q k hq
    have hcfits := hok.inv.ok.fits c hc n hcn
    have hdfits := hok.inv.ok.fits d hd k hdk
    have hcd : c ≠ d := fun heq => hne (by rw [heq])
    have hapart := hok.inv.ok.cellsOk.apart_of_ne (mem_given.mp hc).1 (mem_given.mp hd).1 hcd
    unfold Cell.Apart Cell.stop at hapart
    omega
  case init =>
    obtain ⟨arenas', hgot⟩ := kheapInit_gotPages hok.inv
    exact hgot.kept.keepsOthers (fun q n _ => hlive q n) hok.inv.ok.fits
  case kmalloc =>
    intro size
    obtain ⟨p, h', arenas', hends, hcase⟩ := kmalloc_spec hok.inv size
    refine ⟨p, h', hends, ?_⟩
    have hnone : ∀ {p}, (∀ n, ¬IsLive (cells arenas) p n) → s.live p = none := by
      intro p hno
      by_contra hsome
      obtain ⟨n, hn⟩ := Option.ne_none_iff_exists'.mp hsome
      exact hno n ((hok.live p n).mp hn)
    rcases hcase with ⟨rfl, hgot⟩ | hgave
    · refine ⟨hnone fun n hn => ?_, hgot.kept.keepsOthers (fun q n _ => hlive q n) hok.inv.ok.fits⟩
      obtain ⟨c, -, -, heq⟩ := hn
      omega
    · exact ⟨hnone hgave.new, hgave.kept.keepsOthers (fun q n _ => hlive q n) hok.inv.ok.fits⟩
  case kfree =>
    intro p n hp
    obtain ⟨arenas', htook⟩ := kfree_spec hok.inv ((hok.live p n).mp hp)
    refine htook.kept.keepsOthers (fun q k hq hqk => ?_) htook.inv.ok.fits
    exact (isLive_given ..).mpr ((htook.live q k).mpr ⟨(hok.live q k).mp hqk, hq⟩)
  case freed =>
    intro hnone
    have hfree : ∀ c ∈ cells arenas, c.owner = none := by
      intro c hc
      by_contra hsome
      obtain ⟨n, hn⟩ := Option.ne_none_iff_exists'.mp hsome
      have hlive := (hok.live (c.addr + 48) n).mpr ⟨c, hc, hn, rfl⟩
      rw [hnone] at hlive
      cases hlive
    have hends := freeBytesFrom_ends (l := []) (r := cells arenas) hok.inv.hasBlocks hok.inv.ok.cellsOk
    rw [free_arenas hok.inv.ok hfree, ← hok.inv.total, ← hok.inv.hasBlocks.head] at hends
    exact hends
  case counted => exact hok.inv.total_le

/-- The heap is sound in every state of every run. -/
theorem kheap (hstart : KheapStart s) (hrun : Run KheapStep s t) : KheapSound t := by
  obtain ⟨arenas, hok⟩ := hstart.ok.run hrun
  exact hok.sound

/-- Four pages and a heap that has no arena. -/
def emptyHeap : KheapState :=
  ⟨⟨fun _ => 0, 0, 0, 0, 1, ⟨4096, 4, fun _ => false, 4, false⟩⟩, fun _ => none, ∅⟩

theorem emptyHeap_start : KheapStart emptyHeap := by
  refine ⟨rfl, rfl, rfl, ⟨by decide, by decide, ?_⟩, fun _ => rfl, rfl⟩
  rintro ⟨page, -, -, h0⟩
  simp only [pageAddr, emptyHeap] at h0
  omega

/-! Two blocks of 100 and 200 bytes, of which the first is freed. -/

theorem firstMalloc_isSome : (kmalloc 8 100 emptyHeap.heap).isSome := by decide +kernel

def firstMalloc : Nat × Kheap := Option.get _ firstMalloc_isSome

def firstHeap : KheapState :=
  emptyHeap.after firstMalloc.2 (Function.update emptyHeap.live firstMalloc.1 (some 100))

theorem secondMalloc_isSome : (kmalloc 8 200 firstHeap.heap).isSome := by decide +kernel

def secondMalloc : Nat × Kheap := Option.get _ secondMalloc_isSome

def secondHeap : KheapState :=
  firstHeap.after secondMalloc.2 (Function.update firstHeap.live secondMalloc.1 (some 200))

def freedHeap : KheapState :=
  secondHeap.after (kfree firstMalloc.1 secondHeap.heap) (Function.update secondHeap.live firstMalloc.1 none)

theorem firstMalloc_ends : Ends (fun fuel => kmalloc fuel 100 emptyHeap.heap) firstMalloc := by
  refine ⟨7, fun fuel h => ?_⟩
  obtain ⟨k, rfl⟩ : ∃ k, fuel = k + 8 := ⟨fuel - 8, by omega⟩
  rfl

theorem secondMalloc_ends : Ends (fun fuel => kmalloc fuel 200 firstHeap.heap) secondMalloc := by
  refine ⟨7, fun fuel h => ?_⟩
  obtain ⟨k, rfl⟩ : ∃ k, fuel = k + 8 := ⟨fuel - 8, by omega⟩
  rfl

theorem freedHeap_run : Run KheapStep emptyHeap freedHeap :=
  .head (.kmalloc emptyHeap 100 _ _ firstMalloc_ends (by decide +kernel))
    (.head (.kmalloc firstHeap 200 _ _ secondMalloc_ends (by decide +kernel))
      (.single (.kfree secondHeap _ 100 (by decide +kernel))))

theorem kheap_freed : freedHeap.live 4144 = none ∧ freedHeap.live 4304 = some 200 ∧ KheapSound freedHeap :=
  ⟨by decide +kernel, by decide +kernel, kheap emptyHeap_start freedHeap_run⟩

end Armonios
