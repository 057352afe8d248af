import Mathlib.Data.List.Chain
import Mathlib.Algebra.Order.Ring.Nat
import Armonios.Lib.Tiling
import Armonios.Mm.KheapBlocks

/-!
# The arenas of the kernel heap

An arena is a run of pages that `extend_heap` got, and its blocks tile it (`Tiled`). `HeapOk` is what holds between
two calls: the arenas are apart, and no two neighbours of one arena are free.

* `takeBlock`, `mergeNext`: what `kmalloc` and `coalesce_next` do to the blocks of an arena.
-/

namespace Armonios

/-- A run of pages of the heap. -/
structure Arena where
  start : Nat
  pages : Nat
  id : Nat

def Arena.stop (A : Arena) : Nat := A.start + A.pages * pageSize

/-- The arenas of a heap with their blocks, in the order of the list. -/
abbrev Arenas := List (Arena × List Cell)

def cells (arenas : Arenas) : List Cell := arenas.flatMap fun x => x.2

def Cell.NotBothFree (c d : Cell) : Prop := c.owner ≠ none ∨ d.owner ≠ none

/-- The blocks tile the arena, and a block that was given out is as large as it has to be. -/
structure Tiled (A : Arena) (l : List Cell) : Prop where
  tiles : Tiles Cell.addr Cell.stop A.start l A.stop
  arena : ∀ c ∈ l, c.arena = A.id
  aligned : ∀ c ∈ l, c.addr % 16 = 0 ∧ c.size % 16 = 0
  fits : ∀ c ∈ l, ∀ n ∈ c.owner, n ≤ c.size

structure Arena.Placed (A : Arena) : Prop where
  nonzero : A.start ≠ 0
  aligned : A.start % pageSize = 0
  pages : A.pages ≠ 0
  bound : A.stop ≤ 2 ^ 48

/-- Different arenas have different ids and no page in common. -/
def ArenasApart (x y : Arena × List Cell) : Prop :=
  x.1.id ≠ y.1.id ∧ (x.1.stop ≤ y.1.start ∨ y.1.stop ≤ x.1.start)

structure HeapTiled (arenas : Arenas) : Prop where
  placed : ∀ x ∈ arenas, x.1.Placed
  tiled : ∀ x ∈ arenas, Tiled x.1 x.2
  apart : arenas.Pairwise ArenasApart

structure HeapOk (arenas : Arenas) : Prop extends HeapTiled arenas where
  chain : ∀ x ∈ arenas, x.2.IsChain Cell.NotBothFree

variable {h h' h'' : Kheap} {A : Arena} {l m r pre post cs : List Cell} {c d n : Cell} {arenas front back : Arenas}
  {size aligned : Nat}

/-! ## The cells of an arena -/

theorem cells_split (front back : Arenas) (A : Arena) (l : List Cell) :
    cells (front ++ (A, l) :: back) = cells front ++ l ++ cells back := by
  simp [cells]

theorem mem_cells : c ∈ cells arenas ↔ ∃ x ∈ arenas, c ∈ x.2 := by
  simp [cells]

theorem exists_arena (hc : c ∈ cells arenas) : ∃ front A l r back, arenas = front ++ (A, l ++ c :: r) :: back := by
  obtain ⟨x, hx, hcx⟩ := mem_cells.mp hc
  obtain ⟨front, back, rfl⟩ := List.append_of_mem hx
  obtain ⟨l, r, hl⟩ := List.append_of_mem hcx
  exact ⟨front, x.1, l, r, back, by rw [← hl]⟩

/-- Where a block of an arena is. -/
theorem Tiled.within (hf : Tiled A l) (hc : c ∈ l) : A.start ≤ c.addr ∧ c.stop ≤ A.stop := by
  obtain ⟨hstart, -, hstop⟩ := hf.tiles.within hc
  exact ⟨hstart, hstop⟩

theorem HeapTiled.cellsOk (hok : HeapTiled arenas) : CellsOk (cells arenas) := by
  constructor
  case apart =>
    unfold cells
    rw [List.pairwise_flatMap]
    constructor
    · exact fun x hx => (hok.tiled x hx).tiles.pairwise.imp .inl
    · refine hok.apart.imp_of_mem fun hx hy hxy c hc d hd => ?_
      have hcin := (hok.tiled _ hx).within hc
      have hdin := (hok.tiled _ hy).within hd
      obtain ⟨-, hapart⟩ := hxy
      unfold Cell.Apart
      have : c.addr ≤ c.stop := by unfold Cell.stop; omega
      have : d.addr ≤ d.stop := by unfold Cell.stop; omega
      omega
  case nonzero =>
    intro c hc
    obtain ⟨x, hx, hcx⟩ := mem_cells.mp hc
    have hin := (hok.tiled x hx).within hcx
    have h0 := (hok.placed x hx).nonzero
    omega
  case small =>
    intro c hc
    obtain ⟨x, hx, hcx⟩ := mem_cells.mp hc
    have hin := (hok.tiled x hx).within hcx
    have hbound := (hok.placed x hx).bound
    unfold Cell.stop at hin
    omega

theorem forall_arenas_replace {P : Arena × List Cell → Prop} (h : ∀ x ∈ front ++ (A, l) :: back, P x) (hm : P (A, m)) :
    ∀ x ∈ front ++ (A, m) :: back, P x := by
  intro x hx
  rcases List.mem_append.mp hx with hx | hx
  · exact h x (by simp [hx])
  rcases List.mem_cons.mp hx with rfl | hx
  · exact hm
  · exact h x (by simp [hx])

/-- Other blocks for an arena. -/
theorem HeapTiled.replace (hok : HeapTiled (front ++ (A, l) :: back)) (hm : Tiled A m) :
    HeapTiled (front ++ (A, m) :: back) := by
  constructor
  · exact forall_arenas_replace hok.placed (hok.placed (A, l) (by simp))
  · exact forall_arenas_replace hok.tiled hm
  · obtain ⟨hfront, hback, hboth⟩ := List.pairwise_append.mp hok.apart
    obtain ⟨hA, hback⟩ := List.pairwise_cons.mp hback
    refine List.pairwise_append.mpr ⟨hfront, List.pairwise_cons.mpr ⟨hA, hback⟩, fun x hx y hy => ?_⟩
    rcases List.mem_cons.mp hy with rfl | hy
    · exact hboth x hx (A, l) List.mem_cons_self
    · exact hboth x hx y (List.mem_cons_of_mem _ hy)

theorem HeapOk.replace (hok : HeapOk (front ++ (A, l) :: back)) (hm : Tiled A m)
    (hchain : m.IsChain Cell.NotBothFree) :
    HeapOk (front ++ (A, m) :: back) :=
  ⟨hok.toHeapTiled.replace hm, forall_arenas_replace hok.chain hchain⟩

/-- The blocks of other arenas have other ids. -/
theorem HeapTiled.other_arena (hok : HeapTiled (front ++ (A, l) :: back)) (hd : d ∈ cells front ∨ d ∈ cells back) :
    d.arena ≠ A.id := by
  obtain ⟨-, hback, hboth⟩ := List.pairwise_append.mp hok.apart
  obtain ⟨hA, -⟩ := List.pairwise_cons.mp hback
  rcases hd with hd | hd
  · obtain ⟨x, hx, hdx⟩ := mem_cells.mp hd
    rw [(hok.tiled x (by simp [hx])).arena d hdx]
    exact (hboth x hx _ List.mem_cons_self).1
  · obtain ⟨x, hx, hdx⟩ := mem_cells.mp hd
    rw [(hok.tiled x (by simp [hx])).arena d hdx]
    exact (hA x hx).1.symm

/-- Other blocks for a part of an arena. -/
theorem Tiled.replace {m' : List Cell} (hf : Tiled A (l ++ m ++ r))
    (htiles : ∀ a b, Tiles Cell.addr Cell.stop a m b → Tiles Cell.addr Cell.stop a m' b)
    (hcells : ∀ c ∈ m', c.arena = A.id ∧ (c.addr % 16 = 0 ∧ c.size % 16 = 0) ∧ ∀ n ∈ c.owner, n ≤ c.size) :
    Tiled A (l ++ m' ++ r) := by
  have hmem : ∀ c ∈ l ++ m' ++ r, c ∈ m' ∨ c ∈ l ++ m ++ r := by
    intro c hc
    simp only [List.mem_append] at hc ⊢
    tauto
  constructor
  · exact hf.tiles.replace htiles
  · intro c hc
    rcases hmem c hc with hm | hold
    · exact (hcells c hm).1
    · exact hf.arena c hold
  · intro c hc
    rcases hmem c hc with hm | hold
    · exact (hcells c hm).2.1
    · exact hf.aligned c hold
  · intro c hc
    rcases hmem c hc with hm | hold
    · exact (hcells c hm).2.2
    · exact hf.fits c hold

/-! ## Taking a block -/

/-- What `kmalloc` makes of a free block. -/
def takeBlock (aligned size : Nat) (c : Cell) : List Cell :=
  if c.size < aligned + 80 then [{ c with owner := some size }]
  else [{ c.front aligned with owner := some size }, c.back aligned]

theorem takeBlock_tiled (hf : Tiled A (l ++ [c] ++ r)) (ha : aligned % 16 = 0) (hsize : size ≤ aligned)
    (hfit : aligned ≤ c.size) : Tiled A (l ++ takeBlock aligned size c ++ r) := by
  have hc : c ∈ l ++ [c] ++ r := by simp
  obtain ⟨haddr, hmod⟩ := hf.aligned c hc
  have harena := hf.arena c hc
  unfold takeBlock
  split
  · refine hf.replace (fun a b hab => hab) ?_
    simp only [List.mem_singleton, forall_eq]
    refine ⟨harena, ⟨haddr, hmod⟩, fun n hn => ?_⟩
    obtain rfl := Option.some.inj hn
    exact hsize.trans hfit
  · refine hf.replace (fun a b hab => ?_) ?_
    · obtain ⟨hstart, -, hstop⟩ := hab
      unfold Tiles Cell.stop at hstop
      unfold Tiles Tiles Tiles Cell.stop Cell.front Cell.back
      dsimp only
      omega
    · simp only [List.mem_cons, List.not_mem_nil, or_false, forall_eq_or_imp, forall_eq]
      refine ⟨⟨harena, ⟨haddr, ha⟩, fun n hn => ?_⟩, harena, ?_, fun n hn => by cases hn⟩
      · obtain rfl := Option.some.inj hn
        exact hsize
      · unfold Cell.back
        dsimp only
        omega

theorem takeBlock_chain (hchain : (l ++ [c] ++ r).IsChain Cell.NotBothFree) (hfree : c.owner = none) :
    (l ++ takeBlock aligned size c ++ r).IsChain Cell.NotBothFree := by
  obtain ⟨hl, hr, hmid⟩ := List.isChain_append.mp hchain
  obtain ⟨hl, -, hlc⟩ := List.isChain_append.mp hl
  -- the block after a free one is not free
  have hnext : ∀ d ∈ r.head?, d.owner ≠ none := by
    intro d hd
    rcases hmid c (by simp) d hd with hc | hd
    · exact absurd hfree hc
    · exact hd
  unfold takeBlock
  split
  · refine List.isChain_append.mpr ⟨List.isChain_append.mpr ⟨hl, .singleton _, ?_⟩, hr, ?_⟩
    · rintro x hx y ⟨⟩
      exact .inr (Option.some_ne_none size)
    · exact fun x _ y hy => .inr (hnext y hy)
  · refine List.isChain_append.mpr ⟨List.isChain_append.mpr ⟨hl, .cons_cons ?_ (.singleton _), ?_⟩, hr, ?_⟩
    · exact .inl (Option.some_ne_none size)
    · rintro x hx y ⟨⟩
      exact .inr (Option.some_ne_none size)
    · exact fun x _ y hy => .inr (hnext y hy)

/-! ## Coalescing -/

def Cell.freed (c : Cell) : Cell := { c with owner := none }

@[simp] theorem Cell.freed_owner (c : Cell) : c.freed.owner = none := by rw [Cell.freed]

@[simp] theorem Cell.freed_addr (c : Cell) : c.freed.addr = c.addr := rfl

theorem Tiled.freed (hf : Tiled A (l ++ c :: r)) : Tiled A (l ++ c.freed :: r) := by
  have hmid : Tiled A (l ++ [c] ++ r) := by simpa using hf
  have hnew : Tiled A (l ++ [c.freed] ++ r) := by
    refine hmid.replace (fun a b hab => hab) ?_
    simp only [List.mem_singleton, forall_eq]
    exact ⟨hf.arena c (by simp), hf.aligned c (by simp), fun n hn => by cases hn⟩
  simpa using hnew

/-- What `coalesce_next` makes of a block and those after it in its arena. -/
def mergeNext (c : Cell) : List Cell → List Cell
  | [] => [c]
  | n :: r => if n.owner = none then c.merge n :: r else c :: n :: r

theorem mergeNext_tiled (hf : Tiled A (l ++ c :: r)) (hc : c.owner = none) : Tiled A (l ++ mergeNext c r) := by
  cases r with
  | nil => exact hf
  | cons n r =>
    simp only [mergeNext]
    split
    · have hmid : Tiled A (l ++ [c, n] ++ r) := by simpa using hf
      suffices hmerge : Tiled A (l ++ [c.merge n] ++ r) by rwa [List.append_assoc] at hmerge
      refine hmid.replace (fun a b hab => ?_) ?_
      · unfold Tiles Tiles Tiles Cell.stop at hab
        unfold Tiles Tiles Cell.stop Cell.merge
        dsimp only
        omega
      · simp only [List.mem_singleton, forall_eq]
        have haligned := hf.aligned c (by simp)
        have halignedN := hf.aligned n (by simp)
        refine ⟨hf.arena c (by simp), ?_, fun k hk => ?_⟩
        · unfold Cell.merge
          dsimp only
          omega
        · exact absurd (hc.symm.trans hk) (Option.some_ne_none k).symm
    · exact hf

theorem mergeNext_chain (hr : r.IsChain Cell.NotBothFree) : (mergeNext c r).IsChain Cell.NotBothFree := by
  cases r with
  | nil => exact .singleton c
  | cons n r =>
    simp only [mergeNext]
    split
    · rename_i hn
      cases r with
      | nil => exact .singleton _
      | cons e r =>
        obtain ⟨hne, hrest⟩ := List.isChain_cons_cons.mp hr
        exact .cons_cons (.inr (hne.resolve_left (not_not.mpr hn))) hrest
    · rename_i hn
      exact .cons_cons (.inr hn) hr

theorem mergeNext_head (c : Cell) (r : List Cell) : ∃ m r', mergeNext c r = m :: r' ∧ m.addr = c.addr ∧
    m.owner = c.owner := by
  cases r with
  | nil => exact ⟨c, [], rfl, rfl, rfl⟩
  | cons n r =>
    simp only [mergeNext]
    split
    · exact ⟨c.merge n, r, rfl, rfl, rfl⟩
    · exact ⟨c, n :: r, rfl, rfl, rfl⟩

end Armonios
