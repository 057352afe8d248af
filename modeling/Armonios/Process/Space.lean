import Armonios.Lib.Owner
import Armonios.Mm.VmmSpec
import Armonios.Process.Regions

/-!
# The pages of one address space

A page that the allocator has handed out to a process is a page of one of its own regions or one of its
tables (`SpaceOwner`). `SpaceOk pool s` says that ownership is exclusive among the pages in `pool`, which are
the free ones and those of this process.

* `SpaceOk.grew`: mapping and unmapping;
* `freeResources_spec`: `process_free_resources` frees what the process owns, each page once.
-/

namespace Armonios

variable {s s' s'' : Space} {pool S : Set Nat} {r : UserRegion} {v' : Vm}

/-- Whether the pages of a region belong to the process. -/
def UserRegion.Owned (r : UserRegion) : Prop := r.flags &&& processUserRegionOwnedPages ≠ 0 ∧ r.paddr ≠ 0

instance : Decidable r.Owned := inferInstanceAs (Decidable (_ ∧ _))

theorem owned_of_flags (hf : r.flags = processUserRegionOwnedPages) (h0 : r.paddr ≠ 0) : r.Owned := by
  refine ⟨?_, h0⟩
  rw [hf]
  decide

/-- The number of pages of a region. -/
def UserRegion.pages (r : UserRegion) : Nat := (r.stop - r.start + pageSize - 1) / pageSize

/-- Who holds a page of a process. -/
inductive SpaceOwner
  /-- The page `i` of a region. -/
  | region (region : UserRegion) (i : Nat)
  /-- The table at a path from the root. -/
  | table (path : List (Fin 512))

/-- The page that an owner holds. -/
def spaceOwn (s : Space) : SpaceOwner → Option Nat
  | .region r i =>
    if r ∈ s.process.userRegions ∧ r.Owned ∧ i < r.pages then some (r.paddr + i * pageSize) else none
  | .table path =>
    if s.process.pageTable ≠ 0 ∧ path.length ≤ 3 then nodeAt (tableChild s.vm.mem) s.process.pageTable path else none

/-- The allocator and one process: ownership is exclusive among the pages in `pool`. -/
structure SpaceOk (pool : Set Nat) (s : Space) : Prop where
  pmm : PmmOk s.vm.pmm
  real : ∀ a ∈ pool, a ∈ managed s.vm.pmm ∧ a ≠ 0
  regions : RegionsOk s.process.userRegions
  own : Exclusive pool (freePages s.vm.pmm) (spaceOwn s)

/-- What a function may do to a process and the allocator: the pages in `pool` change hands. -/
structure SpaceStep (pool : Set Nat) (s s' : Space) : Prop where
  ok : SpaceOk pool s'
  same : SamePool s.vm.pmm s'.vm.pmm
  frame : ∀ t, t ∉ pool → s'.vm.mem t = s.vm.mem t

theorem SpaceStep.refl (h : SpaceOk pool s) : SpaceStep pool s s := ⟨h, .refl _, fun _ _ => rfl⟩

theorem SpaceStep.trans (h : SpaceStep pool s s') (h' : SpaceStep pool s' s'') : SpaceStep pool s s'' :=
  ⟨h'.ok, h.same.trans h'.same, fun t ht => (h'.frame t ht).trans (h.frame t ht)⟩

theorem spaceOwn_region {i a : Nat} : spaceOwn s (.region r i) = some a ↔
    r ∈ s.process.userRegions ∧ r.Owned ∧ i < r.pages ∧ a = r.paddr + i * pageSize := by
  simp only [spaceOwn]
  split
  · rename_i h
    rw [Option.some.injEq]
    exact ⟨fun ha => ⟨h.1, h.2.1, h.2.2, ha.symm⟩, fun ha => ha.2.2.2.symm⟩
  · rename_i h
    exact ⟨fun ha => (by cases ha), fun ha => absurd ⟨ha.1, ha.2.1, ha.2.2.1⟩ h⟩

theorem spaceOwn_table {path : List (Fin 512)} {a : Nat} : spaceOwn s (.table path) = some a ↔
    s.process.pageTable ≠ 0 ∧ path.length ≤ 3 ∧ nodeAt (tableChild s.vm.mem) s.process.pageTable path = some a := by
  simp only [spaceOwn]
  split
  · rename_i h
    exact ⟨fun ha => ⟨h.1, h.2, ha⟩, fun ha => ha.2.2⟩
  · rename_i h
    exact ⟨fun ha => (by cases ha), fun ha => absurd ⟨ha.1, ha.2.1⟩ h⟩

/-- The tree of the process. -/
theorem SpaceOk.table (h : SpaceOk pool s) (h0 : s.process.pageTable ≠ 0) : TableOk s.process.pageTable s.vm := by
  refine ⟨h.pmm, h0, fun p q a hp hq hpa hqa => ?_, ?_⟩
  · have heq := h.own.inj (.table p) (.table q) a (spaceOwn_table.mpr ⟨h0, hp, hpa⟩) (spaceOwn_table.mpr ⟨h0, hq, hqa⟩)
    exact SpaceOwner.table.inj heq
  · rintro a ⟨p, hp, hpa⟩
    exact h.own.apart (.table p) a (spaceOwn_table.mpr ⟨h0, hp, hpa⟩)

theorem SpaceOk.tablePages_subset (h : SpaceOk pool s) (h0 : s.process.pageTable ≠ 0) :
    tablePages s.vm.mem s.process.pageTable ⊆ pool := by
  rintro a ⟨p, hp, hpa⟩
  exact (h.own.cover a).mpr (.inr ⟨.table p, spaceOwn_table.mpr ⟨h0, hp, hpa⟩⟩)

/-- Only the table and the regions with pages of their own matter. -/
theorem spaceOwn_congr {v : Vm} {p p' : Process} (hr : ∀ r, r.Owned → (r ∈ p'.userRegions ↔ r ∈ p.userRegions))
    (ht : p'.pageTable = p.pageTable) : spaceOwn ⟨v, p'⟩ = spaceOwn ⟨v, p⟩ := by
  funext x
  cases x with
  | table path => simp only [spaceOwn, ht]
  | region r i =>
    simp only [spaceOwn]
    by_cases hown : r.Owned
    · simp only [hr r hown]
    · simp only [hown, false_and, and_false]

theorem SpaceOk.congr {v : Vm} {p p' : Process} (h : SpaceOk pool ⟨v, p⟩) (hok : RegionsOk p'.userRegions)
    (hr : ∀ r, r.Owned → (r ∈ p'.userRegions ↔ r ∈ p.userRegions)) (ht : p'.pageTable = p.pageTable) :
    SpaceOk pool ⟨v, p'⟩ := by
  refine ⟨h.pmm, h.real, hok, ?_⟩
  rw [spaceOwn_congr hr ht]
  exact h.own

/-- The tree of the process has grown. -/
theorem SpaceOk.grew (h : SpaceOk pool s) (h0 : s.process.pageTable ≠ 0) (hg : Grew s.process.pageTable s.vm v') :
    SpaceStep pool s { s with vm := v' } := by
  have hok := h.table h0
  have hpages : tablePages v'.mem s.process.pageTable ⊆ pool := by
    intro a ha
    by_cases hold : a ∈ tablePages s.vm.mem s.process.pageTable
    · exact h.tablePages_subset h0 hold
    · exact (h.own.cover a).mpr (.inl (hg.took.were ⟨ha, hold⟩))
  have hown : Exclusive pool (freePages v'.pmm) (spaceOwn { s with vm := v' }) := by
    rw [hg.took.free]
    refine h.own.take hg.took.were ?_ ?_ ?_ ?_
    · rintro (⟨r, i⟩ | p) a ha
      · exact ha
      · obtain ⟨h0, hp, ha⟩ := spaceOwn_table.mp ha
        exact spaceOwn_table.mpr ⟨h0, hp, hg.kept p a hp ha⟩
    · rintro (⟨r, i⟩ | p) a ha
      · exact .inl ha
      · obtain ⟨h0, hp, ha⟩ := spaceOwn_table.mp ha
        by_cases hold : a ∈ tablePages s.vm.mem s.process.pageTable
        · obtain ⟨q, hq, hqa⟩ := hold
          obtain rfl := hg.inj p q a hp hq ha (hg.kept q a hq hqa)
          exact .inl (spaceOwn_table.mpr ⟨h0, hp, hqa⟩)
        · exact .inr ⟨⟨p, hp, ha⟩, hold⟩
    · -- a new table was free, so no region has it
      have hnot : ∀ r i, ∀ a ∈ tablePages v'.mem s.process.pageTable \ tablePages s.vm.mem s.process.pageTable,
          spaceOwn { s with vm := v' } (.region r i) ≠ some a :=
        fun r i a ha hr => h.own.apart (.region r i) a hr (hg.took.were ha)
      rintro (⟨r, i⟩ | p) (⟨q, j⟩ | q) a ha hx hy
      · exact absurd hx (hnot r i a ha)
      · exact absurd hx (hnot r i a ha)
      · exact absurd hy (hnot q j a ha)
      · obtain ⟨-, hp, hpa⟩ := spaceOwn_table.mp hx
        obtain ⟨-, hq, hqa⟩ := spaceOwn_table.mp hy
        rw [hg.inj p q a hp hq hpa hqa]
    · rintro a ⟨⟨p, hp, hpa⟩, -⟩
      exact ⟨.table p, spaceOwn_table.mpr ⟨h0, hp, hpa⟩⟩
  refine ⟨⟨h.pmm.took hg.took, ?_, h.regions, hown⟩, hg.took.pool, fun t ht => hg.frame t fun hp => ht (hpages hp)⟩
  rw [hg.took.pool.managed]
  exact h.real

/-! ## Pages that are set aside -/

/-- Pages are allocated. -/
theorem SpaceOk.took {pmm' : Pmm} (h : SpaceOk pool s) (ht : Took S s.vm.pmm pmm') :
    SpaceOk (pool \ S) { s with vm := { s.vm with pmm := pmm' } } := by
  refine ⟨h.pmm.took ht, fun a ha => ?_, h.regions, ?_⟩
  · rw [ht.pool.managed]
    exact h.real a ha.1
  · show Exclusive _ (freePages pmm') (spaceOwn s)
    rw [ht.free]
    exact h.own.reserve ht.were

/-- Pages that were set aside are freed. -/
theorem SpaceOk.gave {pmm' : Pmm} (h : SpaceOk (pool \ S) s) (hS : S ⊆ pool)
    (hpool : ∀ a ∈ pool, a ∈ managed s.vm.pmm ∧ a ≠ 0) (hg : Gave S s.vm.pmm pmm') :
    SpaceOk pool { s with vm := { s.vm with pmm := pmm' } } := by
  refine ⟨h.pmm.gave hg fun h0 => (hpool 0 (hS h0)).2 rfl, fun a ha => ?_, h.regions, ?_⟩
  · rw [hg.pool.managed]
    exact hpool a ha
  · show Exclusive _ (freePages pmm') (spaceOwn s)
    rw [hg.free, ← Set.sdiff_union_of_subset hS]
    exact h.own.restore fun a ha hp => hp.2 ha

/-- Freeing pages that were set aside. -/
theorem SpaceOk.freeAll {l : List Nat} (h : SpaceOk (pool \ S) s) (hS : S ⊆ pool)
    (hpool : ∀ a ∈ pool, a ∈ managed s.vm.pmm ∧ a ≠ 0) (hl : ∀ a, a ∈ l ↔ a ∈ S) (hnd : l.Nodup) :
    SpaceOk pool { s with vm := { s.vm with pmm := pmmFreeAll l s.vm.pmm } } ∧
      Gave S s.vm.pmm (pmmFreeAll l s.vm.pmm) := by
  have hfree : ∀ a ∈ l, a ∈ managed s.vm.pmm ∧ a ∉ freePages s.vm.pmm ∧ a ≠ 0 := by
    intro a ha
    have haS := (hl a).mp ha
    refine ⟨(hpool a (hS haS)).1, fun hf => ?_, (hpool a (hS haS)).2⟩
    exact ((h.own.cover a).mpr (.inl hf)).2 haS
  have hgave := pmmFreeAll_spec h.pmm hfree hnd
  have hset : {a | a ∈ l} = S := Set.ext hl
  rw [hset] at hgave
  exact ⟨h.gave hS hpool hgave, hgave⟩

/-- The pages of `n * PAGE_SIZE` bytes. -/
def pageSet (paddr n : Nat) : Set Nat := {a | a ∈ pagesOf paddr (n * pageSize)}

theorem mem_pageSet {a paddr n : Nat} : a ∈ pageSet paddr n ↔ ∃ i < n, a = paddr + i * pageSize := by
  show a ∈ pagesOf paddr (n * pageSize) ↔ _
  rw [pagesOf_mul]
  simp only [List.mem_map, List.mem_range, eq_comm]

section Region

variable {v : Vm} {p p' : Process} {l₁ l₂ : List UserRegion} {r' : UserRegion}

/-- An entry of the table gets the pages that were set aside. -/
theorem SpaceOk.assign (h : SpaceOk (pool \ S) ⟨v, p⟩) (hS : S ⊆ pool)
    (hreal : ∀ a ∈ pool, a ∈ managed v.pmm ∧ a ≠ 0) (hl : p.userRegions = l₁ ++ r :: l₂)
    (hl' : p'.userRegions = l₁ ++ r' :: l₂) (ht : p'.pageTable = p.pageTable) (hs : r'.start = r.start)
    (he : r'.stop = r.stop) (hno : ¬r.Owned) (hown : r'.Owned) (hpages : S = pageSet r'.paddr r'.pages) :
    SpaceOk pool ⟨v, p'⟩ := by
  have hregions : RegionsOk p'.userRegions := by
    have hold : RegionsOk (l₁ ++ r :: l₂) := hl ▸ h.regions
    rw [hl']
    exact hold.replace hs he
  have hmem : ∀ q, q ∈ p'.userRegions ↔ q = r' ∨ q ∈ l₁ ++ l₂ := fun q => by
    rw [hl']
    simp only [List.mem_append, List.mem_cons]
    tauto
  have hold : ∀ q, q.Owned → q ∈ p.userRegions → q ∈ l₁ ++ l₂ := fun q hq hqm => by
    rw [hl] at hqm
    simp only [List.mem_append, List.mem_cons] at hqm ⊢
    rcases hqm with hqm | rfl | hqm
    · exact .inl hqm
    · exact absurd hq hno
    · exact .inr hqm
  have hback : ∀ q, q ∈ l₁ ++ l₂ → q ∈ p.userRegions := fun q hq => by
    rw [hl]
    simp only [List.mem_append, List.mem_cons] at hq ⊢
    tauto
  have hgain : Exclusive ((pool \ S) ∪ S) (freePages v.pmm) (spaceOwn ⟨v, p'⟩) := by
    refine h.own.gain (fun a ha hp => hp.2 ha) ?_ ?_ ?_ ?_
    · rintro (⟨q, i⟩ | path) a ha
      · obtain ⟨hq, hqo, hi, ha⟩ := spaceOwn_region.mp ha
        exact spaceOwn_region.mpr ⟨(hmem q).mpr (.inr (hold q hqo hq)), hqo, hi, ha⟩
      · rw [spaceOwn_table] at ha ⊢
        rw [ht]
        exact ha
    · rintro (⟨q, i⟩ | path) a ha
      · obtain ⟨hq, hqo, hi, ha⟩ := spaceOwn_region.mp ha
        rcases (hmem q).mp hq with rfl | hq
        · rw [hpages]
          exact .inr (mem_pageSet.mpr ⟨i, hi, ha⟩)
        · exact .inl (spaceOwn_region.mpr ⟨hback q hq, hqo, hi, ha⟩)
      · rw [spaceOwn_table, ht] at ha
        exact .inl (spaceOwn_table.mpr ha)
    · -- only the new region can have a page that was set aside
      have honly : ∀ x, ∀ a ∈ S, spaceOwn ⟨v, p'⟩ x = some a → ∃ i, x = .region r' i ∧ a = r'.paddr + i * pageSize := by
        rintro (⟨q, i⟩ | path) a haS ha
        · obtain ⟨hq, hqo, hi, ha⟩ := spaceOwn_region.mp ha
          rcases (hmem q).mp hq with rfl | hq
          · exact ⟨i, rfl, ha⟩
          · have hx : spaceOwn ⟨v, p⟩ (.region q i) = some a := spaceOwn_region.mpr ⟨hback q hq, hqo, hi, ha⟩
            exact absurd haS ((h.own.cover a).mpr (.inr ⟨_, hx⟩)).2
        · rw [spaceOwn_table, ht] at ha
          have hx : spaceOwn ⟨v, p⟩ (.table path) = some a := spaceOwn_table.mpr ha
          exact absurd haS ((h.own.cover a).mpr (.inr ⟨_, hx⟩)).2
      intro x y a ha hx hy
      obtain ⟨i, rfl, hi⟩ := honly x a ha hx
      obtain ⟨j, rfl, hj⟩ := honly y a ha hy
      have hij : i = j := by
        unfold pageSize at hi hj
        omega
      rw [hij]
    · intro a ha
      rw [hpages] at ha
      obtain ⟨i, hi, ha⟩ := mem_pageSet.mp ha
      exact ⟨.region r' i, spaceOwn_region.mpr ⟨(hmem r').mpr (.inl rfl), hown, hi, ha⟩⟩
  rw [Set.sdiff_union_of_subset hS] at hgain
  exact ⟨h.pmm, hreal, hregions, hgain⟩

/-- The pages of an entry that is removed are set aside. -/
theorem SpaceOk.unassign (h : SpaceOk pool ⟨v, p⟩) (hl : p.userRegions = l₁ ++ r :: l₂)
    (hl' : p'.userRegions = l₁ ++ l₂) (ht : p'.pageTable = p.pageTable) (hown : r.Owned) :
    SpaceOk (pool \ pageSet r.paddr r.pages) ⟨v, p'⟩ ∧ pageSet r.paddr r.pages ⊆ pool := by
  have hold : RegionsOk (l₁ ++ r :: l₂) := hl ▸ h.regions
  have hnot : r ∉ l₁ ++ l₂ := by
    have hnd := hold.nodup
    rw [List.nodup_middle] at hnd
    exact (List.nodup_cons.mp hnd).1
  have hmem : ∀ q, q ∈ p.userRegions ↔ q = r ∨ q ∈ l₁ ++ l₂ := fun q => by
    rw [hl]
    simp only [List.mem_append, List.mem_cons]
    tauto
  have hheld : ∀ i, i < r.pages → spaceOwn ⟨v, p⟩ (.region r i) = some (r.paddr + i * pageSize) :=
    fun i hi => spaceOwn_region.mpr ⟨(hmem r).mpr (.inl rfl), hown, hi, rfl⟩
  refine ⟨⟨h.pmm, fun a ha => h.real a ha.1, ?_, ?_⟩, fun a ha => ?_⟩
  · show RegionsOk p'.userRegions
    rw [hl']
    exact hold.erase
  · refine h.own.lose ?_ fun a => ?_
    · rintro (⟨q, i⟩ | path) a ha
      · obtain ⟨hq, hqo, hi, ha⟩ := spaceOwn_region.mp ha
        rw [hl'] at hq
        exact spaceOwn_region.mpr ⟨(hmem q).mpr (.inr hq), hqo, hi, ha⟩
      · rw [spaceOwn_table, ht] at ha
        exact spaceOwn_table.mpr ha
    · rw [mem_pageSet]
      constructor
      · rintro ⟨i, hi, rfl⟩
        refine ⟨.region r i, hheld i hi, fun hno => ?_⟩
        have hin := (spaceOwn_region.mp hno).1
        rw [hl'] at hin
        exact hnot hin
      · rintro ⟨⟨q, i⟩ | path, hx, hno⟩
        · obtain ⟨hq, hqo, hi, ha⟩ := spaceOwn_region.mp hx
          rcases (hmem q).mp hq with rfl | hq
          · exact ⟨i, hi, ha⟩
          · exact absurd (spaceOwn_region.mpr ⟨by rw [hl']; exact hq, hqo, hi, ha⟩) hno
        · refine absurd ?_ hno
          rw [spaceOwn_table] at hx ⊢
          rw [ht]
          exact hx
  · obtain ⟨i, hi, rfl⟩ := mem_pageSet.mp ha
    exact (h.own.cover _).mpr (.inr ⟨_, hheld i hi⟩)

end Region

/-! ## Freeing everything -/

theorem mem_ownedPages (h : RegionsOk s.process.userRegions) {a : Nat} :
    a ∈ ownedPages s.process ↔ ∃ r i, spaceOwn s (.region r i) = some a := by
  unfold ownedPages
  simp only [List.mem_flatMap, spaceOwn_region]
  constructor
  · rintro ⟨r, hr, ha⟩
    split at ha
    · cases ha
    · rename_i hown
      obtain ⟨i, hi, rfl⟩ := mem_pagesOf.mp ha
      exact ⟨r, i, hr, ⟨fun h0 => hown (.inl h0), fun h0 => hown (.inr (.inl h0))⟩, hi, rfl⟩
  · rintro ⟨r, i, hr, hown, hi, rfl⟩
    have hproper := h.proper r hr
    refine ⟨r, hr, ?_⟩
    rw [if_neg]
    · exact mem_pagesOf.mpr ⟨i, hi, rfl⟩
    · rintro (h0 | h0 | h0)
      · exact hown.1 h0
      · exact hown.2 h0
      · omega

theorem ownedPages_nodup (h : SpaceOk pool s) : (ownedPages s.process).Nodup := by
  refine List.nodup_flatMap.mpr ⟨fun r _ => ?_, h.regions.nodup.imp_of_mem fun {r q} hr hq hne => ?_⟩
  · split
    · exact List.nodup_nil
    · exact pagesOf_nodup _ _
  · intro a ha hb
    -- the page would have two owners
    have hmem : ∀ x ∈ s.process.userRegions, (a ∈ if x.flags &&& processUserRegionOwnedPages = 0 ∨ x.paddr = 0 ∨
        x.stop ≤ x.start then [] else pagesOf x.paddr (x.stop - x.start)) → ∃ i, spaceOwn s (.region x i) = some a := by
      intro x hx hax
      split at hax
      · cases hax
      · rename_i hown
        obtain ⟨i, hi, rfl⟩ := mem_pagesOf.mp hax
        exact ⟨i, spaceOwn_region.mpr ⟨hx, ⟨fun h0 => hown (.inl h0), fun h0 => hown (.inr (.inl h0))⟩, hi, rfl⟩⟩
    obtain ⟨i, hi⟩ := hmem r hr ha
    obtain ⟨j, hj⟩ := hmem q hq hb
    exact hne (SpaceOwner.region.inj (h.own.inj _ _ a hi hj)).1

/-- The tables of the process, in the order in which they are freed. -/
def tableNodes (s : Space) : List Nat :=
  if s.process.pageTable = 0 then []
  else treeNodes (tableChild s.vm.mem) (List.finRange 512) 3 s.process.pageTable

theorem mem_tableNodes {a : Nat} : a ∈ tableNodes s ↔ ∃ path, spaceOwn s (.table path) = some a := by
  unfold tableNodes
  simp only [spaceOwn_table]
  split
  · rename_i h0
    simp [h0]
  · rename_i h0
    rw [mem_treeNodes List.mem_finRange]
    exact ⟨fun ⟨p, hp, ha⟩ => ⟨p, h0, hp, ha⟩, fun ⟨p, _, hp, ha⟩ => ⟨p, hp, ha⟩⟩

theorem tableNodes_nodup (h : SpaceOk pool s) : (tableNodes s).Nodup := by
  unfold tableNodes
  split
  · exact List.nodup_nil
  · rename_i h0
    exact treeNodes_nodup List.mem_finRange (List.nodup_finRange 512) (h.table h0).inj

theorem freeResources_eq (h : SpaceOk pool s) : processFreeResources s.process s.vm =
    { s.vm with pmm := pmmFreeAll (ownedPages s.process ++ tableNodes s) s.vm.pmm } := by
  unfold processFreeResources tableNodes pmmFreeAll
  rw [List.foldl_append]
  by_cases h0 : s.process.pageTable = 0
  · simp [h0]
  · dsimp only
    rw [if_pos h0, if_neg h0]
    unfold vmmFreeTable
    rw [freeTableLevel_eq]
    · rfl
    · intro p hp hno
      have hin := h.tablePages_subset h0 ⟨p, hp, hno⟩
      exact (h.real 0 hin).2 rfl

/-- `process_free_resources` frees every page of the process once. -/
theorem freeResources_spec {p : Process} (h : SpaceOk pool s) (hr : p.userRegions = []) (ht : p.pageTable = 0) :
    SpaceStep pool s ⟨processFreeResources s.process s.vm, p⟩ := by
  have hempty : ∀ x, spaceOwn ⟨s.vm, p⟩ x = none := by
    rintro (⟨r, i⟩ | path)
    · simp [spaceOwn, hr]
    · simp [spaceOwn, ht]
  have hmem : ∀ a, a ∈ ownedPages s.process ++ tableNodes s ↔ ∃ x, spaceOwn s x = some a := by
    intro a
    rw [List.mem_append, mem_ownedPages h.regions, mem_tableNodes]
    constructor
    · rintro (⟨r, i, ha⟩ | ⟨path, ha⟩)
      · exact ⟨_, ha⟩
      · exact ⟨_, ha⟩
    · rintro ⟨⟨r, i⟩ | path, ha⟩
      · exact .inl ⟨r, i, ha⟩
      · exact .inr ⟨path, ha⟩
  have hnd : (ownedPages s.process ++ tableNodes s).Nodup := by
    refine List.nodup_append.mpr ⟨ownedPages_nodup h, tableNodes_nodup h, ?_⟩
    rintro a ha b hb rfl
    obtain ⟨r, i, hri⟩ := (mem_ownedPages h.regions).mp ha
    obtain ⟨path, hpath⟩ := mem_tableNodes.mp hb
    cases h.own.inj _ _ a hri hpath
  have haside : SpaceOk (pool \ {a | ∃ x, spaceOwn s x = some a}) ⟨s.vm, p⟩ := by
    refine ⟨h.pmm, fun a ha => h.real a ha.1, ?_, ?_⟩
    · show RegionsOk p.userRegions
      rw [hr]
      exact .nil
    · refine h.own.lose (fun x a hx => ?_) fun a => ?_
      · rw [hempty] at hx
        cases hx
      · simp [hempty]
  obtain ⟨hok, hgave⟩ := haside.freeAll (fun a ⟨x, hx⟩ => (h.own.cover a).mpr (.inr ⟨x, hx⟩)) h.real hmem hnd
  rw [freeResources_eq h]
  exact ⟨hok, hgave.pool, fun _ _ => rfl⟩

end Armonios
