import Mathlib.Data.Set.Card
import Armonios.Mm.VmmSpec

/-!
# When the page table functions fail

A page is mapped unless it was mapped before or a table is missing for which no page is free. `Filled` is what
is left of the free pages after the tables at some places were made.

* `vmmMapRange_fails`: `vmm_map_range` fails exactly if a page of the range is mapped, or if there are more
  missing tables than free pages;
* `pmmAllocPages_none`: `pmm_alloc_pages` fails exactly if there are not that many free pages in a row.
-/

namespace Armonios

/-! ## Free pages -/

section Free

variable {pmm pmm' : Pmm} {S : Set Nat} {n : Nat}

theorem freePages_finite (pmm : Pmm) : (freePages pmm).Finite := by
  refine ((Set.finite_lt_nat pmm.totalPages).image (pageAddr pmm)).subset ?_
  rintro a ⟨page, hp, -, rfl⟩
  exact ⟨page, hp, rfl⟩

theorem Took.ncard (h : Took S pmm pmm') : (freePages pmm').ncard + S.ncard = (freePages pmm).ncard := by
  rw [h.free]
  exact Set.ncard_sdiff_add_ncard_of_subset h.were (freePages_finite pmm)

theorem pmmAllocPage_none (hok : PmmOk pmm) (h : (pmmAllocPage pmm).1 = 0) : freePages pmm = ∅ := by
  rw [Set.eq_empty_iff_forall_notMem]
  rintro a ⟨page, hp, hu, rfl⟩
  unfold pmmAllocPage findFree at h
  cases hf : (List.range pmm.totalPages).find? fun page => !pmm.used page with
  | none =>
    have := List.find?_eq_none.mp hf page (List.mem_range.mpr hp)
    simp [hu] at this
  | some first =>
    have hmem := List.mem_of_find?_eq_some hf
    have hfree := List.find?_some hf
    simp only [hf] at h
    simp only [List.mem_range, Bool.not_eq_true'] at hmem hfree
    exact hok.zero ⟨first, hmem, hfree, h.symm⟩

/-- The scan passes no run of free pages. -/
theorem scanRun_none {left page runStart runCount first : Nat} (hcount : runCount < n)
    (hpage : page + left = pmm.totalPages) (h : scanRun pmm n left page runStart runCount = none)
    (hfirst : page ≤ first + runCount) (hend : first + n ≤ pmm.totalPages) :
    ∃ q, first ≤ q ∧ q < first + n ∧ pmm.used q = true := by
  induction left generalizing page runStart runCount with
  | zero => omega
  | succ left ih =>
    unfold scanRun at h
    by_cases hu : pmm.used page = true
    · rw [if_pos hu] at h
      by_cases hin : first ≤ page
      · exact ⟨page, hin, by omega, hu⟩
      · exact ih (by omega) (by omega) h (by omega)
    · rw [if_neg hu] at h
      simp only at h
      split at h
      · cases h
      · exact ih (by omega) (by omega) h (by omega)

/-- There are `n` free pages in a row. -/
def RunFree (n : Nat) (pmm : Pmm) : Prop := ∃ a, ∀ i < n, a + i * pageSize ∈ freePages pmm

/-- `pmm_alloc_pages` finds pages in a row wherever they are. -/
theorem pmmAllocPages_none (hok : PmmOk pmm) (hn : n ≠ 0) : (pmmAllocPages n pmm).1 = 0 ↔ ¬RunFree n pmm := by
  constructor
  · rintro h ⟨a, ha⟩
    obtain ⟨first, -, -, hfirst⟩ := ha 0 (Nat.pos_of_ne_zero hn)
    have hrun : ∀ i < n, first + i < pmm.totalPages ∧ pmm.used (first + i) = false := by
      intro i hi
      obtain ⟨page, hp, hu, he⟩ := ha i hi
      have : page = first + i := by
        unfold pageAddr pageSize at *
        omega
      exact this ▸ ⟨hp, hu⟩
    have hlast := (hrun (n - 1) (by omega)).1
    unfold pmmAllocPages at h
    rw [if_neg (by omega)] at h
    cases hscan : scanRun pmm n pmm.totalPages 0 0 0 with
    | none =>
      obtain ⟨q, h1, h2, hu⟩ := scanRun_none (by omega) (by omega) hscan (Nat.zero_le first) (by omega)
      have hq := (hrun (q - first) (by omega)).2
      rw [show first + (q - first) = q by omega, hu] at hq
      cases hq
    | some start =>
      simp only [hscan] at h
      obtain ⟨hend, hfree⟩ := scanRun_spec (by omega) (by simp) (by simp) hscan
      exact hok.zero ⟨start, by omega, hfree start (Nat.le_refl _) (by omega), h.symm⟩
  · intro h
    rcases pmmAllocPages_spec hok n with h0 | ⟨a, pmm', -, -, -, htook⟩
    · rw [h0]
    · refine absurd ⟨a, fun i hi => htook.were ?_⟩ h
      show a + i * pageSize ∈ pagesOf a (n * pageSize)
      rw [pagesOf_mul]
      exact List.mem_map.mpr ⟨i, List.mem_range.mpr hi, rfl⟩

end Free

/-! ## Missing tables -/

variable {v v' v'' : Vm} {pgd va : Nat} {P Q : Set (List (Fin 512))}

/-- No entry above the last level maps a block: the functions write none. -/
def NoBlocks (mem : TableMem) (pgd : Nat) : Prop :=
  ∀ (p : List (Fin 512)) (t : Nat) (i : Fin 512), p.length ≤ 2 → nodeAt (tableChild mem) pgd p = some t →
    mem t i &&& descValid ≠ 0 → mem t i &&& descTable ≠ 0

/-- The places at which there is no table. -/
def noTable (mem : TableMem) (pgd : Nat) : Set (List (Fin 512)) := {p | nodeAt (tableChild mem) pgd p = none}

/-- The tables at the places `P` are there, those that were missing on free pages. -/
structure Filled (pgd : Nat) (P : Set (List (Fin 512))) (v v' : Vm) : Prop where
  grew : Grew pgd v v'
  blocks : NoBlocks v'.mem pgd
  finite : P.Finite
  short : ∀ p ∈ P, p.length ≤ 3
  made : ∀ p ∈ P, p ∉ noTable v'.mem pgd
  same : ∀ p, p.length ≤ 3 → p ∉ P → nodeAt (tableChild v'.mem) pgd p = nodeAt (tableChild v.mem) pgd p
  count : (freePages v'.pmm).ncard + (P ∩ noTable v.mem pgd).ncard = (freePages v.pmm).ncard

theorem Filled.refl (hok : TableOk pgd v) (hb : NoBlocks v.mem pgd) : Filled pgd ∅ v v :=
  ⟨.refl hok, hb, Set.finite_empty, by simp, by simp, fun _ _ _ => rfl, by simp⟩

/-- What is missing of `Q` after `P` was filled. -/
theorem Filled.noTable_eq (h : Filled pgd P v v') (hshort : ∀ p ∈ Q, p.length ≤ 3) :
    Q ∩ noTable v'.mem pgd = (Q ∩ noTable v.mem pgd) \ P := by
  ext p
  constructor
  · rintro ⟨hq, hp⟩
    have hnot : p ∉ P := fun hmem => h.made p hmem hp
    refine ⟨⟨hq, ?_⟩, hnot⟩
    have hsame := h.same p (hshort p hq) hnot
    exact hsame.symm.trans hp
  · rintro ⟨⟨hq, hp⟩, hnot⟩
    exact ⟨hq, (h.same p (hshort p hq) hnot).trans hp⟩

/-- Places that are filled one after the other cost what they cost together. -/
theorem Filled.ncard_union (h : Filled pgd P v v') (hshort : ∀ p ∈ Q, p.length ≤ 3) (hfin : Q.Finite) :
    ((P ∪ Q) ∩ noTable v.mem pgd).ncard =
      (P ∩ noTable v.mem pgd).ncard + (Q ∩ noTable v'.mem pgd).ncard := by
  rw [h.noTable_eq hshort]
  have hfinP : (P ∩ noTable v.mem pgd).Finite := h.finite.subset Set.inter_subset_left
  have hfinQ : ((Q ∩ noTable v.mem pgd) \ P).Finite :=
    hfin.subset fun _ hp => hp.1.1
  rw [← Set.ncard_union_eq ?_ hfinP hfinQ]
  · congr 1
    ext p
    simp only [Set.mem_inter_iff, Set.mem_union, Set.mem_sdiff]
    tauto
  · rw [Set.disjoint_left]
    exact fun p hp hq => hq.2 hp.1

theorem Filled.trans (h : Filled pgd P v v') (h' : Filled pgd Q v' v'') : Filled pgd (P ∪ Q) v v'' := by
  refine ⟨h.grew.trans h'.grew, h'.blocks, h.finite.union h'.finite, ?_, ?_, ?_, ?_⟩
  · rintro p (hp | hp)
    · exact h.short p hp
    · exact h'.short p hp
  · rintro p (hp | hp)
    · intro hno
      by_cases hq : p ∈ Q
      · exact h'.made p hq hno
      · exact h.made p hp ((h'.same p (h.short p hp) hq).symm.trans hno)
    · exact h'.made p hp
  · intro p hp hno
    rw [Set.mem_union, not_or] at hno
    rw [h'.same p hp hno.2, h.same p hp hno.1]
  · rw [h.ncard_union h'.short h'.finite]
    have := h.count
    have := h'.count
    omega

/-- A new table is at one more place. -/
theorem newTable_same {c : Nat} {i : Fin 512} {p : List (Fin 512)} (hg : Grew pgd v v') (htook : Took {c} v.pmm v'.pmm)
    (hlen : p.length ≤ 2) (hnew : nodeAt (tableChild v'.mem) pgd (p ++ [i]) = some c) {q : List (Fin 512)}
    (hq : q.length ≤ 3) (hne : q ≠ p ++ [i]) :
    nodeAt (tableChild v'.mem) pgd q = nodeAt (tableChild v.mem) pgd q := by
  have hplen : (p ++ [i]).length ≤ 3 := by
    rw [List.length_append, List.length_singleton]
    omega
  cases hnode : nodeAt (tableChild v'.mem) pgd q with
  | none =>
    cases hold : nodeAt (tableChild v.mem) pgd q with
    | none => rfl
    | some a =>
      rw [hg.kept q a hq hold] at hnode
      cases hnode
  | some a =>
    by_cases hin : a ∈ tablePages v.mem pgd
    · obtain ⟨r, hr, hra⟩ := hin
      have heq := hg.inj q r a hq hr hnode (hg.kept r a hr hra)
      rw [heq, hra]
    · -- the only page that was added is `c`
      have hdiff : a ∈ tablePages v'.mem pgd \ tablePages v.mem pgd := ⟨⟨q, hq, hnode⟩, hin⟩
      have hgone : a ∉ freePages v'.pmm := by
        rw [hg.took.free]
        exact fun h => h.2 hdiff
      rw [htook.free] at hgone
      have hac : a = c := by
        by_contra hne'
        exact hgone ⟨hg.took.were hdiff, hne'⟩
      rw [hac] at hnode
      exact absurd (hg.inj q (p ++ [i]) c hq hplen hnode hnew) hne

/-- The new table is empty, and the entry that points to it is the only one that changed. -/
theorem newTable_blocks {c t : Nat} {i : Fin 512} {p : List (Fin 512)} (hok : TableOk pgd v) (hb : NoBlocks v.mem pgd)
    (hp : nodeAt (tableChild v.mem) pgd p = some t) (hlen : p.length ≤ 2) (hg : Grew pgd v v')
    (htook : Took {c} v.pmm v'.pmm)
    (hmem : v'.mem = setEntry t i ((c &&& descAddrMask) ||| descValid ||| descTable) (zeroTable c v.mem))
    (hnew : nodeAt (tableChild v'.mem) pgd (p ++ [i]) = some c) : NoBlocks v'.mem pgd := by
  intro q b j hq hqb hvalid
  by_cases hbc : b = c
  · have hct : c ≠ t := by
      rintro rfl
      exact hok.apart c ⟨p, by omega, hp⟩ (htook.were rfl)
    rw [hmem, hbc, setEntry_other (.inl hct), zeroTable, Function.update_self, Nat.zero_and] at hvalid
    exact absurd rfl hvalid
  by_cases hbt : b = t ∧ j = i
  · rw [hmem, hbt.1, hbt.2, setEntry_same, Nat.and_or_distrib_right]
    intro h0
    have hbit := (Nat.or_eq_zero_iff.mp h0).2
    revert hbit
    decide
  · rw [hmem, setEntry_other (not_and_or.mp hbt), zeroTable, Function.update_of_ne hbc] at hvalid ⊢
    have hne : q ≠ p ++ [i] := by
      rintro rfl
      rw [hnew] at hqb
      exact hbc (Option.some.inj hqb).symm
    have hqold := newTable_same hg htook hlen hnew (by omega) hne
    exact hb q b j hq (hqold.symm.trans hqb) hvalid

/-- `next_table` fails only for want of a free page. -/
theorem nextTable_room {t : Nat} {i : Fin 512} {p : List (Fin 512)} (hok : TableOk pgd v) (hb : NoBlocks v.mem pgd)
    (hp : nodeAt (tableChild v.mem) pgd p = some t) (hlen : p.length ≤ 2) :
    Wp (nextTable t i) v
      (fun c v' => Filled pgd {p ++ [i]} v v' ∧ SameLeaves pgd v v' ∧
        nodeAt (tableChild v'.mem) pgd (p ++ [i]) = some c)
      fun _ v' => v' = v ∧ p ++ [i] ∈ noTable v.mem pgd ∧ freePages v.pmm = ∅ := by
  have hplen : (p ++ [i]).length ≤ 3 := by
    rw [List.length_append, List.length_singleton]
    omega
  have hshort : ∀ q ∈ ({p ++ [i]} : Set (List (Fin 512))), q.length ≤ 3 := fun q hq => hq ▸ hplen
  have hchild : nodeAt (tableChild v.mem) pgd (p ++ [i]) = tableChild v.mem t i := by
    rw [nodeAt_concat, hp]
    rfl
  unfold nextTable
  refine wp_bind.mpr (wp_get.mpr ?_)
  dsimp only
  refine wp_ite (fun hvalid => wp_guard (fun hblock => absurd hblock (hb p t i hlen hp hvalid)) fun htable => ?_)
    fun hinvalid => ?_
  · have hsome : nodeAt (tableChild v.mem) pgd (p ++ [i]) = some (v.mem t i &&& descAddrMask) := by
      rw [hchild]
      unfold tableChild entryTable
      rw [if_pos ⟨hvalid, htable⟩]
    refine ⟨⟨.refl hok, hb, Set.finite_singleton _, hshort, ?_, fun _ _ _ => rfl, ?_⟩, fun _ => rfl, hsome⟩
    · rintro q rfl hno
      rw [noTable, Set.mem_ofPred_eq, hsome] at hno
      cases hno
    · rw [Set.singleton_inter_eq_empty.mpr ?_, Set.ncard_empty, Nat.add_zero]
      intro hno
      rw [noTable, Set.mem_ofPred_eq, hsome] at hno
      cases hno
  · have hnone : tableChild v.mem t i = none := by
      unfold tableChild entryTable
      rw [if_neg fun h => hinvalid h.1]
    have hmissing : p ++ [i] ∈ noTable v.mem pgd := hchild.trans hnone
    refine wp_bind.mpr (wp_bind.mpr (wp_onPmm.mpr ?_))
    rcases pmmAllocPage_spec hok.pmm with h | ⟨c, pmm', h, hc, htook⟩
    · have hempty := pmmAllocPage_none hok.pmm (by rw [h])
      rw [h]
      exact wp_guard (fun _ => ⟨rfl, hmissing, hempty⟩) fun hne => absurd rfl hne
    · rw [h]
      refine wp_guard (fun h0 => absurd h0 hc) fun _ => ?_
      obtain ⟨hg, hsame, hnew⟩ := newTable_grew hok hp hlen hnone htook rfl
      refine ⟨⟨hg, ?_, Set.finite_singleton _, hshort, ?_, ?_, ?_⟩, hsame, hnew⟩
      · exact newTable_blocks hok hb hp hlen hg htook rfl hnew
      · rintro q rfl hno
        rw [noTable, Set.mem_ofPred_eq, hnew] at hno
        cases hno
      · exact fun q hq hne => newTable_same hg htook hlen hnew hq hne
      · rw [Set.inter_eq_left.mpr (Set.singleton_subset_iff.mpr hmissing)]
        have hcount := htook.ncard
        rw [Set.ncard_singleton] at hcount ⊢
        exact hcount

/-- Writing an entry of a table of the last level leaves the tables where they are. -/
theorem setLeaf_nodeAt {t e : Nat} (hok : TableOk pgd v) (hp : nodeAt (tableChild v.mem) pgd (tablePath va) = some t)
    {q : List (Fin 512)} (hq : q.length ≤ 3) :
    nodeAt (tableChild (setEntry t (tableIndex va 3) e v.mem)) pgd q = nodeAt (tableChild v.mem) pgd q := by
  refine nodeAt_congr (fun r a hr hra => ?_) hq
  funext j
  have hat : a ≠ t := by
    rintro rfl
    have heq := hok.inj r (tablePath va) a (by omega) (by simp [tablePath]) hra hp
    rw [heq] at hr
    simp [tablePath] at hr
  unfold tableChild
  rw [setEntry_other (.inl hat)]

theorem Filled.setLeaf {t e : Nat} (h : Filled pgd P v v') (hok : TableOk pgd v')
    (hp : nodeAt (tableChild v'.mem) pgd (tablePath va) = some t) :
    Filled pgd P v { v' with mem := setEntry t (tableIndex va 3) e v'.mem } := by
  refine ⟨h.grew.trans (setLeaf_grew hok hp).1, ?_, h.finite, h.short, fun q hq hno => ?_, fun q hq hno => ?_, h.count⟩
  · intro q b j hq hqb
    have hqold := (setLeaf_nodeAt (e := e) hok hp (q := q) (by omega)).symm.trans hqb
    have hbt : b ≠ t := by
      rintro rfl
      have heq := hok.inj q (tablePath va) b (by omega) (by simp [tablePath]) hqold hp
      rw [heq] at hq
      simp [tablePath] at hq
    dsimp only
    rw [setEntry_other (.inl hbt)]
    exact h.blocks q b j hq hqold
  · exact h.made q hq ((setLeaf_nodeAt hok hp (h.short q hq)).symm.trans hno)
  · exact (setLeaf_nodeAt hok hp hq).trans (h.same q hq hno)

/-- The places of the tables for an address. -/
def tablePlaces (vaddr : Nat) : Set (List (Fin 512)) :=
  {[] ++ [tableIndex vaddr 0]} ∪ {[tableIndex vaddr 0] ++ [tableIndex vaddr 1]} ∪
    {[tableIndex vaddr 0, tableIndex vaddr 1] ++ [tableIndex vaddr 2]}

theorem tablePlaces_short {vaddr : Nat} : ∀ p ∈ tablePlaces vaddr, p.length ≤ 3 := by
  rintro p ((rfl | rfl) | rfl) <;> simp

theorem tablePlaces_finite (vaddr : Nat) : (tablePlaces vaddr).Finite :=
  ((Set.finite_singleton _).union (Set.finite_singleton _)).union (Set.finite_singleton _)

/-- There is no free page for the next of the tables that are missing. -/
theorem Filled.starved (h : Filled pgd P v v') (hfree : freePages v'.pmm = ∅) (hq : Q.Finite) {p : List (Fin 512)}
    (hplen : p.length ≤ 3) (hp : p ∈ noTable v'.mem pgd) (hsub : P ∪ {p} ⊆ Q) :
    (freePages v.pmm).ncard < (Q ∩ noTable v.mem pgd).ncard := by
  have hone : ({p} ∩ noTable v'.mem pgd).ncard = 1 := by
    rw [Set.inter_eq_left.mpr (Set.singleton_subset_iff.mpr hp), Set.ncard_singleton]
  have hunion := h.ncard_union (Q := {p}) (fun q hq => hq ▸ hplen) (Set.finite_singleton p)
  have hcount := h.count
  rw [hfree, Set.ncard_empty, Nat.zero_add] at hcount
  have hle := Set.ncard_le_ncard (Set.inter_subset_inter_left (noTable v.mem pgd) hsub)
    (hq.subset Set.inter_subset_left)
  omega

/-- `vmm_map_page` fails only at a page that is mapped, or for want of free pages. -/
theorem vmmMapPage_room {paddr flags : Nat} (hok : TableOk pgd v) (hb : NoBlocks v.mem pgd) (hva : va % pageSize = 0)
    (hpa : paddr % pageSize = 0) :
    Wp (vmmMapPage pgd va paddr flags) v (fun _ v' => Filled pgd (tablePlaces va) v v') fun _ _ =>
      leafOf v.mem pgd va ≠ none ∨ (freePages v.pmm).ncard < (tablePlaces va ∩ noTable v.mem pgd).ncard := by
  have hfin := tablePlaces_finite va
  unfold vmmMapPage
  refine wp_guard (fun h => ?_) fun _ => wp_bind.mpr ?_
  · rcases h with h | h | h
    · exact absurd h hok.root
    · exact absurd hva h
    · exact absurd hpa h
  refine Wp.mono (nextTable_room hok hb (p := []) rfl (by simp)) (fun t1 v1 h1 => ?_) fun _ v1 h1 => ?_
  swap
  · obtain ⟨rfl, hmissing, hfree⟩ := h1
    refine .inr ((Filled.refl hok hb).starved hfree hfin (by simp) hmissing ?_)
    rw [Set.empty_union]
    exact fun p hp => .inl (.inl hp)
  obtain ⟨hf1, hl1, hn1⟩ := h1
  have hok1 := hf1.grew.ok hok
  refine wp_bind.mpr (Wp.mono (nextTable_room hok1 hf1.blocks hn1 (by simp)) (fun t2 v2 h2 => ?_) fun _ v2 h2 => ?_)
  swap
  · obtain ⟨rfl, hmissing, hfree⟩ := h2
    exact .inr (hf1.starved hfree hfin (by simp) hmissing fun p hp => .inl hp)
  obtain ⟨hf2, hl2, hn2⟩ := h2
  have hok2 := hf2.grew.ok hok1
  have hf2 := hf1.trans hf2
  have hl2 := hl1.trans hl2
  refine wp_bind.mpr (Wp.mono (nextTable_room hok2 hf2.blocks hn2 (by simp)) (fun t3 v3 h3 => ?_) fun _ v3 h3 => ?_)
  swap
  · obtain ⟨rfl, hmissing, hfree⟩ := h3
    exact .inr (hf2.starved hfree hfin (by simp) hmissing fun p hp => hp)
  obtain ⟨hf3, hl3, hn3⟩ := h3
  have hok3 := hf3.grew.ok hok2
  have hf3 := hf2.trans hf3
  have hl3 := hl2.trans hl3
  have hleaf : nodeAt (tableChild v3.mem) pgd (tablePath va) = some t3 := hn3
  refine wp_bind.mpr (wp_get.mpr (wp_guard (fun hvalid => .inl ?_) fun _ => wp_modify.mpr ?_))
  · rw [← hl3 va, leafOf_some hok3.root hleaf, if_neg hvalid]
    simp
  · exact hf3.setLeaf hok3 hleaf

/-! ## Ranges -/

variable {vaddr paddr flags n : Nat}

/-- The places of the tables for `n` pages from `vaddr` on. -/
def rangePlaces (vaddr n : Nat) : Set (List (Fin 512)) := {p | ∃ i < n, p ∈ tablePlaces (vaddr + i * pageSize)}

theorem rangePlaces_succ (vaddr n : Nat) :
    rangePlaces vaddr (n + 1) = rangePlaces vaddr n ∪ tablePlaces (vaddr + n * pageSize) := by
  ext p
  constructor
  · rintro ⟨i, hi, hp⟩
    rcases Nat.lt_succ_iff_lt_or_eq.mp hi with hi | rfl
    · exact .inl ⟨i, hi, hp⟩
    · exact .inr hp
  · rintro (⟨i, hi, hp⟩ | hp)
    · exact ⟨i, by omega, hp⟩
    · exact ⟨n, by omega, hp⟩

theorem rangePlaces_zero (vaddr : Nat) : rangePlaces vaddr 0 = ∅ := by
  ext p
  constructor
  · rintro ⟨i, hi, -⟩
    exact absurd hi (Nat.not_lt_zero i)
  · exact fun h => h.elim

theorem rangePlaces_mono {m : Nat} (h : m ≤ n) : rangePlaces vaddr m ⊆ rangePlaces vaddr n :=
  fun _ ⟨i, hi, hp⟩ => ⟨i, Nat.lt_of_lt_of_le hi h, hp⟩

theorem rangePlaces_finite (vaddr n : Nat) : (rangePlaces vaddr n).Finite := by
  induction n with
  | zero =>
    rw [rangePlaces_zero]
    exact Set.finite_empty
  | succ n ih =>
    rw [rangePlaces_succ]
    exact ih.union (tablePlaces_finite _)

/-- How many tables are missing for `n` pages from `vaddr` on. -/
noncomputable def missingTables (mem : TableMem) (pgd vaddr n : Nat) : Nat :=
  (rangePlaces vaddr n ∩ noTable mem pgd).ncard

theorem missingTables_mono {m : Nat} (h : m ≤ n) (mem : TableMem) (pgd vaddr : Nat) :
    missingTables mem pgd vaddr m ≤ missingTables mem pgd vaddr n :=
  Set.ncard_le_ncard (Set.inter_subset_inter_left _ (rangePlaces_mono h))
    ((rangePlaces_finite vaddr n).subset Set.inter_subset_left)

/-- No page of the range is mapped, and there are free pages for the tables. -/
def RangeRoom (pgd vaddr n : Nat) (v : Vm) : Prop :=
  (∀ i < n, leafOf v.mem pgd (vaddr + i * pageSize) = none) ∧
    missingTables v.mem pgd vaddr n ≤ (freePages v.pmm).ncard

/-- The loop of `vmm_map_range`, with `done` pages mapped since the state `v`. -/
theorem mapPages_room {left done : Nat} (hok : TableOk pgd v) (hal : vaddr % pageSize = 0) (hpal : paddr % pageSize = 0)
    (hd : DistinctPages vaddr (done + left)) (hf : Filled pgd (rangePlaces vaddr done) v v')
    (hm : MappedPages pgd vaddr paddr flags done v v') :
    Wp (mapPages pgd vaddr paddr flags left done) v' (fun _ _ => RangeRoom pgd vaddr (done + left) v)
      fun _ _ => ¬RangeRoom pgd vaddr (done + left) v := by
  induction left generalizing done v' with
  | zero =>
    refine ⟨fun i hi => hm.were _ ⟨i, hi, rfl⟩, ?_⟩
    rw [← hf.count]
    exact Nat.le_add_left _ _
  | succ left ih =>
    have hpage : (vaddr + done * pageSize) % pageSize = 0 := page_aligned hal done
    have hok' := hf.grew.ok hok
    refine wp_bind.mpr (wp_attempt_all.mpr (Wp.mono
      (Wp.and (vmmMapPage_spec hok') (vmmMapPage_room hok' hf.blocks hpage (page_aligned hpal done))) ?_ ?_))
    · rintro _ v1 ⟨⟨-, hnone, hset⟩, hf1⟩
      have hf1 := hf.trans hf1
      rw [← rangePlaces_succ] at hf1
      have hlen : done + (left + 1) = done + 1 + left := by omega
      rw [hlen] at hd ⊢
      exact ih hd hf1 (hm.snoc hnone hset)
    · rintro _ v1 ⟨⟨hg1, -⟩, hwhy⟩
      have hok1 := hg1.ok hok'
      refine wp_bind.mpr (Wp.mono (rollback_spec hok1 hal done) (fun _ _ _ => ?_) fun _ _ h => h.elim)
      rintro ⟨hleaves, hroom⟩
      rcases hwhy with hmapped | hstarved
      · -- the page is none of those mapped by the loop
        have hnot : ¬InPages vaddr done (vaddr + done * pageSize) := by
          rintro ⟨i, hi, hkey⟩
          have := hd done (by omega) i (by omega) hkey
          omega
        rw [hm.other _ hnot] at hmapped
        exact hmapped (hleaves done (by omega))
      · have hunion := hf.ncard_union (Q := tablePlaces (vaddr + done * pageSize)) tablePlaces_short
          (tablePlaces_finite _)
        rw [← rangePlaces_succ] at hunion
        have hle := missingTables_mono (show done + 1 ≤ done + (left + 1) by omega) v.mem pgd vaddr
        have hcount := hf.count
        unfold missingTables at hle hroom
        omega

/-- `vmm_map_range` of whole pages maps them exactly if there is room. -/
theorem vmmMapRange_fails (hok : TableOk pgd v) (hb : NoBlocks v.mem pgd) (hal : vaddr % pageSize = 0)
    (hpal : paddr % pageSize = 0) (h0 : n ≠ 0) (hvb : vaddr + n * pageSize ≤ 2 ^ 48)
    (hpb : paddr + n * pageSize ≤ 2 ^ 48) :
    Wp (vmmMapRange pgd vaddr paddr (n * pageSize) flags) v (fun _ _ => RangeRoom pgd vaddr n v)
      fun _ _ => ¬RangeRoom pgd vaddr n v := by
  have hstart : Filled pgd (rangePlaces vaddr 0) v v := by
    rw [rangePlaces_zero]
    exact .refl hok hb
  have hnone : MappedPages pgd vaddr paddr flags 0 v v := by
    refine ⟨?_, fun i hi => absurd hi (Nat.not_lt_zero _), fun _ _ => rfl⟩
    rintro _ ⟨i, hi, -⟩
    exact absurd hi (Nat.not_lt_zero _)
  have hd : DistinctPages vaddr (0 + n) := by
    rw [Nat.zero_add]
    exact distinctPages_of_bound hal hvb
  have hrun := mapPages_room hok hal hpal hd hstart hnone
  rw [Nat.zero_add] at hrun
  unfold vmmMapRange
  refine wp_guard (fun h => ?_) fun _ => wp_ite (fun hz => ?_) fun _ => ?_
  · rcases h with h | h
    · exact absurd h hok.root
    · exact absurd (hal.trans hpal.symm) h
  · unfold pageSize at hz
    omega
  dsimp only
  rw [pageAlignDown_of_aligned hal, pageAlignDown_of_aligned hpal, Nat.sub_self, pageSpan_aligned h0 (by omega)]
  refine wp_guard (fun hbig => ?_) fun _ => ?_
  · unfold uint64Max at hbig
    omega
  rw [Nat.mul_div_cancel n (by decide)]
  exact hrun

end Armonios
