import Mathlib.Data.Nat.Bitwise
import Armonios.Mm.Vmm

/-!
# What the page table functions do

`leafOf` is what the hardware sees of a table: the valid entry for an address. `Grew` is what the functions
may do to a tree of tables: new tables appear, each a page that was free, and no other table changes.

* `vmmMapRange_spec`, `vmmUnmapRange_spec`: the entries of a range;
* `vmmFreeTable_eq`: the tables are freed one by one, each once.
-/

namespace Armonios

/-! ## Descriptors -/

theorem and_addrMask {a : Nat} (ha : a % pageSize = 0) (hb : a < 2 ^ 48) : a &&& descAddrMask = a := by
  have hmask : descAddrMask = (2 ^ 36 - 1) <<< 12 := by decide
  refine Nat.eq_of_testBit_eq fun k => ?_
  rw [Nat.testBit_and, hmask, Nat.testBit_shiftLeft, Nat.testBit_two_pow_sub_one]
  by_cases hlow : k < 12
  · have h0 := Nat.testBit_mod_two_pow a 12 k
    rw [show a % 2 ^ 12 = 0 from ha] at h0
    have hbit : a.testBit k = false := by simpa [hlow] using h0
    simp [hbit]
  by_cases hhigh : k < 48
  · simp [show 12 ≤ k by omega, show k - 12 < 36 by omega]
  · have h0 := Nat.testBit_lt_two_pow (Nat.lt_of_lt_of_le hb (Nat.pow_le_pow_right (by decide) (show 48 ≤ k by omega)))
    simp [h0]

theorem entryTable_tableEntry {a : Nat} (ha : a % pageSize = 0) (hb : a < 2 ^ 48) :
    entryTable ((a &&& descAddrMask) ||| descValid ||| descTable) = some a := by
  have hlow : ∀ c, descAddrMask &&& c = 0 → a &&& descAddrMask &&& c = 0 := by
    intro c hc
    rw [Nat.and_assoc, hc, Nat.and_zero]
  unfold entryTable
  rw [if_pos]
  · simp only [Nat.and_or_distrib_right, Nat.and_assoc, Nat.and_self]
    rw [show descValid &&& descAddrMask = 0 by decide, show descTable &&& descAddrMask = 0 by decide]
    simp [and_addrMask ha hb]
  · simp only [Nat.and_or_distrib_right]
    rw [hlow _ (by decide), hlow _ (by decide)]
    decide

/-! ## The fields of a page descriptor -/

theorem pageDescriptor_split (paddr flags : Nat) :
    pageDescriptor paddr flags = (paddr &&& descAddrMask) ||| pageDescriptor 0 flags := by
  unfold pageDescriptor
  simp only [Nat.zero_and, Nat.zero_or, Nat.or_assoc]

/-- The fields other than the address depend on the flags only. -/
theorem pageDescriptor_and {c : Nat} (hc : descAddrMask &&& c = 0) (paddr flags : Nat) :
    pageDescriptor paddr flags &&& c = pageDescriptor 0 flags &&& c := by
  rw [pageDescriptor_split, Nat.and_or_distrib_right, Nat.and_assoc, hc, Nat.and_zero, Nat.zero_or]

theorem pageDescriptor_valid (paddr flags : Nat) : pageDescriptor paddr flags &&& descValid ≠ 0 := by
  rw [pageDescriptor_and (by decide)]
  unfold pageDescriptor
  split <;> split <;> split <;> split <;> decide

theorem pageDescriptor_user (paddr flags : Nat) :
    pageDescriptor paddr flags &&& descApUser = 0 ↔ flags &&& vmmFlagUser = 0 := by
  rw [pageDescriptor_and (by decide)]
  unfold pageDescriptor
  by_cases hu : flags &&& vmmFlagUser = 0
  · simp only [hu, ne_eq, not_true, if_false, iff_true]
    split <;> split <;> split <;> decide
  · simp only [hu, ne_eq, not_false_eq_true, if_true, iff_false]
    split <;> split <;> split <;> decide

theorem pageDescriptor_readOnly (paddr flags : Nat) :
    pageDescriptor paddr flags &&& descApRo = 0 ↔ flags &&& vmmFlagWrite ≠ 0 := by
  rw [pageDescriptor_and (by decide)]
  unfold pageDescriptor
  by_cases hw : flags &&& vmmFlagWrite = 0
  · simp only [hw, if_true, ne_eq, not_true, iff_false]
    split <;> split <;> split <;> decide
  · simp only [hw, if_false, ne_eq, not_false_eq_true, iff_true]
    split <;> split <;> split <;> decide

theorem pageDescriptor_addr {paddr : Nat} (ha : paddr % pageSize = 0) (hb : paddr < 2 ^ 48) (flags : Nat) :
    pageDescriptor paddr flags &&& descAddrMask = paddr := by
  have hrest : pageDescriptor 0 flags &&& descAddrMask = 0 := by
    unfold pageDescriptor
    split <;> split <;> split <;> split <;> decide
  rw [pageDescriptor_split, Nat.and_or_distrib_right, Nat.and_assoc, Nat.and_self, hrest, Nat.or_zero]
  exact and_addrMask ha hb

/-! ## Trees of tables -/

variable {v v' v'' : Vm} {mem mem' : TableMem} {pgd va : Nat}

/-- The pages of a table and of the tables below it. -/
def tablePages (mem : TableMem) (pgd : Nat) : Set Nat :=
  {a | ∃ p : List (Fin 512), p.length ≤ 3 ∧ nodeAt (tableChild mem) pgd p = some a}

/-- The valid entry for an address. -/
def leafOf (mem : TableMem) (pgd vaddr : Nat) : Option Nat :=
  if vmmLeafEntry mem pgd vaddr &&& descValid = 0 then none else some (vmmLeafEntry mem pgd vaddr)

/-- Where the entry for an address stands. -/
def leafKey (vaddr : Nat) : List (Fin 512) × Fin 512 := (tablePath vaddr, tableIndex vaddr 3)

/-- A tree of tables: no table is in it twice, none is a free page. -/
structure TableOk (pgd : Nat) (v : Vm) : Prop where
  pmm : PmmOk v.pmm
  root : pgd ≠ 0
  inj : PathsInj (tableChild v.mem) 3 pgd
  apart : ∀ a ∈ tablePages v.mem pgd, a ∉ freePages v.pmm

/-- Tables were added to a tree; the other pages did not change. -/
structure Grew (pgd : Nat) (v v' : Vm) : Prop where
  took : Took (tablePages v'.mem pgd \ tablePages v.mem pgd) v.pmm v'.pmm
  kept : ∀ p a, p.length ≤ 3 → nodeAt (tableChild v.mem) pgd p = some a → nodeAt (tableChild v'.mem) pgd p = some a
  inj : PathsInj (tableChild v'.mem) 3 pgd
  frame : ∀ t, t ∉ tablePages v'.mem pgd → v'.mem t = v.mem t

theorem Grew.refl (h : TableOk pgd v) : Grew pgd v v := by
  refine ⟨⟨.refl _, fun a ha => absurd ha.1 ha.2, ?_⟩, fun _ _ _ h => h, h.inj, fun _ _ => rfl⟩
  ext a
  exact ⟨fun hf => ⟨hf, fun ha => ha.2 ha.1⟩, fun hf => hf.1⟩

theorem Grew.subset (h : Grew pgd v v') : tablePages v.mem pgd ⊆ tablePages v'.mem pgd := by
  intro a ha
  obtain ⟨p, hp, hpa⟩ := ha
  exact ⟨p, hp, h.kept p a hp hpa⟩

theorem Grew.ok (h : Grew pgd v v') (hok : TableOk pgd v) : TableOk pgd v' := by
  refine ⟨hok.pmm.took h.took, hok.root, h.inj, fun a ha hf => ?_⟩
  rw [h.took.free] at hf
  exact hf.2 ⟨ha, fun hold => hok.apart a hold hf.1⟩

theorem Grew.trans (h : Grew pgd v v') (h' : Grew pgd v' v'') : Grew pgd v v'' := by
  have hsub := h.subset
  have hsub' := h'.subset
  refine ⟨⟨h.took.pool.trans h'.took.pool, ?_, ?_⟩, fun p a hp ha => h'.kept p a hp (h.kept p a hp ha), h'.inj, ?_⟩
  · intro a ha
    by_cases hmid : a ∈ tablePages v'.mem pgd
    · exact h.took.were ⟨hmid, ha.2⟩
    · have hfree := h'.took.were ⟨ha.1, hmid⟩
      rw [h.took.free] at hfree
      exact hfree.1
  · rw [h'.took.free, h.took.free]
    ext a
    simp only [Set.mem_sdiff]
    constructor
    · rintro ⟨⟨hf, h1⟩, h2⟩
      refine ⟨hf, fun h3 => h2 ⟨h3.1, fun hmid => h1 ⟨hmid, h3.2⟩⟩⟩
    · rintro ⟨hf, h1⟩
      exact ⟨⟨hf, fun h2 => h1 ⟨hsub' h2.1, h2.2⟩⟩, fun h2 => h1 ⟨h2.1, fun hold => h2.2 (hsub hold)⟩⟩
  · intro t ht
    rw [h'.frame t ht, h.frame t fun hmid => ht (hsub' hmid)]

/-- The entries of a tree in which the same tables stand at the same places. -/
theorem leafTable_eq (hroot : pgd ≠ 0) (mem : TableMem) (vaddr : Nat) :
    leafTable mem pgd vaddr = nodeAt (tableChild mem) pgd (tablePath vaddr) := by
  unfold leafTable
  rw [if_neg hroot]

theorem leafOf_congr {t : Nat} (hroot : pgd ≠ 0) (h : nodeAt (tableChild mem) pgd (tablePath va) = some t)
    (h' : nodeAt (tableChild mem') pgd (tablePath va) = some t)
      (he : mem' t (tableIndex va 3) = mem t (tableIndex va 3)) :
    leafOf mem' pgd va = leafOf mem pgd va := by
  unfold leafOf vmmLeafEntry
  rw [leafTable_eq hroot, leafTable_eq hroot, h, h']
  simp only [he]

theorem leafOf_none (hroot : pgd ≠ 0) (h : nodeAt (tableChild mem) pgd (tablePath va) = none) :
    leafOf mem pgd va = none := by
  unfold leafOf vmmLeafEntry
  rw [leafTable_eq hroot, h]
  simp

theorem leafOf_some {t : Nat} (hroot : pgd ≠ 0) (h : nodeAt (tableChild mem) pgd (tablePath va) = some t) :
    leafOf mem pgd va =
      if mem t (tableIndex va 3) &&& descValid = 0 then none else some (mem t (tableIndex va 3)) := by
  unfold leafOf vmmLeafEntry
  rw [leafTable_eq hroot, h]

/-- Memory outside of a tree does not matter to it. -/
theorem nodeAt_frame {p : List (Fin 512)} (h : ∀ a ∈ tablePages mem pgd, mem' a = mem a) (hp : p.length ≤ 3) :
    nodeAt (tableChild mem') pgd p = nodeAt (tableChild mem) pgd p := by
  refine nodeAt_congr (fun q a hq hqa => ?_) hp
  funext j
  unfold tableChild
  rw [h a ⟨q, by omega, hqa⟩]

theorem leafOf_frame (h : ∀ a ∈ tablePages mem pgd, mem' a = mem a) (va : Nat) :
    leafOf mem' pgd va = leafOf mem pgd va := by
  unfold leafOf vmmLeafEntry leafTable
  by_cases h0 : pgd = 0
  · simp only [h0, if_true]
  · rw [if_neg h0, if_neg h0, nodeAt_frame h (by simp [tablePath])]
    cases ht : nodeAt (tableChild mem) pgd (tablePath va) with
    | none => rfl
    | some t => simp only [h t ⟨tablePath va, by simp [tablePath], ht⟩]

/-! ## One page -/

/-- The entries are what they were. -/
def SameLeaves (pgd : Nat) (v v' : Vm) : Prop := ∀ vaddr, leafOf v'.mem pgd vaddr = leafOf v.mem pgd vaddr

theorem SameLeaves.trans (h : SameLeaves pgd v v') (h' : SameLeaves pgd v' v'') : SameLeaves pgd v v'' :=
  fun vaddr => (h' vaddr).trans (h vaddr)

theorem setEntry_same (t : Nat) (i : Fin 512) (e : Nat) (mem : TableMem) : setEntry t i e mem t i = e := by
  simp [setEntry]

theorem setEntry_other {t b : Nat} {i j : Fin 512} (h : b ≠ t ∨ j ≠ i) (e : Nat) (mem : TableMem) :
    setEntry t i e mem b j = mem b j := by
  unfold setEntry
  by_cases hb : b = t
  · subst hb
    rw [Function.update_self, Function.update_of_ne (h.resolve_left fun hne => hne rfl)]
  · rw [Function.update_of_ne hb]

/-- A new table `c` below the table `t` at the path `p`. -/
theorem newTable_grew {c t : Nat} {i : Fin 512} {p : List (Fin 512)} {pmm' : Pmm} (hok : TableOk pgd v)
    (hp : nodeAt (tableChild v.mem) pgd p = some t) (hlen : p.length ≤ 2) (hnone : tableChild v.mem t i = none)
    (htook : Took {c} v.pmm pmm') (hv' : v' = ⟨pmm', setEntry t i ((c &&& descAddrMask) ||| descValid ||| descTable)
      (zeroTable c v.mem)⟩) :
    Grew pgd v v' ∧ SameLeaves pgd v v' ∧ nodeAt (tableChild v'.mem) pgd (p ++ [i]) = some c := by
  have hcfree : c ∈ freePages v.pmm := htook.were rfl
  have hcman := freePages_subset_managed hcfree
  have hbound := hok.pmm.page_bound hcman
  have hfresh : ∀ q, q.length ≤ 3 → nodeAt (tableChild v.mem) pgd q ≠ some c :=
    fun q hq hqc => hok.apart c ⟨q, hq, hqc⟩ hcfree
  have htc : t ≠ c := fun he => hfresh p (by omega) (he ▸ hp)
  have hmem : v'.mem = setEntry t i ((c &&& descAddrMask) ||| descValid ||| descTable) (zeroTable c v.mem) := by
    rw [hv']
  have hother : ∀ b j, b ≠ c → (b ≠ t ∨ j ≠ i) → v'.mem b j = v.mem b j := by
    intro b j hb hbj
    rw [hmem, setEntry_other hbj, zeroTable, Function.update_of_ne hb]
  have hzero : ∀ j, v'.mem c j = 0 := by
    intro j
    rw [hmem, setEntry_other (.inl htc.symm), zeroTable, Function.update_self]
  have hpaths : ∀ q : List (Fin 512), q.length ≤ 3 →
      (q = p ++ [i] → nodeAt (tableChild v'.mem) pgd q = some c) ∧
      (q ≠ p ++ [i] → nodeAt (tableChild v'.mem) pgd q = nodeAt (tableChild v.mem) pgd q) := by
    intro q hq
    refine nodeAt_insert hp (by omega) (fun r hr hra => hok.inj r p t hr (by omega) hra hp) hnone hfresh ?_ ?_ ?_ hq
    · intro j
      unfold tableChild
      rw [hzero]
      rfl
    · unfold tableChild
      rw [hmem, setEntry_same]
      exact entryTable_tableEntry (hok.pmm.page_aligned hcman) (by unfold pageSize at hbound; omega)
    · intro b j hb hbj
      unfold tableChild
      rw [hother b j hb hbj]
  have hplen : (p ++ [i]).length ≤ 3 := by
    rw [List.length_append, List.length_singleton]
    omega
  have hnew := (hpaths (p ++ [i]) hplen).1 rfl
  have hold : nodeAt (tableChild v.mem) pgd (p ++ [i]) = none := by
    rw [nodeAt_concat, hp]
    exact hnone
  have hkept : ∀ q a, q.length ≤ 3 → nodeAt (tableChild v.mem) pgd q = some a →
      nodeAt (tableChild v'.mem) pgd q = some a := by
    intro q a hq hqa
    rw [(hpaths q hq).2 fun he => by rw [he, hold] at hqa; cases hqa]
    exact hqa
  have hcases : ∀ q a, q.length ≤ 3 → nodeAt (tableChild v'.mem) pgd q = some a →
      (q = p ++ [i] ∧ a = c) ∨ nodeAt (tableChild v.mem) pgd q = some a := by
    intro q a hq hqa
    by_cases he : q = p ++ [i]
    · rw [he, hnew] at hqa
      exact .inl ⟨he, (Option.some.inj hqa).symm⟩
    · rw [(hpaths q hq).2 he] at hqa
      exact .inr hqa
  have hpages : tablePages v'.mem pgd \ tablePages v.mem pgd = {c} := by
    ext a
    constructor
    · rintro ⟨⟨q, hq, hqa⟩, hno⟩
      rcases hcases q a hq hqa with ⟨-, rfl⟩ | hqa
      · rfl
      · exact absurd ⟨q, hq, hqa⟩ hno
    · rintro rfl
      refine ⟨⟨p ++ [i], hplen, hnew⟩, fun ⟨q, hq, hqa⟩ => hfresh q hq hqa⟩
  refine ⟨⟨?_, hkept, ?_, ?_⟩, ?_, hnew⟩
  · rw [hpages, hv']
    exact htook
  · intro q r a hq hr hqa hra
    rcases hcases q a hq hqa with ⟨rfl, rfl⟩ | hqa <;> rcases hcases r a hr hra with ⟨rfl, he⟩ | hra
    · rfl
    · exact absurd hra (hfresh r hr)
    · exact absurd (he ▸ hqa) (hfresh q hq)
    · exact hok.inj q r a hq hr hqa hra
  · intro b hb
    funext j
    refine hother b j (fun he => hb (he ▸ ⟨p ++ [i], hplen, hnew⟩)) (.inl fun he => hb ?_)
    rw [he]
    exact ⟨p, by omega, hkept p t (by omega) hp⟩
  · intro vaddr
    by_cases hpath : tablePath vaddr = p ++ [i]
    · rw [leafOf_some hok.root (by rw [hpath]; exact hnew), hzero, leafOf_none hok.root (by rw [hpath]; exact hold)]
      simp
    · have hsame := (hpaths (tablePath vaddr) (by simp [tablePath])).2 hpath
      cases hb : nodeAt (tableChild v.mem) pgd (tablePath vaddr) with
      | none => rw [leafOf_none hok.root hb, leafOf_none hok.root (hsame.trans hb)]
      | some b =>
        refine leafOf_congr hok.root hb (hsame.trans hb) (hother b _ ?_ (.inl ?_))
        · exact fun he => hfresh (tablePath vaddr) (by simp [tablePath]) (he ▸ hb)
        · -- the tables of the last level are not above it
          rintro rfl
          have := hok.inj (tablePath vaddr) p b (by simp [tablePath]) (by omega) hb hp
          rw [← this] at hlen
          simp [tablePath] at hlen

theorem nextTable_spec {t : Nat} {i : Fin 512} {p : List (Fin 512)} (hok : TableOk pgd v)
    (hp : nodeAt (tableChild v.mem) pgd p = some t) (hlen : p.length ≤ 2) :
    Wp (nextTable t i) v
      (fun c v' => Grew pgd v v' ∧ SameLeaves pgd v v' ∧ nodeAt (tableChild v'.mem) pgd (p ++ [i]) = some c)
      fun _ v' => v' = v := by
  unfold nextTable
  refine wp_bind.mpr (wp_get.mpr ?_)
  dsimp only
  refine wp_ite (fun hvalid => wp_guard (fun _ => rfl) fun htable => ?_) fun hinvalid => ?_
  · refine ⟨.refl hok, fun _ => rfl, ?_⟩
    rw [nodeAt_concat, hp]
    show entryTable (v.mem t i) = some _
    unfold entryTable
    rw [if_pos ⟨hvalid, htable⟩]
  · have hnone : tableChild v.mem t i = none := by
      unfold tableChild entryTable
      rw [if_neg fun h => hinvalid h.1]
    refine wp_bind.mpr (wp_bind.mpr (wp_onPmm.mpr ?_))
    rcases pmmAllocPage_spec hok.pmm with h | ⟨c, pmm', h, hc, htook⟩
    · rw [h]
      exact wp_guard (fun _ => rfl) fun hne => absurd rfl hne
    · rw [h]
      refine wp_guard (fun h0 => absurd h0 hc) fun _ => ?_
      exact newTable_grew hok hp hlen hnone htook rfl

/-- Writing an entry of a table of the last level. -/
theorem setLeaf_grew {t e : Nat} (hok : TableOk pgd v) (hp : nodeAt (tableChild v.mem) pgd (tablePath va) = some t) :
    Grew pgd v { v with mem := setEntry t (tableIndex va 3) e v.mem } ∧
      ∀ vaddr, leafOf (setEntry t (tableIndex va 3) e v.mem) pgd vaddr =
        if leafKey vaddr = leafKey va then (if e &&& descValid = 0 then none else some e)
        else leafOf v.mem pgd vaddr := by
  have hlen : ∀ vaddr, (tablePath vaddr).length = 3 := fun _ => rfl
  have hsame : ∀ q : List (Fin 512), q.length ≤ 3 →
      nodeAt (tableChild (setEntry t (tableIndex va 3) e v.mem)) pgd q = nodeAt (tableChild v.mem) pgd q := by
    intro q hq
    refine nodeAt_congr (fun r a hr hra => ?_) hq
    funext j
    have hat : a ≠ t := by
      rintro rfl
      have heq := hok.inj r (tablePath va) a (by omega) (by rw [hlen]) hra hp
      rw [heq, hlen] at hr
      omega
    unfold tableChild
    rw [setEntry_other (.inl hat)]
  have hpages : tablePages (setEntry t (tableIndex va 3) e v.mem) pgd = tablePages v.mem pgd := by
    ext a
    constructor
    · rintro ⟨q, hq, hqa⟩
      exact ⟨q, hq, by rw [← hsame q hq]; exact hqa⟩
    · rintro ⟨q, hq, hqa⟩
      exact ⟨q, hq, by rw [hsame q hq]; exact hqa⟩
  refine ⟨⟨?_, fun p a hp ha => by rw [hsame p hp]; exact ha, ?_, ?_⟩, fun vaddr => ?_⟩
  · rw [hpages]
    exact (Grew.refl hok).took
  · intro q r a hq hr hqa hra
    rw [hsame q hq] at hqa
    rw [hsame r hr] at hra
    exact hok.inj q r a hq hr hqa hra
  · intro b hb
    rw [hpages] at hb
    funext j
    refine setEntry_other (.inl ?_) e v.mem
    rintro rfl
    exact hb ⟨tablePath va, by rw [hlen], hp⟩
  · have hnode := hsame (tablePath vaddr) (by rw [hlen])
    split
    · rename_i hkey
      obtain ⟨hpath, hindex⟩ := Prod.mk.inj hkey
      have hnew : nodeAt (tableChild (setEntry t (tableIndex va 3) e v.mem)) pgd (tablePath vaddr) = some t := by
        rw [hnode, hpath, hp]
      rw [leafOf_some hok.root hnew, hindex, setEntry_same]
    · rename_i hkey
      cases hb : nodeAt (tableChild v.mem) pgd (tablePath vaddr) with
      | none =>
        rw [hb] at hnode
        rw [leafOf_none hok.root hnode, leafOf_none hok.root hb]
      | some b =>
        rw [hb] at hnode
        refine leafOf_congr hok.root hb hnode (setEntry_other ?_ e v.mem)
        by_contra hno
        simp only [not_or, not_not] at hno
        obtain ⟨rfl, hindex⟩ := hno
        have hpath := hok.inj _ _ b (by rw [hlen]) (by rw [hlen]) hb hp
        exact hkey (Prod.ext hpath hindex)

/-- The entries after the entry for `va` has become `e`. -/
def SetLeaf (pgd va : Nat) (e : Option Nat) (v v' : Vm) : Prop :=
  ∀ vaddr, leafOf v'.mem pgd vaddr = if leafKey vaddr = leafKey va then e else leafOf v.mem pgd vaddr

/-- `vmm_map_page` writes an entry that was not valid, or fails and changes no entry. -/
theorem vmmMapPage_spec {paddr flags : Nat} (hok : TableOk pgd v) :
    Wp (vmmMapPage pgd va paddr flags) v
      (fun _ v' => Grew pgd v v' ∧ leafOf v.mem pgd va = none ∧ SetLeaf pgd va (some (pageDescriptor paddr flags)) v v')
      fun _ v' => Grew pgd v v' ∧ SameLeaves pgd v v' := by
  unfold vmmMapPage
  have hstart : Grew pgd v v ∧ SameLeaves pgd v v := ⟨.refl hok, fun _ => rfl⟩
  refine wp_guard (fun _ => hstart) fun _ => wp_bind.mpr ?_
  refine Wp.mono (nextTable_spec hok (p := []) rfl (by simp)) (fun t1 v1 h1 => ?_) fun _ v1 h1 => h1 ▸ hstart
  obtain ⟨hg1, hl1, hn1⟩ := h1
  have hok1 := hg1.ok hok
  refine wp_bind.mpr (Wp.mono (nextTable_spec hok1 hn1 (by simp)) (fun t2 v2 h2 => ?_) fun _ v2 h2 => h2 ▸ ⟨hg1, hl1⟩)
  obtain ⟨hg2, hl2, hn2⟩ := h2
  have hok2 := hg2.ok hok1
  have hg2 := hg1.trans hg2
  have hl2 := hl1.trans hl2
  refine wp_bind.mpr (Wp.mono (nextTable_spec hok2 hn2 (by simp)) (fun t3 v3 h3 => ?_) fun _ v3 h3 => h3 ▸ ⟨hg2, hl2⟩)
  obtain ⟨hg3, hl3, hn3⟩ := h3
  have hok3 := hg3.ok hok2
  have hg3 := hg2.trans hg3
  have hl3 := hl2.trans hl3
  have hleaf : nodeAt (tableChild v3.mem) pgd (tablePath va) = some t3 := hn3
  refine wp_bind.mpr (wp_get.mpr (wp_guard (fun _ => ⟨hg3, hl3⟩) fun hfree => wp_modify.mpr ?_))
  obtain ⟨hg4, hset⟩ := setLeaf_grew (e := pageDescriptor paddr flags) hok3 hleaf
  refine ⟨hg3.trans hg4, ?_, fun vaddr => ?_⟩
  · rw [← hl3 va, leafOf_some hok3.root hleaf, if_pos (not_not.mp hfree)]
  · show leafOf (setEntry t3 (tableIndex va 3) (pageDescriptor paddr flags) v3.mem) pgd vaddr = _
    rw [hset vaddr, if_neg (pageDescriptor_valid paddr flags), hl3 vaddr]

/-- `vmm_unmap_page` clears a valid entry, or fails and changes nothing. -/
theorem vmmUnmapPage_spec (hok : TableOk pgd v) (hva : va % pageSize = 0) :
    Wp (vmmUnmapPage pgd va) v
      (fun _ v' => Grew pgd v v' ∧ leafOf v.mem pgd va ≠ none ∧ SetLeaf pgd va none v v')
      fun _ v' => v' = v ∧ leafOf v.mem pgd va = none := by
  unfold vmmUnmapPage
  refine wp_guard (fun h => ?_) fun _ => wp_bind.mpr (wp_get.mpr ?_)
  · rcases h with h | h
    · exact absurd h hok.root
    · exact absurd hva h
  rw [leafTable_eq hok.root]
  cases ht : nodeAt (tableChild v.mem) pgd (tablePath va) with
  | none => exact ⟨rfl, leafOf_none hok.root ht⟩
  | some t =>
    refine wp_bind.mpr (wp_get.mpr (wp_guard (fun h => ⟨rfl, ?_⟩) fun h => wp_modify.mpr ?_))
    · rw [leafOf_some hok.root ht, if_pos h]
    · obtain ⟨hg, hset⟩ := setLeaf_grew (e := 0) hok ht
      refine ⟨hg, ?_, fun vaddr => ?_⟩
      · rw [leafOf_some hok.root ht, if_neg h]
        simp
      · exact (hset vaddr).trans (by simp)

/-! ## Ranges -/

/-- Two addresses of the address space with one entry are in one page. -/
theorem page_of_leafKey {vb : Nat} (ha : va < 2 ^ 48) (hb : vb < 2 ^ 48) (h : leafKey va = leafKey vb) :
    va / pageSize = vb / pageSize := by
  simp only [leafKey, tablePath, tableIndex, Prod.mk.injEq, List.cons.injEq, and_true, Fin.ext_iff, Fin.ofNat,
    Nat.reduceMul, Nat.reduceSub, Nat.reducePow] at h
  unfold pageSize
  omega

theorem leafKey_of_page {vb : Nat} (h : va / pageSize = vb / pageSize) : leafKey va = leafKey vb := by
  have hdiv : ∀ x k : Nat, x / 2 ^ (12 + k) = x / pageSize / 2 ^ k := by
    intro x k
    rw [Nat.pow_add, ← Nat.div_div_eq_div_mul]
    rfl
  have hindex : ∀ level, level ≤ 3 → tableIndex va level = tableIndex vb level := by
    intro level hl
    unfold tableIndex
    rw [show 39 - level * 9 = 12 + (27 - level * 9) by omega, hdiv, hdiv, h]
  simp only [leafKey, tablePath, hindex 0 (by omega), hindex 1 (by omega), hindex 2 (by omega), hindex 3 (by omega)]

variable {vaddr paddr flags n : Nat}

/-- The page `i` of the range of `n` pages from `vaddr` on has the entry for `va`. -/
def InPages (vaddr n va : Nat) : Prop := ∃ i < n, leafKey va = leafKey (vaddr + i * pageSize)

/-- `n` pages from `vaddr` on were mapped to those from `paddr` on. -/
structure MappedPages (pgd vaddr paddr flags n : Nat) (v v' : Vm) : Prop where
  were : ∀ va, InPages vaddr n va → leafOf v.mem pgd va = none
  set : ∀ i < n, ∀ va, leafKey va = leafKey (vaddr + i * pageSize) →
    leafOf v'.mem pgd va = some (pageDescriptor (paddr + i * pageSize) flags)
  other : ∀ va, ¬InPages vaddr n va → leafOf v'.mem pgd va = leafOf v.mem pgd va

/-- The entries of `n` pages from `vaddr` on are cleared. -/
structure ClearedPages (pgd vaddr n : Nat) (v v' : Vm) : Prop where
  cleared : ∀ va, InPages vaddr n va → leafOf v'.mem pgd va = none
  other : ∀ va, ¬InPages vaddr n va → leafOf v'.mem pgd va = leafOf v.mem pgd va

theorem inPages_succ : InPages vaddr (n + 1) va ↔
    InPages vaddr n va ∨ leafKey va = leafKey (vaddr + n * pageSize) := by
  constructor
  · rintro ⟨i, hi, hkey⟩
    rcases Nat.lt_succ_iff_lt_or_eq.mp hi with hi | rfl
    · exact .inl ⟨i, hi, hkey⟩
    · exact .inr hkey
  · rintro (⟨i, hi, hkey⟩ | hkey)
    · exact ⟨i, by omega, hkey⟩
    · exact ⟨n, by omega, hkey⟩

theorem leafOf_key {vb : Nat} (mem : TableMem) (pgd : Nat) (h : leafKey va = leafKey vb) :
    leafOf mem pgd va = leafOf mem pgd vb := by
  obtain ⟨hpath, hindex⟩ := Prod.mk.inj h
  unfold leafOf vmmLeafEntry leafTable
  rw [hpath, hindex]

/-- One page more. -/
theorem MappedPages.snoc (h : MappedPages pgd vaddr paddr flags n v v')
    (hnone : leafOf v'.mem pgd (vaddr + n * pageSize) = none)
    (hset : SetLeaf pgd (vaddr + n * pageSize) (some (pageDescriptor (paddr + n * pageSize) flags)) v' v'') :
    MappedPages pgd vaddr paddr flags (n + 1) v v'' := by
  -- the new page is none of those before it
  have hnew : ¬InPages vaddr n (vaddr + n * pageSize) := by
    rintro ⟨i, hi, hkey⟩
    rw [h.set i hi _ hkey] at hnone
    cases hnone
  have hfirst : ∀ vaddr', leafKey vaddr' = leafKey (vaddr + n * pageSize) → ¬InPages vaddr n vaddr' := by
    rintro vaddr' hkey ⟨i, hi, hki⟩
    exact hnew ⟨i, hi, hkey.symm.trans hki⟩
  refine ⟨fun va hva => ?_, fun i hi va hkey => ?_, fun va hva => ?_⟩
  · rcases inPages_succ.mp hva with hva | hkey
    · exact h.were va hva
    · rw [← h.other va (hfirst va hkey), leafOf_key _ _ hkey, hnone]
  · rw [hset va]
    rcases Nat.lt_succ_iff_lt_or_eq.mp hi with hi | rfl
    · rw [if_neg fun hn => hfirst va hn ⟨i, hi, hkey⟩]
      exact h.set i hi va hkey
    · rw [if_pos hkey]
  · rw [inPages_succ, not_or] at hva
    rw [hset va, if_neg hva.2, h.other va hva.1]

theorem ClearedPages.snoc (h : ClearedPages pgd vaddr n v v')
    (hset : ∀ va, leafOf v''.mem pgd va =
      if leafKey va = leafKey (vaddr + n * pageSize) then none else leafOf v'.mem pgd va) :
    ClearedPages pgd vaddr (n + 1) v v'' := by
  refine ⟨fun va hva => ?_, fun va hva => ?_⟩
  · rw [hset va]
    split
    · rfl
    · rename_i hne
      exact h.cleared va ((inPages_succ.mp hva).resolve_right hne)
  · rw [inPages_succ, not_or] at hva
    rw [hset va, if_neg hva.2, h.other va hva.1]

theorem ClearedPages.zero (h : SameLeaves pgd v v') : ClearedPages pgd vaddr 0 v v' :=
  ⟨fun _ ⟨_, hi, _⟩ => absurd hi (Nat.not_lt_zero _), fun va _ => h va⟩

theorem page_aligned (hal : vaddr % pageSize = 0) (i : Nat) : (vaddr + i * pageSize) % pageSize = 0 := by
  rw [Nat.add_mul_mod_self_right, hal]

theorem rollback_spec (hok : TableOk pgd v) (hal : vaddr % pageSize = 0) (count : Nat) :
    Wp (rollback pgd vaddr count) v (fun _ v' => Grew pgd v v' ∧ ClearedPages pgd vaddr count v v')
      fun _ _ => False := by
  induction count with
  | zero => exact ⟨.refl hok, .zero fun _ => rfl⟩
  | succ count ih =>
    refine wp_bind.mpr (Wp.mono ih (fun _ v1 h1 => ?_) fun _ _ h => h)
    obtain ⟨hg, hc⟩ := h1
    refine wp_bind.mpr (wp_attempt_all.mpr (Wp.mono (vmmUnmapPage_spec (hg.ok hok) (page_aligned hal count)) ?_ ?_))
    · intro _ v2 h2
      exact ⟨hg.trans h2.1, hc.snoc h2.2.2⟩
    · rintro _ _ ⟨rfl, hnone⟩
      refine ⟨hg, hc.snoc fun va => ?_⟩
      split
      · rename_i hkey
        rw [leafOf_key _ _ hkey, hnone]
      · rfl

/-- The loop of `vmm_map_range`, with `done` pages mapped since the state `v`. -/
theorem mapPages_spec {left done : Nat} (hok : TableOk pgd v) (hal : vaddr % pageSize = 0) (hg : Grew pgd v v')
    (hm : MappedPages pgd vaddr paddr flags done v v') :
    Wp (mapPages pgd vaddr paddr flags left done) v'
      (fun _ v'' => Grew pgd v v'' ∧ MappedPages pgd vaddr paddr flags (done + left) v v'')
      fun _ v'' => Grew pgd v v'' ∧ SameLeaves pgd v v'' := by
  induction left generalizing done v' with
  | zero => exact ⟨hg, hm⟩
  | succ left ih =>
    refine wp_bind.mpr (wp_attempt_all.mpr (Wp.mono (vmmMapPage_spec (hg.ok hok)) ?_ ?_))
    · rintro _ v1 ⟨hg1, hnone, hset⟩
      have hrest := ih (hg.trans hg1) (hm.snoc hnone hset)
      rw [show done + 1 + left = done + (left + 1) by omega] at hrest
      exact hrest
    · rintro _ v1 ⟨hg1, hsame⟩
      have hg1 := hg.trans hg1
      refine wp_bind.mpr (Wp.mono (rollback_spec (hg1.ok hok) hal done) (fun _ v2 h2 => ?_) fun _ _ h => h.elim)
      obtain ⟨hg2, hc⟩ := h2
      refine ⟨hg1.trans hg2, fun va => ?_⟩
      by_cases hva : InPages vaddr done va
      · rw [hc.cleared va hva, hm.were va hva]
      · rw [hc.other va hva, hsame va, hm.other va hva]

/-- The number of pages of `size` bytes from `vaddr` on. -/
def rangePages (vaddr size : Nat) : Nat :=
  if size = 0 then 0 else (pageSpan (vaddr - pageAlignDown vaddr) size).getD 0 / pageSize

theorem pageAlignDown_aligned (value : Nat) : pageAlignDown value % pageSize = 0 := Nat.mul_mod_left _ _

theorem pageAlignDown_of_aligned (h : vaddr % pageSize = 0) : pageAlignDown vaddr = vaddr :=
  Nat.div_mul_cancel (Nat.dvd_of_mod_eq_zero h)

theorem pageSpan_aligned (h0 : n ≠ 0) (hn : n * pageSize ≤ 2 ^ 48) :
    pageSpan 0 (n * pageSize) = some (n * pageSize) := by
  have hup : pageAlignUp (n * pageSize) = n * pageSize := by
    unfold pageAlignUp pageSize at *
    omega
  unfold pageSpan
  rw [if_neg (by unfold pageSize at *; omega), if_neg (by unfold uint64Max; omega),
    if_neg (by unfold pageSize; omega), Nat.zero_add, hup]

theorem rangePages_of_aligned (h : vaddr % pageSize = 0) (hn : n * pageSize ≤ 2 ^ 48) :
    rangePages vaddr (n * pageSize) = n := by
  unfold rangePages
  split
  · rename_i h0
    unfold pageSize at h0
    omega
  · rename_i h0
    have hn0 : n ≠ 0 := fun he => h0 (by rw [he, Nat.zero_mul])
    rw [pageAlignDown_of_aligned h, Nat.sub_self, pageSpan_aligned hn0 hn]
    exact Nat.mul_div_cancel n (by decide)

/-- `vmm_map_range` maps all pages of the range, or fails and changes no entry. -/
theorem vmmMapRange_spec {size : Nat} (hok : TableOk pgd v) :
    Wp (vmmMapRange pgd vaddr paddr size flags) v
      (fun _ v' => Grew pgd v v' ∧
        MappedPages pgd (pageAlignDown vaddr) (pageAlignDown paddr) flags (rangePages vaddr size) v v')
      fun _ v' => Grew pgd v v' ∧ SameLeaves pgd v v' := by
  have hstart : Grew pgd v v ∧ SameLeaves pgd v v := ⟨.refl hok, fun _ => rfl⟩
  have hnone : ∀ a p, MappedPages pgd a p flags 0 v v := by
    intro a p
    refine ⟨?_, fun i hi => absurd hi (Nat.not_lt_zero _), fun _ _ => rfl⟩
    rintro _ ⟨i, hi, -⟩
    exact absurd hi (Nat.not_lt_zero _)
  unfold vmmMapRange
  refine wp_guard (fun _ => hstart) fun _ => wp_ite (fun h0 => ?_) fun h0 => ?_
  · unfold rangePages
    rw [if_pos h0]
    exact ⟨.refl hok, hnone _ _⟩
  unfold rangePages
  rw [if_neg h0]
  dsimp only
  cases pageSpan (vaddr - pageAlignDown vaddr) size with
  | none => exact hstart
  | some span =>
    refine wp_guard (fun _ => hstart) fun _ => ?_
    refine Wp.mono (mapPages_spec hok (pageAlignDown_aligned vaddr) (.refl hok) (hnone _ _)) ?_ fun _ _ h => h
    intro _ v' h
    rw [Nat.zero_add] at h
    exact h

/-- Some entries of `n` pages from `vaddr` on are cleared, the others are what they were. -/
def FewerPages (pgd vaddr n : Nat) (v v' : Vm) : Prop :=
  ∀ va, leafOf v'.mem pgd va = leafOf v.mem pgd va ∨ (leafOf v'.mem pgd va = none ∧ InPages vaddr n va)

/-- No two pages of the range have one entry. -/
def DistinctPages (vaddr n : Nat) : Prop :=
  ∀ i < n, ∀ j < n, leafKey (vaddr + i * pageSize) = leafKey (vaddr + j * pageSize) → i = j

theorem distinctPages_of_bound (hal : vaddr % pageSize = 0) (hb : vaddr + n * pageSize ≤ 2 ^ 48) :
    DistinctPages vaddr n := by
  intro i hi j hj hkey
  have hpage := page_of_leafKey (by unfold pageSize at *; omega) (by unfold pageSize at *; omega) hkey
  unfold pageSize at *
  omega

theorem ClearedPages.fewer (h : ClearedPages pgd vaddr n v v') {m : Nat} (hm : n ≤ m) :
    FewerPages pgd vaddr m v v' := by
  intro va
  by_cases hva : InPages vaddr n va
  · obtain ⟨i, hi, hkey⟩ := hva
    exact .inr ⟨h.cleared va ⟨i, hi, hkey⟩, i, by omega, hkey⟩
  · exact .inl (h.other va hva)

/-- The loop of `vmm_unmap_range`, with `done` pages unmapped since the state `v`. It stops at a page that
has no entry. -/
theorem unmapPages_spec {left done : Nat} (hok : TableOk pgd v) (hal : vaddr % pageSize = 0) (hg : Grew pgd v v')
    (hc : ClearedPages pgd vaddr done v v') :
    Wp (unmapPages pgd vaddr left done) v'
      (fun _ v'' => Grew pgd v v'' ∧ ClearedPages pgd vaddr (done + left) v v'')
      fun _ v'' => Grew pgd v v'' ∧ FewerPages pgd vaddr (done + left) v v'' ∧
        (DistinctPages vaddr (done + left) → ∃ i < done + left, leafOf v.mem pgd (vaddr + i * pageSize) = none) := by
  induction left generalizing done v' with
  | zero => exact ⟨hg, hc⟩
  | succ left ih =>
    refine wp_bind.mpr (Wp.mono (vmmUnmapPage_spec (hg.ok hok) (page_aligned hal done)) ?_ ?_)
    · rintro _ v1 ⟨hg1, -, hset⟩
      have hrest := ih (hg.trans hg1) (hc.snoc hset)
      rw [show done + 1 + left = done + (left + 1) by omega] at hrest
      exact hrest
    · rintro _ _ ⟨rfl, hnone⟩
      refine ⟨hg, hc.fewer (by omega), fun hd => ⟨done, by omega, ?_⟩⟩
      rw [← hc.other, hnone]
      rintro ⟨i, hi, hkey⟩
      have := hd done (by omega) i (by omega) hkey
      omega

/-- `vmm_unmap_range` of whole pages clears their entries; it fails only if one of them has none. -/
theorem vmmUnmapRange_spec (hok : TableOk pgd v) (hal : vaddr % pageSize = 0)
    (hb : vaddr + n * pageSize ≤ 2 ^ 48) :
    Wp (vmmUnmapRange pgd vaddr (n * pageSize)) v
      (fun _ v' => Grew pgd v v' ∧ ClearedPages pgd vaddr n v v')
      fun _ v' => Grew pgd v v' ∧ FewerPages pgd vaddr n v v' ∧
        ∃ i < n, leafOf v.mem pgd (vaddr + i * pageSize) = none := by
  unfold vmmUnmapRange
  refine wp_guard (fun h => absurd h hok.root) fun _ => wp_ite (fun h0 => ?_) fun h0 => ?_
  · obtain rfl : n = 0 := by
      unfold pageSize at h0
      omega
    exact ⟨.refl hok, .zero fun _ => rfl⟩
  have hn0 : n ≠ 0 := fun he => h0 (by rw [he, Nat.zero_mul])
  dsimp only
  rw [pageAlignDown_of_aligned hal, Nat.sub_self, pageSpan_aligned hn0 (by omega)]
  refine wp_guard (fun hbig => ?_) fun _ => ?_
  · unfold uint64Max at hbig
    omega
  rw [Nat.mul_div_cancel n (by decide)]
  refine Wp.mono (unmapPages_spec hok hal (.refl hok) (.zero fun _ => rfl)) (fun _ v' h => ?_) fun _ v' h => ?_
  · rw [Nat.zero_add] at h
    exact h
  · rw [Nat.zero_add] at h
    exact ⟨h.1, h.2.1, h.2.2 (distinctPages_of_bound hal hb)⟩

/-! ## Freeing a tree -/

/-- The tables are freed one by one, the children before their parents. -/
theorem freeTableLevel_eq (mem : TableMem) (depth table : Nat) (pmm : Pmm)
    (h0 : ∀ p : List (Fin 512), p.length ≤ depth → nodeAt (tableChild mem) table p ≠ some 0) :
    freeTableLevel mem depth table pmm =
      pmmFreeAll (treeNodes (tableChild mem) (List.finRange 512) depth table) pmm := by
  induction depth generalizing table pmm with
  | zero =>
    unfold freeTableLevel
    rw [if_neg fun h => h0 [] (by simp) (by rw [h]; rfl)]
    rfl
  | succ depth ih =>
    unfold freeTableLevel treeNodes
    rw [if_neg fun h => h0 [] (by simp) (by rw [h]; rfl)]
    unfold pmmFreeAll
    rw [List.foldl_append, List.foldl_flatMap, List.foldl_cons, List.foldl_nil]
    refine congrArg (pmmFreePage table) ?_
    refine List.foldl_ext _ _ pmm fun pmm i _ => ?_
    cases hc : tableChild mem table i with
    | none => rfl
    | some c =>
      refine ih c pmm fun p hp hno => ?_
      refine h0 (i :: p) (by simpa using hp) ?_
      show (tableChild mem table i).bind _ = _
      rw [hc]
      exact hno

end Armonios
