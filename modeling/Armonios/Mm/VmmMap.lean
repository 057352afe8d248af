import Armonios.Mm.VmmSpec

/-!
# The map of a page table

A hierarchy of tables stands for a partial map from pages to descriptors (`pageMap`). `Built` is a hierarchy made by
calls of `vmm.c`, while others use the allocator and their own pages.

* `Built.hierarchy`: its tables are apart, and an entry that is not valid is 0;
* `vmm_pageMap`: what the calls do to the map.
-/

namespace Armonios

variable {pgd va : Nat} {v v' v'' : Vm}

/-! ## Entries that are not valid -/

/-- An entry is 0, or it is valid and says that a table or a page follows. -/
def CleanEntry (e : Nat) : Prop := e = 0 ∨ (e &&& descValid ≠ 0 ∧ e &&& descPage ≠ 0)

def CleanTable (mem : TableMem) (a : Nat) : Prop := ∀ i, CleanEntry (mem a i)

/-- Clean tables stay clean, and the pages that are taken are clean. -/
structure CleanStep (v v' : Vm) : Prop where
  ok : PmmOk v'.pmm
  kept : ∀ a, CleanTable v.mem a → CleanTable v'.mem a
  taken : ∀ a ∈ freePages v.pmm, a ∉ freePages v'.pmm → CleanTable v'.mem a

def KeepsClean (v v' : Vm) : Prop := PmmOk v.pmm → CleanStep v v'

instance : Std.Refl KeepsClean := ⟨fun _ hok => ⟨hok, fun _ h => h, fun _ h hn => absurd h hn⟩⟩

instance : IsTrans Vm KeepsClean where
  trans := by
    intro v v' v'' h h' hok
    have hstep := h hok
    have hstep' := h' hstep.ok
    refine ⟨hstep'.ok, fun a ha => hstep'.kept a (hstep.kept a ha), fun a ha hn => ?_⟩
    by_cases hmid : a ∈ freePages v'.pmm
    · exact hstep'.taken a hmid hn
    · exact hstep'.kept a (hstep.taken a ha hmid)

theorem CleanTable.setEntry {mem : TableMem} {a : Nat} (h : CleanTable mem a) (t : Nat) (i : Fin 512) {e : Nat}
    (he : CleanEntry e) : CleanTable (setEntry t i e mem) a := by
  intro j
  by_cases hat : a = t ∧ j = i
  · obtain ⟨rfl, rfl⟩ := hat
    rwa [setEntry_same]
  · have hother : a ≠ t ∨ j ≠ i := by
      by_contra hno
      simp only [not_or, not_not] at hno
      exact hat hno
    rw [setEntry_other hother]
    exact h j

theorem moves_setEntry (t : Nat) (i : Fin 512) {e : Nat} (he : CleanEntry e) :
    Moves KeepsClean (modify fun v => { v with mem := setEntry t i e v.mem } : VmM PUnit) :=
  Moves.modify fun _ hok => ⟨hok, fun _ ha => ha.setEntry t i he, fun _ h hn => absurd h hn⟩

/-- A new table is zeroed. -/
theorem moves_vmmNewTable : Moves KeepsClean vmmNewTable := by
  intro v
  by_cases hok : PmmOk v.pmm
  · unfold vmmNewTable
    refine wp_bind.mpr (wp_onPmm.mpr ?_)
    rcases pmmAllocPage_spec hok with h | ⟨c, pmm', h, hc, htook⟩
    · rw [h]
      exact wp_guard (fun _ => Std.Refl.refl v) fun hne => absurd rfl hne
    rw [h]
    refine wp_guard (fun h0 => absurd h0 hc) fun _ => wp_bind.mpr (wp_modify.mpr fun _ => ⟨hok.took htook, ?_, ?_⟩)
    · intro a ha
      by_cases hac : a = c
      · intro i
        simp [zeroTable, hac, CleanEntry]
      · intro i
        simp only [zeroTable, Function.update_of_ne hac]
        exact ha i
    · intro a ha hn
      rw [htook.free] at hn
      have hac : a = c := by
        by_contra hne
        exact hn ⟨ha, hne⟩
      intro i
      simp [zeroTable, hac, CleanEntry]
  · refine Wp.mono wp_self (fun _ _ _ h => absurd h hok) fun _ _ _ h => absurd h hok

theorem cleanEntry_table (c : Nat) : CleanEntry ((c &&& descAddrMask) ||| descValid ||| descTable) := by
  refine .inr ⟨?_, ?_⟩
  · rw [Nat.and_or_distrib_right, Nat.and_or_distrib_right, Nat.and_assoc,
    show descAddrMask &&& descValid = 0 by decide,
      Nat.and_zero]
    decide
  · rw [Nat.and_or_distrib_right, Nat.and_or_distrib_right, Nat.and_assoc, show descAddrMask &&& descPage = 0 by decide,
      Nat.and_zero]
    decide

theorem cleanEntry_page (paddr flags : Nat) : CleanEntry (pageDescriptor paddr flags) := by
  refine .inr ⟨pageDescriptor_valid paddr flags, ?_⟩
  rw [pageDescriptor_and (by decide)]
  unfold pageDescriptor
  split <;> split <;> split <;> split <;> decide

theorem moves_nextTable (t : Nat) (i : Fin 512) : Moves KeepsClean (nextTable t i) := by
  unfold nextTable
  refine Moves.get_bind fun v => ?_
  intro s
  refine wp_ite (fun _ => ?_) fun _ => ?_
  · exact wp_guard (fun _ => Std.Refl.refl s) fun _ => Moves.pure _ s
  · exact Moves.bind moves_vmmNewTable (fun c => Moves.bind
    (moves_setEntry t i (cleanEntry_table c)) fun _ => Moves.pure _) s

theorem moves_vmmMapPage (pgd vaddr paddr flags : Nat) : Moves KeepsClean (vmmMapPage pgd vaddr paddr flags) := by
  unfold vmmMapPage
  exact Moves.guard ((moves_nextTable _ _).bind fun _ => (moves_nextTable _ _).bind fun _ =>
    (moves_nextTable _ _).bind fun _ => Moves.get_bind fun v =>
      Moves.guard (moves_setEntry _ _ (cleanEntry_page paddr flags)))

theorem moves_vmmUnmapPage (pgd vaddr : Nat) : Moves KeepsClean (vmmUnmapPage pgd vaddr) := by
  unfold vmmUnmapPage
  refine Moves.guard (Moves.get_bind fun v => ?_)
  cases leafTable v.mem pgd vaddr with
  | none => exact Moves.error _
  | some t => exact Moves.get_bind fun v => Moves.guard (moves_setEntry _ _ (.inl rfl))

theorem moves_rollback (pgd vaddr count : Nat) : Moves KeepsClean (rollback pgd vaddr count) := by
  induction count with
  | zero => exact Moves.pure _
  | succ count ih => exact ih.bind fun _ => Moves.bind (Moves.attempt (moves_vmmUnmapPage _ _)) fun _ => Moves.pure _

theorem moves_mapPages (pgd vaddr paddr flags left done : Nat) :
    Moves KeepsClean (mapPages pgd vaddr paddr flags left done) := by
  induction left generalizing done with
  | zero => exact Moves.pure _
  | succ left ih =>
    refine Moves.bind (Moves.attempt (moves_vmmMapPage _ _ _ _)) fun r => ?_
    cases r with
    | some _ => exact ih (done + 1)
    | none => exact (moves_rollback _ _ _).bind fun _ => Moves.error _

theorem moves_vmmMapRange (pgd vaddr paddr size flags : Nat) :
    Moves KeepsClean (vmmMapRange pgd vaddr paddr size flags) := by
  unfold vmmMapRange
  refine Moves.guard ?_
  intro v
  refine wp_ite (fun _ => Moves.pure _ v) fun _ => ?_
  dsimp only
  cases pageSpan (vaddr - pageAlignDown vaddr) size with
  | none => exact Moves.error _ v
  | some span => exact Moves.guard (moves_mapPages _ _ _ _ _ _) v

theorem moves_unmapPages (pgd vaddr left done : Nat) : Moves KeepsClean (unmapPages pgd vaddr left done) := by
  induction left generalizing done with
  | zero => exact Moves.pure _
  | succ left ih => exact (moves_vmmUnmapPage _ _).bind fun _ => ih (done + 1)

theorem moves_vmmUnmapRange (pgd vaddr size : Nat) : Moves KeepsClean (vmmUnmapRange pgd vaddr size) := by
  unfold vmmUnmapRange
  refine Moves.guard ?_
  intro v
  refine wp_ite (fun _ => Moves.pure _ v) fun _ => ?_
  dsimp only
  cases pageSpan (vaddr - pageAlignDown vaddr) size with
  | none => exact Moves.error _ v
  | some span => exact Moves.guard (moves_unmapPages _ _ _ _) v

/-! ## Hierarchies -/

/-- The tables are apart and clean. -/
structure Hierarchy (pgd : Nat) (v : Vm) : Prop extends TableOk pgd v where
  clean : ∀ a ∈ tablePages v.mem pgd, CleanTable v.mem a

theorem Hierarchy.grew (h : Hierarchy pgd v) (hg : Grew pgd v v') (hk : KeepsClean v v') : Hierarchy pgd v' := by
  have hstep := hk h.pmm
  refine ⟨hg.ok h.toTableOk, fun a ha => ?_⟩
  by_cases hold : a ∈ tablePages v.mem pgd
  · exact hstep.kept a (h.clean a hold)
  · refine hstep.taken a (hg.took.were ⟨ha, hold⟩) fun hf => ?_
    rw [hg.took.free] at hf
    exact hf.2 ⟨ha, hold⟩

/-- A call of `vmm.c` on a hierarchy. -/
inductive VmmCall where
  | mapPage (vaddr paddr flags : Nat)
  | mapRange (vaddr paddr size flags : Nat)
  | unmapPage (vaddr : Nat)
  | unmapRange (vaddr size : Nat)

def VmmCall.run (pgd : Nat) : VmmCall → VmM Unit
  | mapPage vaddr paddr flags => vmmMapPage pgd vaddr paddr flags
  | mapRange vaddr paddr size flags => vmmMapRange pgd vaddr paddr size flags
  | unmapPage vaddr => vmmUnmapPage pgd vaddr
  | unmapRange vaddr size => vmmUnmapRange pgd vaddr size

/-- A new root, calls that succeed or fail, and others who take and free pages and write to what is not a table. -/
inductive Built (pgd : Nat) : Vm → Prop where
  | new {v v' : Vm} (hpmm : PmmOk v.pmm) (hnew : vmmNewTable v = .ok pgd v') : Built pgd v'
  | call {v v' : Vm} (h : Built pgd v) (c : VmmCall) (ok : Bool) (hrun : Ran (c.run pgd) v ok v') : Built pgd v'
  | others {v : Vm} (h : Built pgd v) (v' : Vm) (hpmm : PmmOk v'.pmm)
      (hfree : ∀ a ∈ tablePages v.mem pgd, a ∉ freePages v'.pmm)
      (hmem : ∀ a ∈ tablePages v.mem pgd, v'.mem a = v.mem a) : Built pgd v'

/-- Whatever a call returns, tables were added at most. -/
theorem VmmCall.grew (h : TableOk pgd v) (c : VmmCall) :
    Wp (c.run pgd) v (fun _ v' => Grew pgd v v') fun _ v' => Grew pgd v v' := by
  cases c with
  | mapPage vaddr paddr flags => exact (vmmMapPage_spec h).mono (fun _ _ h' => h'.1) fun _ _ h' => h'.1
  | mapRange vaddr paddr size flags => exact (vmmMapRange_spec h).mono (fun _ _ h' => h'.1) fun _ _ h' => h'.1
  | unmapPage vaddr =>
    by_cases hal : vaddr % pageSize = 0
    · exact (vmmUnmapPage_spec h hal).mono (fun _ _ h' => h'.1) fun _ v' h' => by
        obtain rfl := h'.1
        exact .refl h
    · show Wp (vmmUnmapPage pgd vaddr) v _ _
      unfold vmmUnmapPage
      exact wp_guard (fun _ => .refl h) fun hno => absurd (.inr hal) hno
  | unmapRange vaddr size =>
    show Wp (vmmUnmapRange pgd vaddr size) v _ _
    unfold vmmUnmapRange
    refine wp_guard (fun _ => .refl h) fun _ => wp_ite (fun _ => .refl h) fun _ => ?_
    dsimp only
    cases pageSpan (vaddr - pageAlignDown vaddr) size with
    | none => exact Grew.refl h
    | some span =>
      refine wp_guard (fun _ => .refl h) fun _ => ?_
      exact (unmapPages_spec h (pageAlignDown_aligned vaddr) (.refl h) (.zero fun _ => rfl)).mono
        (fun _ _ h' => h'.1) fun _ _ h' => h'.1

theorem VmmCall.keepsClean (pgd : Nat) (c : VmmCall) : Moves KeepsClean (c.run pgd) := by
  cases c with
  | mapPage vaddr paddr flags => exact moves_vmmMapPage _ _ _ _
  | mapRange vaddr paddr size flags => exact moves_vmmMapRange _ _ _ _ _
  | unmapPage vaddr => exact moves_vmmUnmapPage _ _
  | unmapRange vaddr size => exact moves_vmmUnmapRange _ _ _

/-- The root of a new hierarchy is its only table. -/
theorem hierarchy_new (hpmm : PmmOk v.pmm) (hnew : vmmNewTable v = .ok pgd v') :
    Hierarchy pgd v' ∧ ∀ va, leafOf v'.mem pgd va = none := by
  have hw : Wp vmmNewTable v (fun pgd v' => Hierarchy pgd v' ∧ ∀ va, leafOf v'.mem pgd va = none)
      fun _ _ => True := by
    refine wp_bind.mpr (wp_onPmm.mpr ?_)
    rcases pmmAllocPage_spec hpmm with h | ⟨c, pmm', h, hc, htook⟩
    · rw [h]
      exact wp_guard (fun _ => trivial) fun hne => absurd rfl hne
    rw [h]
    refine wp_guard (fun hc0 => absurd hc0 hc) fun _ => wp_bind.mpr (wp_modify.mpr ?_)
    have hzero : ∀ j, zeroTable c v.mem c j = 0 := fun j => by simp [zeroTable]
    have hchild : ∀ j, tableChild (zeroTable c v.mem) c j = none := by
      intro j
      unfold tableChild
      rw [hzero]
      rfl
    have hroot : ∀ p a, nodeAt (tableChild (zeroTable c v.mem)) c p = some a → p = [] ∧ a = c := by
      intro p a ha
      cases p with
      | nil => exact ⟨rfl, (Option.some.inj ha).symm⟩
      | cons j p =>
        have hbind : (tableChild (zeroTable c v.mem) c j).bind _ = some a := ha
        rw [hchild] at hbind
        cases hbind
    refine ⟨⟨⟨hpmm.took htook, hc, ?_, ?_⟩, ?_⟩, fun va => ?_⟩
    · intro p q a _ _ hp hq
      rw [(hroot p a hp).1, (hroot q a hq).1]
    · rintro a ⟨p, -, hp⟩ hf
      change a ∈ freePages pmm' at hf
      rw [htook.free] at hf
      exact hf.2 (hroot p a hp).2
    · rintro a ⟨p, -, hp⟩ i
      rw [(hroot p a hp).2]
      exact .inl (hzero i)
    · refine leafOf_none hc ?_
      show (tableChild (zeroTable c v.mem) c _).bind _ = none
      rw [hchild]
      rfl
  exact hw.of_ok hnew

theorem Built.hierarchy (h : Built pgd v) : Hierarchy pgd v := by
  induction h with
  | new hpmm hnew => exact (hierarchy_new hpmm hnew).1
  | @call v v' _ c ok hrun ih =>
    have hboth := Wp.and (c.grew ih.toTableOk) (c.keepsClean pgd v)
    rcases hrun with ⟨-, a, hrun⟩ | ⟨-, e, hrun⟩
    · obtain ⟨hg, hk⟩ := hboth.of_ok hrun
      exact ih.grew hg hk
    · obtain ⟨hg, hk⟩ := hboth.of_error hrun
      exact ih.grew hg hk
  | @others v _ v' hpmm hfree hmem ih =>
    have hsame : ∀ p : List (Fin 512), p.length ≤ 3 →
        nodeAt (tableChild v'.mem) pgd p = nodeAt (tableChild v.mem) pgd p := fun p hp => nodeAt_frame hmem hp
    have hpages : ∀ a ∈ tablePages v'.mem pgd, a ∈ tablePages v.mem pgd := by
      rintro a ⟨p, hp, hpa⟩
      exact ⟨p, hp, by rwa [hsame p hp] at hpa⟩
    refine ⟨⟨hpmm, ih.root, ?_, fun a ha => hfree a (hpages a ha)⟩, fun a ha => ?_⟩
    · intro p q a hp hq hpa hqa
      rw [hsame p hp] at hpa
      rw [hsame q hq] at hqa
      exact ih.inj p q a hp hq hpa hqa
    · unfold CleanTable
      rw [hmem a (hpages a ha)]
      exact ih.clean a (hpages a ha)

/-! ## The map -/

/-- The descriptor of a page. -/
def pageMap (pgd : Nat) (v : Vm) (page : Nat) : Option Nat := leafOf v.mem pgd (page * pageSize)

/-- The number of pages that `size` bytes from `vaddr` on touch. -/
def spanPages (vaddr size : Nat) : Nat :=
  if size = 0 then 0 else (vaddr % pageSize + size + pageSize - 1) / pageSize

theorem leafOf_page (mem : TableMem) (pgd va : Nat) : leafOf mem pgd va = leafOf mem pgd (va / pageSize * pageSize) :=
  leafOf_key mem pgd (leafKey_of_page (by rw [Nat.mul_div_cancel _ (by decide : 0 < pageSize)]))

theorem Hierarchy.leafEntry (h : Hierarchy pgd v) (va : Nat) :
    CleanEntry (vmmLeafEntry v.mem pgd va) ∧ vmmLeafEntry v.mem pgd va = (leafOf v.mem pgd va).getD 0 := by
  have hclean : CleanEntry (vmmLeafEntry v.mem pgd va) := by
    unfold vmmLeafEntry
    rw [leafTable_eq h.root]
    cases ht : nodeAt (tableChild v.mem) pgd (tablePath va) with
    | none => exact .inl rfl
    | some t => exact h.clean t ⟨tablePath va, by simp [tablePath], ht⟩ _
  refine ⟨hclean, ?_⟩
  unfold leafOf
  rcases hclean with h0 | ⟨hvalid, -⟩
  · simp [h0]
  · simp [hvalid]

theorem rangePages_eq {vaddr size : Nat} (h : vaddr + size ≤ 2 ^ 48) :
    rangePages vaddr size = spanPages vaddr size := by
  unfold rangePages spanPages
  by_cases h0 : size = 0
  · simp [h0]
  rw [if_neg h0, if_neg h0]
  have hoffset : vaddr - pageAlignDown vaddr = vaddr % pageSize := by
    unfold pageAlignDown pageSize
    omega
  have hspan : pageSpan (vaddr % pageSize) size = some (pageAlignUp (vaddr % pageSize + size)) := by
    unfold pageSpan
    rw [if_neg (by unfold pageSize; omega), if_neg (by unfold pageSize uint64Max; omega),
      if_neg (by unfold pageSize uint64Max; omega)]
  rw [hoffset, hspan, Option.getD_some]
  unfold pageAlignUp pageSize
  omega

/-- The pages of a range below 2^48. -/
theorem inPages_iff {vaddr n page : Nat} (hpage : page < 2 ^ 36) (hend : pageAlignDown vaddr + n * pageSize ≤ 2 ^ 48) :
    InPages (pageAlignDown vaddr) n (page * pageSize) ↔
      vaddr / pageSize ≤ page ∧ page < vaddr / pageSize + n := by
  unfold pageAlignDown at *
  constructor
  · rintro ⟨i, hi, hkey⟩
    have hsame := page_of_leafKey (by unfold pageSize; omega) (by unfold pageSize at *; omega) hkey
    unfold pageSize at *
    omega
  · rintro ⟨hle, hlt⟩
    refine ⟨page - vaddr / pageSize, by omega, ?_⟩
    rw [← Nat.add_mul, Nat.add_sub_cancel' hle]

theorem spanPages_bound {vaddr size : Nat} (h : vaddr + size ≤ 2 ^ 48) :
    pageAlignDown vaddr + spanPages vaddr size * pageSize ≤ 2 ^ 48 := by
  unfold pageAlignDown spanPages pageSize
  split <;> omega

/-- The physical address of an offset in a page. -/
def physAddr (descriptor : Option Nat) (offset : Nat) : Nat :=
  match descriptor with
  | none => 0
  | some d => (d &&& descAddrMask) ||| offset

theorem Hierarchy.virtToPhys (h : Hierarchy pgd v) (va : Nat) :
    vmmVirtToPhys v.mem pgd va = physAddr (pageMap pgd v (va / pageSize)) (va % pageSize) := by
  obtain ⟨hclean, -⟩ := h.leafEntry va
  unfold vmmVirtToPhys pageMap
  rw [← leafOf_page]
  unfold leafOf
  rcases hclean with h0 | ⟨hvalid, hpage⟩
  · simp [h0, physAddr]
  · simp [hvalid, hpage, physAddr]

/-- The pages of a span were not mapped, and are mapped to those of the other span; the other pages stay. -/
structure SpanMapped (pgd vaddr paddr size flags : Nat) (v v' : Vm) : Prop where
  were : ∀ i < spanPages vaddr size, pageMap pgd v (vaddr / pageSize + i) = none
  mapped : ∀ i < spanPages vaddr size,
    pageMap pgd v' (vaddr / pageSize + i) = some (pageDescriptor ((paddr / pageSize + i) * pageSize) flags)
  other : ∀ page < 2 ^ 36, page < vaddr / pageSize ∨ vaddr / pageSize + spanPages vaddr size ≤ page →
    pageMap pgd v' page = pageMap pgd v page
  phys : ∀ k < size, vmmVirtToPhys v'.mem pgd (vaddr + k) = paddr + k

/-- One page was mapped and is not; the other pages stay. -/
structure PageUnmapped (pgd page : Nat) (v v' : Vm) : Prop where
  was : pageMap pgd v page ≠ none
  unmapped : pageMap pgd v' page = none
  other : ∀ page' < 2 ^ 36, page' ≠ page → pageMap pgd v' page' = pageMap pgd v page'

theorem vmmMapRange_aligned (v : Vm) (pgd vaddr paddr size flags : Nat) :
    Wp (vmmMapRange pgd vaddr paddr size flags) v (fun _ _ => vaddr % pageSize = paddr % pageSize) fun _ _ => True := by
  unfold vmmMapRange
  refine wp_guard (fun _ => trivial) fun h => wp_const ?_
  by_contra hne
  exact h (.inr hne)

/-- An offset in an aligned page below 2^48. -/
theorem or_offset {a k : Nat} (ha : a % pageSize = 0) (hk : k < pageSize) : a ||| k = a + k := by
  have hsplit : a = a / pageSize * 2 ^ 12 := (Nat.div_mul_cancel (Nat.dvd_of_mod_eq_zero ha)).symm
  rw [hsplit, ← Nat.shiftLeft_eq, ← Nat.shiftLeft_add_eq_or_of_lt hk]

theorem Hierarchy.spanMapped {vaddr paddr size flags : Nat} (h' : Hierarchy pgd v') (hv : vaddr + size ≤ 2 ^ 48)
    (hp : paddr + size ≤ 2 ^ 48) (hmatch : vaddr % pageSize = paddr % pageSize)
    (hm : MappedPages pgd (pageAlignDown vaddr) (pageAlignDown paddr) flags (rangePages vaddr size) v v') :
    SpanMapped pgd vaddr paddr size flags v v' := by
  rw [rangePages_eq hv] at hm
  have hbound := spanPages_bound hv
  have hat : ∀ i, pageAlignDown vaddr + i * pageSize = (vaddr / pageSize + i) * pageSize := fun i => by
    rw [pageAlignDown, Nat.add_mul]
  have hpat : ∀ i, pageAlignDown paddr + i * pageSize = (paddr / pageSize + i) * pageSize := fun i => by
    rw [pageAlignDown, Nat.add_mul]
  have hmapped : ∀ i < spanPages vaddr size,
      pageMap pgd v' (vaddr / pageSize + i) = some (pageDescriptor ((paddr / pageSize + i) * pageSize) flags) := by
    intro i hi
    have hset := hm.set i hi _ rfl
    rwa [hat, hpat] at hset
  refine ⟨fun i hi => ?_, hmapped, fun page hpage hout => ?_, fun k hk => ?_⟩
  · exact hm.were _ ⟨i, hi, by rw [hat]⟩
  · refine hm.other _ fun hin => ?_
    have := (inPages_iff hpage hbound).mp hin
    omega
  · have hspan : spanPages vaddr size = (vaddr % pageSize + size + pageSize - 1) / pageSize := by
      unfold spanPages
      rw [if_neg (by omega)]
    have hi : (vaddr + k) / pageSize - vaddr / pageSize < spanPages vaddr size := by
      rw [hspan]
      unfold pageSize
      omega
    have hpage := hmapped _ hi
    have hcancel : vaddr / pageSize + ((vaddr + k) / pageSize - vaddr / pageSize) = (vaddr + k) / pageSize :=
      Nat.add_sub_cancel' (Nat.div_le_div_right (Nat.le_add_right vaddr k))
    have hphys : paddr / pageSize + ((vaddr + k) / pageSize - vaddr / pageSize) = (paddr + k) / pageSize := by
      unfold pageSize at *
      omega
    rw [hcancel, hphys] at hpage
    rw [h'.virtToPhys, hpage]
    show pageDescriptor ((paddr + k) / pageSize * pageSize) flags &&& descAddrMask ||| (vaddr + k) % pageSize = _
    rw [pageDescriptor_addr (Nat.mul_mod_left _ _) (by unfold pageSize; omega),
      or_offset (Nat.mul_mod_left _ _) (Nat.mod_lt _ (by decide))]
    unfold pageSize at *
    omega

/-- The hierarchy is a partial map from pages to descriptors, for the walks and for the calls. -/
theorem vmm_pageMap (h : Built pgd v) :
    (∀ va, vmmLeafEntry v.mem pgd va = (pageMap pgd v (va / pageSize)).getD 0) ∧
    (∀ va, vmmVirtToPhys v.mem pgd va = physAddr (pageMap pgd v (va / pageSize)) (va % pageSize)) ∧
    (∀ vaddr paddr size flags, vaddr + size ≤ 2 ^ 48 → paddr + size ≤ 2 ^ 48 →
      Wp (vmmMapRange pgd vaddr paddr size flags) v
        (fun _ v' => SpanMapped pgd vaddr paddr size flags v v')
        fun _ v' => ∀ va, vmmLeafEntry v'.mem pgd va = vmmLeafEntry v.mem pgd va) ∧
    ∀ page < 2 ^ 36,
      Wp (vmmUnmapPage pgd (page * pageSize)) v
        (fun _ v' => PageUnmapped pgd page v v')
        fun _ v' => v' = v ∧ pageMap pgd v page = none := by
  have hh := h.hierarchy
  refine ⟨fun va => ?_, hh.virtToPhys, fun vaddr paddr size flags hv hp => ?_, fun page hpage => ?_⟩
  · rw [(hh.leafEntry va).2, leafOf_page]
    rfl
  · have hbuilt : ∀ ok v', Ran (vmmMapRange pgd vaddr paddr size flags) v ok v' → Hierarchy pgd v' :=
      fun ok v' hrun => (h.call (.mapRange vaddr paddr size flags) ok hrun).hierarchy
    have hspec := ((vmmMapRange_spec hh.toTableOk).and (vmmMapRange_aligned v pgd vaddr paddr size flags)).and wp_ran
    refine hspec.mono (fun _ v' h' => ?_) fun _ v' h' va => ?_
    · obtain ⟨⟨⟨-, hm⟩, hmatch⟩, hran⟩ := h'
      exact (hbuilt true v' hran).spanMapped hv hp hmatch hm
    · obtain ⟨⟨⟨-, hsame⟩, -⟩, hran⟩ := h'
      rw [((hbuilt false v' hran).leafEntry va).2, (hh.leafEntry va).2, hsame va]
  · refine (vmmUnmapPage_spec hh.toTableOk (Nat.mul_mod_left _ _)).mono (fun _ v' h' => ?_) fun _ _ h' => h'
    obtain ⟨-, hwas, hset⟩ := h'
    refine ⟨hwas, by simpa [pageMap] using hset (page * pageSize), fun page' hpage' hne => ?_⟩
    refine (hset (page' * pageSize)).trans (if_neg fun hkey => hne ?_)
    have hsame := page_of_leafKey (by unfold pageSize; omega) (by unfold pageSize; omega) hkey
    rwa [Nat.mul_div_cancel _ (by decide : 0 < pageSize), Nat.mul_div_cancel _ (by decide : 0 < pageSize)] at hsame

/-- A pool of 8 pages from 4096 on, all free. -/
def smallPool : Pmm := ⟨4096, 8, fun _ => false, 8, false⟩

/-- A new root in the small pool. -/
def smallVm : Vm := ⟨(pmmAllocPage smallPool).2, zeroTable 4096 fun _ _ => 0⟩

theorem smallPool_ok : PmmOk smallPool where
  aligned := rfl
  bound := by decide
  zero := by
    rintro ⟨page, -, -, h⟩
    simp only [pageAddr, smallPool] at h
    omega

/-- Two pages of the small hierarchy are mapped, and the second one is unmapped. -/
def mapAndUnmap : VmM (Nat × Nat) := do
  vmmMapRange 4096 0x10000 0x40000000 0x2000 0
  vmmUnmapPage 4096 0x11000
  let v ← get
  return (vmmLeafEntry v.mem 4096 0x10000, vmmLeafEntry v.mem 4096 0x11000)

theorem exists_usedVm : ∃ v, Built 4096 v ∧
    vmmLeafEntry v.mem 4096 0x10000 = pageDescriptor 0x40000000 0 ∧ vmmLeafEntry v.mem 4096 0x11000 = 0 := by
  have hrun : valueOf mapAndUnmap smallVm = some (pageDescriptor 0x40000000 0, 0) := by decide +kernel
  obtain ⟨v, hrun⟩ := exists_of_valueOf hrun
  have hnew : Built 4096 smallVm := .new (v := ⟨smallPool, fun _ _ => 0⟩) smallPool_ok rfl
  have hbuilt : Wp mapAndUnmap smallVm
      (fun entries v => Built 4096 v ∧
        entries = (vmmLeafEntry v.mem 4096 0x10000, vmmLeafEntry v.mem 4096 0x11000)) fun _ _ => True := by
    refine wp_bind.mpr (Wp.mono wp_ran (fun _ v₁ h₁ => ?_) fun _ _ _ => trivial)
    refine wp_bind.mpr (Wp.mono wp_ran (fun _ v₂ h₂ => ?_) fun _ _ _ => trivial)
    refine wp_bind.mpr (wp_get.mpr (wp_pure.mpr ⟨?_, rfl⟩))
    exact (hnew.call (.mapRange 0x10000 0x40000000 0x2000 0) true h₁).call (.unmapPage 0x11000) true h₂
  obtain ⟨hbuilt, hentries⟩ := hbuilt.of_ok hrun
  exact ⟨v, hbuilt, (congrArg Prod.fst hentries).symm, (congrArg Prod.snd hentries).symm⟩

theorem vmm_pageMap_usedVm : ∃ v, Built 4096 v ∧
    vmmLeafEntry v.mem 4096 0x10000 = pageDescriptor 0x40000000 0 ∧ vmmLeafEntry v.mem 4096 0x11000 = 0 ∧
    (∀ va, vmmLeafEntry v.mem 4096 va = (pageMap 4096 v (va / pageSize)).getD 0) ∧
    (∀ va, vmmVirtToPhys v.mem 4096 va = physAddr (pageMap 4096 v (va / pageSize)) (va % pageSize)) ∧
    (∀ vaddr paddr size flags, vaddr + size ≤ 2 ^ 48 → paddr + size ≤ 2 ^ 48 →
      Wp (vmmMapRange 4096 vaddr paddr size flags) v
        (fun _ v' => SpanMapped 4096 vaddr paddr size flags v v')
        fun _ v' => ∀ va, vmmLeafEntry v'.mem 4096 va = vmmLeafEntry v.mem 4096 va) ∧
    ∀ page < 2 ^ 36,
      Wp (vmmUnmapPage 4096 (page * pageSize)) v
        (fun _ v' => PageUnmapped 4096 page v v')
        fun _ v' => v' = v ∧ pageMap 4096 v page = none := by
  obtain ⟨v, hbuilt, hmapped, hunmapped⟩ := exists_usedVm
  exact ⟨v, hbuilt, hmapped, hunmapped, vmm_pageMap hbuilt⟩

end Armonios
