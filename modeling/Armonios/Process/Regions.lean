import Armonios.Process.UserVm

/-!
# The region table of a process

The entries of the table do not overlap (`RegionsOk`); the functions on it work on the one entry with the
start and the size that they are given (`RegionAt`).
-/

namespace Armonios

variable {l l₁ l₂ : List UserRegion} {r q : UserRegion} {start size n : Nat} {p p' : Process}

/-- Two regions have no address in common. -/
def UserRegion.Apart (r q : UserRegion) : Prop := r.stop ≤ q.start ∨ q.stop ≤ r.start

instance : Std.Symm UserRegion.Apart := ⟨fun _ _ => Or.symm⟩

structure RegionsOk (l : List UserRegion) : Prop where
  proper : ∀ r ∈ l, r.start < r.stop
  disjoint : l.Pairwise UserRegion.Apart

theorem RegionsOk.nil : RegionsOk [] := ⟨fun _ h => absurd h List.not_mem_nil, .nil⟩

theorem RegionsOk.apart (h : RegionsOk l) (hr : r ∈ l) (hq : q ∈ l) (hne : r ≠ q) : r.Apart q :=
  h.disjoint.forall hr hq hne

theorem RegionsOk.eq_of_start (h : RegionsOk l) (hr : r ∈ l) (hq : q ∈ l) (hs : r.start = q.start) : r = q := by
  by_contra hne
  have hp := h.proper r hr
  have hp' := h.proper q hq
  rcases h.apart hr hq hne with h | h <;> omega

theorem RegionsOk.nodup (h : RegionsOk l) : l.Nodup := by
  refine h.disjoint.imp_of_mem fun {r q} hr _ hrq heq => ?_
  subst heq
  have := h.proper r hr
  rcases hrq with h | h <;> omega

theorem RegionsOk.erase (h : RegionsOk (l₁ ++ r :: l₂)) : RegionsOk (l₁ ++ l₂) := by
  have hsub : (l₁ ++ l₂).Sublist (l₁ ++ r :: l₂) := List.Sublist.append_left (List.sublist_cons_self r l₂) l₁
  exact ⟨fun q hq => h.proper q (hsub.subset hq), h.disjoint.sublist hsub⟩

/-- An entry gets other data. -/
theorem RegionsOk.replace (h : RegionsOk (l₁ ++ r :: l₂)) (hs : q.start = r.start) (he : q.stop = r.stop) :
    RegionsOk (l₁ ++ q :: l₂) := by
  refine ⟨fun x hx => ?_, ?_⟩
  · rcases List.mem_append.mp hx with hx | hx
    · exact h.proper x (List.mem_append_left _ hx)
    · rcases List.mem_cons.mp hx with rfl | hx
      · rw [hs, he]
        exact h.proper r (by simp)
      · exact h.proper x (by simp [hx])
  · obtain ⟨h1, h2, h3⟩ := List.pairwise_append.mp h.disjoint
    rw [List.pairwise_cons] at h2
    refine List.pairwise_append.mpr ⟨h1, List.pairwise_cons.mpr ⟨fun x hx => ?_, h2.2⟩, fun x hx y hy => ?_⟩
    · have := h2.1 x hx
      unfold UserRegion.Apart at *
      rwa [hs, he]
    · rcases List.mem_cons.mp hy with rfl | hy
      · have := h3 x hx r (by simp)
        unfold UserRegion.Apart at *
        rwa [hs, he]
      · exact h3 x hx y (by simp [hy])

theorem RegionsOk.snoc (h : RegionsOk l) (hr : r.start < r.stop) (hapart : ∀ q ∈ l, q.Apart r) :
    RegionsOk (l ++ [r]) := by
  refine ⟨fun x hx => ?_, List.pairwise_append.mpr ⟨h.disjoint, List.pairwise_singleton _ _, fun q hq y hy => ?_⟩⟩
  · rcases List.mem_append.mp hx with hx | hx
    · exact h.proper x hx
    · rw [List.mem_singleton.mp hx]
      exact hr
  · rw [List.mem_singleton.mp hy]
    exact hapart q hq

/-! ## The entry with a start and a size -/

/-- `r` is the first entry of the table that is `size` bytes from `start` on. -/
structure RegionAt (start size : Nat) (l₁ : List UserRegion) (r : UserRegion) (l₂ : List UserRegion) : Prop where
  isAt : r.isAt start size = true
  first : ∀ q ∈ l₁, q.isAt start size = false

theorem RegionAt.start_eq (h : RegionAt start size l₁ r l₂) : r.start = start := by
  have := h.isAt
  simp only [UserRegion.isAt, decide_eq_true_eq] at this
  exact this.1

theorem RegionAt.stop_eq (h : RegionAt start size l₁ r l₂) : r.stop = start + size := by
  have := h.isAt
  simp only [UserRegion.isAt, decide_eq_true_eq] at this
  obtain ⟨-, h⟩ := this
  unfold userRegionEnd at h
  split at h
  · cases h
  · exact (Option.some.inj h).symm

theorem isAt_self (hsize : r.stop = r.start + size) (h0 : size ≠ 0) (hmax : r.stop ≤ uint64Max) :
    r.isAt r.start size = true := by
  simp only [UserRegion.isAt, userRegionEnd, decide_eq_true_eq, true_and]
  rw [if_neg (by omega), hsize]

/-- The last entry of a table, where no other starts. -/
theorem RegionAt.last (h : RegionsOk (l ++ [r])) (hsize : r.stop = r.start + size) (h0 : size ≠ 0)
    (hmax : r.stop ≤ uint64Max) : RegionAt r.start size l r [] := by
  refine ⟨isAt_self hsize h0 hmax, fun q hq => ?_⟩
  by_contra hat
  have hat : q.isAt r.start size = true := by simpa using hat
  simp only [UserRegion.isAt, decide_eq_true_eq] at hat
  have hmem : r ∈ l ++ [r] := by simp
  have heq := h.eq_of_start (List.mem_append_left [r] hq) hmem hat.1
  exact (List.pairwise_append.mp h.nodup).2.2 q hq r (by simp) heq

theorem RegionAt.findIdx (h : RegionAt start size l₁ r l₂) :
    (l₁ ++ r :: l₂).findIdx? (·.isAt start size) = some l₁.length := by
  rw [List.findIdx?_append, List.findIdx?_eq_none_iff.mpr h.first]
  simp [List.findIdx?_cons, h.isAt]

theorem find_regionAt (h : processFindUserRegion start size p = some r) :
    ∃ l₁ l₂, p.userRegions = l₁ ++ r :: l₂ ∧ RegionAt start size l₁ r l₂ := by
  obtain ⟨hat, l₁, l₂, hl, hfirst⟩ := List.find?_eq_some_iff_append.mp h
  exact ⟨l₁, l₂, hl, hat, fun q hq => by simpa using hfirst q hq⟩

theorem RegionAt.find (h : RegionAt start size l₁ r l₂) (hl : p.userRegions = l₁ ++ r :: l₂) :
    processFindUserRegion start size p = some r :=
  List.find?_eq_some_iff_append.mpr ⟨h.isAt, l₁, l₂, hl, fun q hq => by simp [h.first q hq]⟩

theorem RegionAt.remove (h : RegionAt start size l₁ r l₂) (hl : p.userRegions = l₁ ++ r :: l₂) :
    processRemoveUserRegion start size p = some { p with userRegions := l₁ ++ l₂ } := by
  unfold processRemoveUserRegion
  rw [hl, h.findIdx]
  simp [List.eraseIdx_append_of_length_le (Nat.le_refl l₁.length)]

theorem modify_middle (f : UserRegion → UserRegion) : (l₁ ++ r :: l₂).modify l₁.length f = l₁ ++ f r :: l₂ := by
  induction l₁ with
  | nil => rfl
  | cons q l₁ ih => simpa using ih

theorem RegionAt.setMapping (h : RegionAt start size l₁ r l₂) (hl : p.userRegions = l₁ ++ r :: l₂)
    (paddr flags : Nat) : processSetUserRegionMapping start size paddr flags p =
      some { p with userRegions := l₁ ++ { r with paddr, flags } :: l₂ } := by
  unfold processSetUserRegionMapping
  rw [hl, h.findIdx]
  simp only [modify_middle]

/-! ## New entries -/

theorem addUserRegion_spec (h : processAddUserRegion start size p = some p') :
    p' = { p with userRegions := p.userRegions ++ [⟨start, start + size, 0, 0⟩] } ∧ size ≠ 0 ∧
      ∀ q ∈ p.userRegions, q.Apart ⟨start, start + size, 0, 0⟩ := by
  unfold processAddUserRegion at h
  split at h
  · cases h
  · split at h
    · cases h
    · rename_i stop hstop
      unfold userRegionEnd at hstop
      split at hstop
      · cases hstop
      · rename_i hs
        cases hstop
        split at h
        · cases h
        · rename_i hany
          cases h
          refine ⟨rfl, by omega, fun q hq => ?_⟩
          simp only [List.any_eq_true, decide_eq_true_eq, not_exists, not_and] at hany
          have hno := hany q hq
          show q.stop ≤ start ∨ start + size ≤ q.start
          omega

theorem alignUp_of_aligned (h : n % pageSize = 0) (hn : n < 2 ^ 64) : alignUp n = n := by
  unfold alignUp pageSize at *
  omega

/-- The new region starts where the last one ended. -/
theorem allocUserRegion_spec {addr : Nat} (h : processAllocUserRegion size p = some (addr, p'))
    (hsize : size % pageSize = 0) (hlt : size < 2 ^ 64) (hal : p.nextUserVaddr % pageSize = 0)
    (hnext : p.nextUserVaddr ≤ processUserMmapLimit) :
    addr = p.nextUserVaddr ∧ size ≠ 0 ∧ addr + size ≤ processUserMmapLimit ∧
      (∀ q ∈ p.userRegions, q.Apart ⟨addr, addr + size, 0, 0⟩) ∧
      p' = { p with userRegions := p.userRegions ++ [⟨addr, addr + size, 0, 0⟩], nextUserVaddr := addr + size } := by
  unfold processAllocUserRegion at h
  split at h
  · cases h
  rw [alignUp_of_aligned hsize hlt, alignUp_of_aligned hal (by unfold processUserMmapLimit at hnext; omega)] at h
  simp only [Nat.lt_irrefl, if_false] at h
  split at h
  · cases h
  rename_i stop hstop
  split at h
  · cases h
  rename_i hlimit
  split at h
  · cases h
  rename_i q hq
  cases h
  obtain ⟨rfl, h0, hapart⟩ := addUserRegion_spec hq
  unfold userRegionEnd at hstop
  split at hstop
  · cases hstop
  · cases hstop
    exact ⟨rfl, h0, by omega, hapart, rfl⟩

end Armonios
