import Armonios.Process.Mapped
import Armonios.Lib.Run

/-!
# The region table over all calls

The functions that change the table of user regions, called in any order with any words.

* `RegionOp`: a call; `RegionRun`: a process with the addresses that it has been given so far;
* `RegionTable`: the table is sound;
* `regionRun_laws`: what holds after any number of calls.
-/

namespace Armonios

variable {p p' : Process} {s t : Space} {start size addr : Nat} {image : UserImage}

/-! ## The calls -/

/-- A process, and the addresses that `process_alloc_user_region` has returned for it. -/
structure RegionRun where
  space : Space
  returned : List Nat

inductive RegionOp
  | add (start size : UInt64)
  | alloc (size : UInt64)
  | setMapping (start size paddr flags : UInt64)
  | remove (start size : UInt64)
  | prepare (base size entryOffset stackStart stackSize pstate : UInt64)

/-- A call that fails leaves the process as it is. -/
def RegionRun.put (r : RegionRun) (p : Option Process) : RegionRun :=
  match p with
  | none => r
  | some p => { r with space := { r.space with process := p } }

def RegionOp.next (r : RegionRun) : RegionOp → RegionRun
  | add start size => r.put (processAddUserRegion start.toNat size.toNat r.space.process)
  | alloc size =>
    match processAllocUserRegion size.toNat r.space.process with
    | none => r
    | some (addr, p) => ⟨{ r.space with process := p }, r.returned ++ [addr]⟩
  | setMapping start size paddr flags =>
    r.put (processSetUserRegionMapping start.toNat size.toNat paddr.toNat flags.toNat r.space.process)
  | remove start size => r.put (processRemoveUserRegion start.toNat size.toNat r.space.process)
  | prepare base size entryOffset stackStart stackSize pstate =>
    match userImagePrepareProcess ⟨base.toNat, size.toNat, entryOffset.toNat⟩ stackStart.toNat stackSize.toNat pstate
      r.space with
    | .ok _ space => { r with space }
    | .error _ space => { r with space }

def regionStep (r r' : RegionRun) : Prop := ∃ op : RegionOp, r' = op.next r

/-! ## A sound table -/

structure RegionTable (p : Process) : Prop where
  count : p.userRegions.length ≤ processMaxUserRegions
  ok : RegionsOk p.userRegions
  nowrap : ∀ r ∈ p.userRegions, r.stop ≤ uint64Max

theorem RegionTable.congr (h : RegionTable p) (hsame : p'.userRegions = p.userRegions) : RegionTable p' := by
  refine ⟨?_, ?_, ?_⟩
  · rw [hsame]
    exact h.count
  · rw [hsame]
    exact h.ok
  · rw [hsame]
    exact h.nowrap

/-- There is room for a region that is added, and it does not wrap. -/
theorem addUserRegion_fits (hsize : size ≤ uint64Max) (h : processAddUserRegion start size p = some p') :
    p.userRegions.length < processMaxUserRegions ∧ start + size ≤ uint64Max := by
  unfold processAddUserRegion at h
  split at h
  · cases h
  rename_i hroom
  split at h
  · cases h
  rename_i stop hstop
  unfold userRegionEnd at hstop
  split at hstop
  · cases hstop
  · omega

theorem RegionTable.add (h : RegionTable p) (hsize : size ≤ uint64Max)
    (hadd : processAddUserRegion start size p = some p') : RegionTable p' := by
  obtain ⟨hroom, hmax⟩ := addUserRegion_fits hsize hadd
  obtain ⟨rfl, hpos, hapart⟩ := addUserRegion_spec hadd
  refine ⟨?_, h.ok.snoc (Nat.lt_add_of_pos_right (Nat.pos_of_ne_zero hpos)) hapart, fun r hr => ?_⟩
  · rw [List.length_append]
    exact hroom
  · rcases List.mem_append.mp hr with hr | hr
    · exact h.nowrap r hr
    · rw [List.mem_singleton.mp hr]
      exact hmax

theorem RegionTable.remove (h : RegionTable p) (hremove : processRemoveUserRegion start size p = some p') :
    RegionTable p' ∧ p'.nextUserVaddr = p.nextUserVaddr := by
  unfold processRemoveUserRegion at hremove
  split at hremove
  · cases hremove
  rename_i i hi
  cases hremove
  have hsub : (p.userRegions.eraseIdx i).Sublist p.userRegions := List.eraseIdx_sublist _ _
  refine ⟨⟨hsub.length_le.trans h.count, ⟨fun r hr => ?_, h.ok.disjoint.sublist hsub⟩, fun r hr => ?_⟩, rfl⟩
  · exact h.ok.proper r (hsub.subset hr)
  · exact h.nowrap r (hsub.subset hr)

theorem RegionTable.setMapping (h : RegionTable p) {paddr flags : Nat}
    (hset : processSetUserRegionMapping start size paddr flags p = some p') :
    RegionTable p' ∧ p'.nextUserVaddr = p.nextUserVaddr := by
  have hfound : ∃ r, processFindUserRegion start size p = some r := by
    unfold processSetUserRegionMapping at hset
    split at hset
    · cases hset
    · rename_i i hi
      obtain ⟨hlt, hat, -⟩ := List.findIdx?_eq_some_iff_getElem.mp hi
      exact Option.isSome_iff_exists.mp (List.find?_isSome.mpr ⟨_, List.getElem_mem hlt, hat⟩)
  obtain ⟨r, hr⟩ := hfound
  obtain ⟨l₁, l₂, hl, hat⟩ := find_regionAt hr
  rw [hat.setMapping hl] at hset
  cases hset
  have hok := h.ok
  have hcount := h.count
  have hwrap := h.nowrap
  rw [hl] at hok hcount hwrap
  refine ⟨⟨?_, hok.replace rfl rfl, fun q hq => ?_⟩, rfl⟩
  · simpa using hcount
  · rcases List.mem_append.mp hq with hq | hq
    · exact hwrap q (List.mem_append_left _ hq)
    · rcases List.mem_cons.mp hq with rfl | hq
      · exact hwrap r (by simp)
      · exact hwrap q (by simp [hq])

/-! ## New addresses -/

theorem alignUp_spec (n : Nat) : alignUp n % pageSize = 0 ∧ alignUp n < n + pageSize ∧ alignUp n < 2 ^ 64 := by
  unfold alignUp pageSize
  omega

/-- A new region starts at a page behind all that were given out, and ends below the limit. -/
theorem allocUserRegion_fresh (h : processAllocUserRegion size p = some (addr, p')) :
    addr % pageSize = 0 ∧ p.nextUserVaddr ≤ addr ∧ addr + size ≤ processUserMmapLimit ∧
      addr < p'.nextUserVaddr ∧ ∃ q aligned, aligned ≤ uint64Max ∧ processAddUserRegion addr aligned p = some q ∧
        p'.userRegions = q.userRegions := by
  unfold processAllocUserRegion at h
  split at h
  · cases h
  dsimp only at h
  split at h
  · cases h
  rename_i hsize haligned
  split at h
  · cases h
  rename_i hstart
  split at h
  · cases h
  rename_i stop hstop
  split at h
  · cases h
  rename_i hlimit
  split at h
  · cases h
  rename_i q hq
  cases h
  have hstop : stop = alignUp p.nextUserVaddr + alignUp size := by
    unfold userRegionEnd at hstop
    split at hstop
    · cases hstop
    · exact (Option.some.inj hstop).symm
  obtain ⟨hpage, -, -⟩ := alignUp_spec p.nextUserVaddr
  obtain ⟨-, -, hword⟩ := alignUp_spec size
  refine ⟨hpage, by omega, by omega, ?_, q, alignUp size, ?_, hq, rfl⟩
  · show alignUp p.nextUserVaddr < stop
    omega
  · unfold uint64Max
    omega

/-! ## Preparing a process -/

theorem attempt_onProcess {f : Process → Option Process} {α : Type} {k : Option Unit → SpaceM α}
    {Q : α → Space → Prop} {E : Unit → Space → Prop} (hnone : f s.process = none → Wp (k none) s Q E)
    (hsome : ∀ p, f s.process = some p → Wp (k (some ())) { s with process := p } Q E) :
    Wp (attempt (fun _ => true) (onProcess f) >>= k) s Q E := by
  refine wp_bind.mpr (wp_attempt_all.mpr ?_)
  cases hf : f s.process with
  | none =>
    refine wp_of_error (e := ()) ?_ (hnone hf)
    unfold onProcess
    rw [hf]
  | some p => exact (wp_onProcess hf).mpr (hsome p hf)

/-- The two regions are added, or nothing is changed. -/
theorem prepareProcess_spec (h : RegionTable s.process) (image : UserImage) (stackStart stackSize : Nat)
    (hsize : image.size ≤ uint64Max) (hstack : stackSize ≤ uint64Max) (pstate : UInt64) :
    Wp (userImagePrepareProcess image stackStart stackSize pstate) s
      (fun _ t => RegionTable t.process ∧ t.process.nextUserVaddr = s.process.nextUserVaddr) fun _ t => t = s := by
  unfold userImagePrepareProcess
  refine wp_guard (fun _ => rfl) fun _ => wp_bind.mpr (wp_get.mpr (wp_bind.mpr (wp_modify.mpr ?_)))
  have hentry : RegionTable (processSetEntry (UInt64.ofNat (userImageEntry image))
    (UInt64.ofNat (stackStart + stackSize))
      pstate s.process) := h.congr rfl
  refine attempt_onProcess (fun _ => ?_) fun p₁ hp₁ => ?_
  · exact wp_bind.mpr (wp_modify.mpr rfl)
  have htable₁ := hentry.add hsize hp₁
  obtain ⟨hspec, hpos, -⟩ := addUserRegion_spec hp₁
  obtain ⟨-, hmax⟩ := addUserRegion_fits hsize hp₁
  refine attempt_onProcess (fun _ => ?_) fun p₂ hp₂ => ?_
  · -- the region of the image is the last one of the table, and the only one that starts there
    have hlast : RegionAt image.base image.size s.process.userRegions
        ⟨image.base, image.base + image.size, 0, 0⟩ [] := by
      have hok := htable₁.ok
      rw [hspec] at hok
      exact RegionAt.last hok rfl hpos hmax
    have hremove := hlast.remove (p := p₁) (by rw [hspec]; rfl)
    refine wp_bind.mpr (wp_ignoring.mpr ((wp_onProcess (s := ⟨s.vm, p₁⟩) hremove).mpr ?_))
    refine wp_bind.mpr (wp_modify.mpr ?_)
    show Space.mk s.vm (processSetEntry s.process.pc s.process.sp s.process.pstate
      { p₁ with userRegions := s.process.userRegions ++ [] }) = s
    rw [hspec, List.append_nil]
    rfl
  · obtain ⟨rfl, -, -⟩ := addUserRegion_spec hp₂
    exact wp_pure.mpr ⟨htable₁.add hstack hp₂, by rw [hspec]; rfl⟩

/-! ## All runs -/

/-- The table is sound, and every address that was given out is below the next one. -/
structure RegionRunOk (r : RegionRun) : Prop where
  table : RegionTable r.space.process
  base : processUserMmapBase ≤ r.space.process.nextUserVaddr
  given : ∀ a ∈ r.returned, a < r.space.process.nextUserVaddr

theorem regionRunOk_init (vm : Vm) (pid : Nat) (name : Path) : RegionRunOk ⟨⟨vm, processInit pid name⟩, []⟩ :=
  ⟨⟨Nat.zero_le _, RegionsOk.nil, by simp [processInit]⟩, Nat.le_refl _, by simp⟩

/-- A call that gives out no address. -/
theorem RegionRunOk.put {r : RegionRun} (h : RegionRunOk r) {o : Option Process}
    (hp : ∀ p, o = some p → RegionTable p ∧ p.nextUserVaddr = r.space.process.nextUserVaddr) :
      RegionRunOk (r.put o) := by
  cases o with
  | none => exact h
  | some p =>
    obtain ⟨htable, hnext⟩ := hp p rfl
    refine ⟨htable, ?_, fun a ha => ?_⟩
    · show processUserMmapBase ≤ p.nextUserVaddr
      rw [hnext]
      exact h.base
    · show a < p.nextUserVaddr
      rw [hnext]
      exact h.given a ha

theorem uint64_le (n : UInt64) : n.toNat ≤ uint64Max := by
  have h := n.toNat_lt
  unfold uint64Max
  omega

theorem RegionRunOk.step {r r' : RegionRun} (h : RegionRunOk r) (hstep : regionStep r r') : RegionRunOk r' := by
  obtain ⟨op, rfl⟩ := hstep
  cases op with
  | add start size =>
    refine h.put fun p hadd => ⟨h.table.add (uint64_le size) hadd, ?_⟩
    rw [(addUserRegion_spec hadd).1]
  | alloc size =>
    unfold RegionOp.next
    dsimp only
    split
    · exact h
    · rename_i addr p halloc
      obtain ⟨-, hnext, -, hbelow, q, aligned, hsize, hadd, hregions⟩ := allocUserRegion_fresh halloc
      refine ⟨(h.table.add hsize hadd).congr hregions, ?_, fun a ha => ?_⟩
      · exact h.base.trans (hnext.trans (Nat.le_of_lt hbelow))
      · show a < p.nextUserVaddr
        rcases List.mem_append.mp ha with ha | ha
        · exact (h.given a ha).trans_le (hnext.trans (Nat.le_of_lt hbelow))
        · rw [List.mem_singleton.mp ha]
          exact hbelow
  | setMapping start size paddr flags => exact h.put fun p hset => h.table.setMapping hset
  | remove start size => exact h.put fun p hremove => h.table.remove hremove
  | prepare base size entryOffset stackStart stackSize pstate =>
    have hspec := prepareProcess_spec h.table ⟨base.toNat, size.toNat, entryOffset.toNat⟩ stackStart.toNat
      stackSize.toNat (uint64_le size) (uint64_le stackSize) pstate
    unfold RegionOp.next
    dsimp only
    split
    · rename_i space hrun
      obtain ⟨htable, hnext⟩ := hspec.of_ok hrun
      exact ⟨htable, by rw [hnext]; exact h.base, fun a ha => by rw [hnext]; exact h.given a ha⟩
    · rename_i space hrun
      rw [hspec.of_error hrun]
      exact h

/-- What holds of a process after some calls. -/
structure RegionLaws (r : RegionRun) : Prop where
  count : r.space.process.userRegions.length ≤ processMaxUserRegions
  nonempty : ∀ q ∈ r.space.process.userRegions, q.start < q.stop
  nowrap : ∀ q ∈ r.space.process.userRegions, q.stop ≤ uint64Max
  disjoint : r.space.process.userRegions.Pairwise UserRegion.Apart
  alloc : ∀ (size : UInt64) addr p, processAllocUserRegion size.toNat r.space.process = some (addr, p) →
    addr % pageSize = 0 ∧ processUserMmapBase ≤ addr ∧ addr + size.toNat ≤ processUserMmapLimit ∧ addr ∉ r.returned
  prepare : ∀ (base size entryOffset stackStart stackSize pstate : UInt64) t,
    userImagePrepareProcess ⟨base.toNat, size.toNat, entryOffset.toNat⟩ stackStart.toNat stackSize.toNat pstate
      r.space = .error () t → t = r.space

theorem RegionRunOk.laws {r : RegionRun} (h : RegionRunOk r) : RegionLaws r where
  count := h.table.count
  nonempty := h.table.ok.proper
  nowrap := h.table.nowrap
  disjoint := h.table.ok.disjoint
  alloc size addr p halloc := by
    obtain ⟨hpage, hnext, hlimit, -⟩ := allocUserRegion_fresh halloc
    refine ⟨hpage, h.base.trans hnext, hlimit, fun hgiven => ?_⟩
    exact absurd (h.given addr hgiven) (not_lt.mpr hnext)
  prepare base size entryOffset stackStart stackSize pstate t hrun :=
    (prepareProcess_spec h.table _ stackStart.toNat stackSize.toNat (uint64_le size) (uint64_le stackSize)
      pstate).of_error hrun

theorem regionRun_laws (vm : Vm) (pid : Nat) (name : Path) {r : RegionRun}
    (hrun : Run regionStep ⟨⟨vm, processInit pid name⟩, []⟩ r) : RegionLaws r :=
  (hrun.invariant RegionRunOk (fun _ _ h hstep => h.step hstep) (regionRunOk_init vm pid name)).laws

def sampleRegionRun : RegionRun := ⟨⟨⟨pmmInit 0 0, fun _ _ => 0⟩, processInit 1 []⟩, []⟩

/-- A region that ends with the address space, and one byte in the area of `mmap`. -/
theorem regionRun_laws_sample : ∃ r : RegionRun, Run regionStep sampleRegionRun r ∧
    r.space.process.userRegions.map UserRegion.stop = [0xffffffffffffffff, processUserMmapBase + pageSize] ∧
      RegionLaws r := by
  have hrun : Run regionStep sampleRegionRun
      (RegionOp.next (RegionOp.next sampleRegionRun (.add 0xfffffffffffff000 0xfff)) (.alloc 1)) :=
    .tail (.single ⟨_, rfl⟩) ⟨_, rfl⟩
  exact ⟨_, hrun, by decide +kernel, regionRun_laws _ 1 [] hrun⟩

end Armonios
