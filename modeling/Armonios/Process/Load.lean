import Armonios.Process.Keep
import Armonios.Process.Mapped

/-!
# The pages of a program that is started

What the loader does to the pages: it sets them aside in its storage, builds the page table and hands the
pages over to the process, or gives everything back.

* `createPanelPageTable_spec`: a table that agrees with the regions for image and stack;
* `loadProcess_memory`: the process has its memory, or its slot and the storage are empty.
-/

namespace Armonios

variable {s s' : Space} {pool S : Set Nat} {v v' : Vm} {tame : Prop} {prot : Nat → Nat} {pgd n : Nat}

/-! ## The kernel in a new table -/

/-- The board asks for no page that EL0 can use. -/
def MapMmio.NoUser : MapMmio → Prop
  | .done _ => True
  | .map _ _ _ flags next => flags &&& vmmFlagUser = 0 ∧ ∀ status, (next status).NoUser

/-- EL0 can use nothing in the table. -/
def Bare (tame : Prop) (pgd : Nat) (v : Vm) : Prop :=
  tame → ∀ va e, leafOf v.mem pgd va = some e → e &&& descApUser = 0

theorem Bare.same (h : Bare tame pgd v) (hs : SameLeaves pgd v v') : Bare tame pgd v' :=
  fun ht va e he => h ht va e (hs va ▸ he)

theorem Bare.mapped {vaddr paddr flags : Nat} (h : Bare tame pgd v) (hm : MappedPages pgd vaddr paddr flags n v v')
    (hf : tame → flags &&& vmmFlagUser = 0) : Bare tame pgd v' := by
  intro ht va e he
  by_cases hva : InPages vaddr n va
  · obtain ⟨i, hi, hkey⟩ := hva
    rw [hm.set i hi va hkey] at he
    rw [← Option.some.inj he]
    exact (pageDescriptor_user _ _).mpr (hf ht)
  · rw [hm.other va hva] at he
    exact h ht va e he

/-- A table that EL0 cannot use grows and stays so. -/
def GrewBare (tame : Prop) (pgd : Nat) (v v' : Vm) : Prop := Grew pgd v v' ∧ Bare tame pgd v'

theorem vmmMapRange_bare {vaddr paddr size flags : Nat} (hok : TableOk pgd v) (hb : Bare tame pgd v)
    (hf : tame → flags &&& vmmFlagUser = 0) :
    Wp (vmmMapRange pgd vaddr paddr size flags) v (fun _ v' => GrewBare tame pgd v v')
      fun _ v' => GrewBare tame pgd v v' :=
  Wp.mono (vmmMapRange_spec hok) (fun _ _ h => ⟨h.1, hb.mapped h.2 hf⟩) fun _ _ h => ⟨h.1, hb.same h.2⟩

theorem runMapMmio_spec (hok : TableOk pgd v) (hb : Bare tame pgd v) (m : MapMmio) (hm : tame → m.NoUser) :
    Wp (runMapMmio pgd m) v (fun _ v' => GrewBare tame pgd v v') fun _ v' => GrewBare tame pgd v v' := by
  induction m generalizing v with
  | done ok =>
    unfold runMapMmio
    split
    · exact ⟨.refl hok, hb⟩
    · exact ⟨.refl hok, hb⟩
  | map vaddr paddr size flags next ih =>
    -- the callback goes on with the result of the call
    have hnext : ∀ status v', GrewBare tame pgd v v' →
        Wp (runMapMmio pgd (next status)) v' (fun _ v'' => GrewBare tame pgd v v'')
          fun _ v'' => GrewBare tame pgd v v'' := by
      intro status v' hv'
      refine Wp.mono (ih status (hv'.1.ok hok) hv'.2 fun ht => (hm ht).2 status) (fun _ v'' h => ?_) fun _ v'' h => ?_
      · exact ⟨hv'.1.trans h.1, h.2⟩
      · exact ⟨hv'.1.trans h.1, h.2⟩
    refine wp_bind.mpr (wp_attempt_all.mpr ?_)
    exact Wp.mono (vmmMapRange_bare hok hb fun ht => (hm ht).1) (fun _ v' h => hnext _ v' h) fun _ v' h => hnext _ v' h

theorem mapKernelIdentity_spec {memoryBase memorySize : Nat} {mapMmio : Option MapMmio} (hok : TableOk pgd v)
    (hb : Bare tame pgd v) (hm : tame → ∀ m, mapMmio = some m → m.NoUser) :
    Wp (mapKernelIdentity pgd memoryBase memorySize mapMmio) v (fun _ v' => GrewBare tame pgd v v')
      fun _ v' => GrewBare tame pgd v v' := by
  unfold mapKernelIdentity
  refine wp_guard (fun _ => ⟨.refl hok, hb⟩) fun _ => wp_bind.mpr ?_
  refine Wp.mono (vmmMapRange_bare hok hb fun _ => by decide) (fun _ v₁ h₁ => ?_) fun _ _ h => h
  cases mapMmio with
  | none => exact h₁
  | some m =>
    refine Wp.mono (runMapMmio_spec (h₁.1.ok hok) h₁.2 m fun ht => hm ht m rfl) (fun _ v₂ h₂ => ?_) fun _ v₂ h₂ => ?_
    · exact ⟨h₁.1.trans h₂.1, h₂.2⟩
    · exact ⟨h₁.1.trans h₂.1, h₂.2⟩

/-! ## The table of a process -/

/-- The process with a table. -/
def Space.withTable (s : Space) (pgd : Nat) (v : Vm) : Space := ⟨v, { s.process with pageTable := pgd }⟩

/-- A zeroed page as the table of a process that has none. -/
theorem vmmNewTable_space (hok : SpaceOk pool s) (h0 : s.process.pageTable = 0) :
    Wp vmmNewTable s.vm
      (fun pgd v' => SpaceStep pool s (s.withTable pgd v') ∧ pgd ≠ 0 ∧ ∀ va, leafOf v'.mem pgd va = none)
      fun _ v' => v' = s.vm := by
  refine wp_bind.mpr (wp_onPmm.mpr ?_)
  rcases pmmAllocPage_spec hok.pmm with h | ⟨c, pmm', h, hc, htook⟩
  · rw [h]
    exact wp_guard (fun _ => rfl) fun hne => absurd rfl hne
  rw [h]
  refine wp_guard (fun hc0 => absurd hc0 hc) fun _ => wp_bind.mpr (wp_modify.mpr ?_)
  have hzero : ∀ j, zeroTable c s.vm.mem c j = 0 := fun j => by simp [zeroTable]
  have hchild : ∀ j, tableChild (zeroTable c s.vm.mem) c j = none := by
    intro j
    unfold tableChild
    rw [hzero]
    rfl
  -- the root is the only table
  have hroot : ∀ p a, nodeAt (tableChild (zeroTable c s.vm.mem)) c p = some a → p = [] ∧ a = c := by
    intro p a ha
    cases p with
    | nil => exact ⟨rfl, (Option.some.inj ha).symm⟩
    | cons j p =>
      have : (tableChild (zeroTable c s.vm.mem) c j).bind _ = some a := ha
      rw [hchild] at this
      cases this
  have hcfree : c ∈ freePages s.vm.pmm := htook.were rfl
  have hown : Exclusive pool (freePages pmm') (spaceOwn (s.withTable c ⟨pmm', zeroTable c s.vm.mem⟩)) := by
    rw [htook.free]
    refine hok.own.take htook.were ?_ ?_ ?_ ?_
    · rintro (⟨r, i⟩ | p) a ha
      · exact ha
      · exact absurd h0 (spaceOwn_table.mp ha).1
    · rintro (⟨r, i⟩ | p) a ha
      · exact .inl ha
      · exact .inr (hroot p a (spaceOwn_table.mp ha).2.2).2
    · rintro (⟨r, i⟩ | p) (⟨q, j⟩ | q) a ha hx hy
      · exact hok.own.inj _ _ a hx hy
      · exact absurd (htook.were ha) (hok.own.apart (.region r i) a hx)
      · exact absurd (htook.were ha) (hok.own.apart (.region q j) a hy)
      · rw [(hroot p a (spaceOwn_table.mp hx).2.2).1, (hroot q a (spaceOwn_table.mp hy).2.2).1]
    · rintro a rfl
      exact ⟨.table [], spaceOwn_table.mpr ⟨hc, Nat.zero_le _, rfl⟩⟩
  refine ⟨⟨⟨hok.pmm.took htook, ?_, hok.regions, hown⟩, htook.pool, fun t ht => ?_⟩, hc, fun va => ?_⟩
  · show ∀ a ∈ pool, a ∈ managed pmm' ∧ a ≠ 0
    rw [htook.pool.managed]
    exact hok.real
  · refine Function.update_of_ne ?_ _ _
    rintro rfl
    exact ht ((hok.own.cover t).mpr (.inl hcfree))
  · refine leafOf_none hc ?_
    show (tableChild (zeroTable c s.vm.mem) c _).bind _ = none
    rw [hchild]
    rfl

/-- A table that the process does not get is freed. -/
theorem vmmFreeTable_space (hok : SpaceOk pool (s.withTable pgd v)) (hpgd : pgd ≠ 0) (h0 : s.process.pageTable = 0)
    (hno : ∀ r ∈ s.process.userRegions, ¬r.Owned) : SpaceStep pool ⟨v, s.process⟩ ⟨vmmFreeTable pgd v, s.process⟩ := by
  have hbare : SpaceOk pool ⟨v, { s.process with pageTable := pgd, userRegions := [] }⟩ :=
    hok.congr .nil (fun r hr => ⟨fun hm => (by cases hm), fun hm => absurd hr (hno r hm)⟩) rfl
  have hfree := freeResources_spec hbare (p := { s.process with userRegions := [] }) rfl h0
  have heq : processFreeResources { s.process with pageTable := pgd, userRegions := [] } v = vmmFreeTable pgd v := by
    unfold processFreeResources
    dsimp only
    rw [if_pos hpgd]
    rfl
  rw [heq] at hfree
  refine ⟨hfree.ok.congr hok.regions (fun r hr => ⟨fun hm => absurd hr (hno r hm), fun hm => (by cases hm)⟩) rfl,
    ?_, ?_⟩
  · exact hfree.same
  · exact hfree.frame

/-- `user_vm_map_physical` maps a region to pages that are not its own. -/
theorem userVmMapPhysical_spec {l₁ l₂ : List UserRegion} {r : UserRegion} {paddr flags f : Nat} (hok : SpaceOk pool s)
    (htable : s.process.pageTable ≠ 0) (hl : s.process.userRegions = l₁ ++ r :: l₂)
    (hat : RegionAt r.start (n * pageSize) l₁ r l₂) (hno : ¬r.Owned) (hal : r.start % pageSize = 0)
    (hb : r.start + n * pageSize ≤ 2 ^ 48) (hpal : paddr % pageSize = 0) (hf : flagsToVmm flags = some f) :
    Wp (userVmMapPhysical r.start paddr (n * pageSize) flags) s
      (fun _ s' => SpaceStep pool s s' ∧ MappedPages s.process.pageTable r.start paddr f n s.vm s'.vm ∧
        s'.process = { s.process with userRegions := l₁ ++ { r with paddr, flags := 0 } :: l₂ })
      fun _ s' => SpaceStep pool s s' ∧ s'.process = s.process := by
  unfold userVmMapPhysical
  refine wp_bind.mpr (wp_get.mpr ?_)
  dsimp only
  rw [hf]
  refine wp_guard (fun _ => ⟨.refl hok, rfl⟩) fun _ => wp_bind.mpr (wp_attempt_all.mpr (wp_onPart.mpr ?_))
  refine Wp.mono (vmmMapRange_spec (hok.table htable)) (fun _ v' hv => ?_) fun _ v' hv => ?_
  · obtain ⟨hg, hm⟩ := hv
    rw [pageAlignDown_of_aligned hal, pageAlignDown_of_aligned hpal, rangePages_of_aligned hal (by omega)] at hm
    have hset := hat.setMapping (p := s.process) hl paddr 0
    refine wp_bind.mpr (wp_attempt_all.mpr ((wp_onProcess (s := { s with vm := v' }) hset).mpr ?_))
    have hstep := hok.grew htable hg
    refine ⟨⟨hstep.ok.congr ?_ (fun q hq => ?_) rfl, hstep.same, hstep.frame⟩, hm, rfl⟩
    · have hold := hok.regions
      rw [hl] at hold
      exact hold.replace rfl rfl
    · -- neither the old nor the new entry has pages of its own
      show q ∈ l₁ ++ _ :: l₂ ↔ q ∈ s.process.userRegions
      rw [hl]
      simp only [List.mem_append, List.mem_cons]
      constructor
      · rintro (h | rfl | h)
        · exact .inl h
        · exact absurd (Nat.zero_and _) hq.1
        · exact .inr (.inr h)
      · rintro (h | rfl | h)
        · exact .inl h
        · exact absurd hq hno
        · exact .inr (.inr h)
  · obtain ⟨hg, -⟩ := hv
    have hstep := hok.grew htable hg
    refine wp_bind.mpr (wp_ignoring.mpr (wp_onPart.mpr ?_))
    have hfail : ∀ v'', Grew s.process.pageTable v' v'' → SpaceStep pool s { s with vm := v'' } := by
      intro v'' hg'
      exact hok.grew htable (hg.trans hg')
    refine Wp.mono (vmmUnmapRange_spec (hstep.ok.table htable) hal hb) (fun _ v'' h => ?_) fun _ v'' h => ?_
    · exact ⟨hfail v'' h.1, rfl⟩
    · exact ⟨hfail v'' h.1, rfl⟩

/-! ## Image and stack -/

def imageRegion (slot : SlotId) (paddr flags : Nat) : UserRegion :=
  ⟨panelImageVaddr slot, panelImageVaddr slot + kernelUserImageSlotSize, paddr, flags⟩

def stackRegion (slot : SlotId) (paddr flags : Nat) : UserRegion :=
  ⟨panelStackVaddr slot, panelStackVaddr slot + kernelUserStackSize, paddr, flags⟩

/-- The permissions that the loader asks for. -/
def imageFlags : Nat := vmmFlagUser ||| vmmFlagRead ||| vmmFlagExec
def stackFlags : Nat := vmmFlagUser ||| vmmFlagRead ||| vmmFlagWrite

variable {slot : SlotId}

theorem imageVaddr_aligned (slot : SlotId) : panelImageVaddr slot % pageSize = 0 := by
  unfold panelImageVaddr kernelUserImageVaBase kernelUserImageVaStride pageSize
  omega

theorem stackVaddr_aligned (slot : SlotId) : panelStackVaddr slot % pageSize = 0 := by
  unfold panelStackVaddr kernelUserStackVaBase kernelUserStackVaStride pageSize
  omega

/-- The images are below the stacks, and these below what `mmap` uses. -/
theorem vaddr_order (slot : SlotId) : 0 < panelImageVaddr slot ∧
    panelImageVaddr slot + kernelUserImageSlotSize ≤ panelStackVaddr slot ∧
    panelStackVaddr slot + kernelUserStackSize ≤ processUserMmapBase := by
  have hslot : slot.val < 16 := slot.isLt
  unfold panelImageVaddr kernelUserImageVaBase kernelUserImageVaStride kernelUserImageSlotSize panelStackVaddr
    kernelUserStackVaBase kernelUserStackVaStride kernelUserStackSize processUserMmapBase
  omega

theorem imageStack_ok (slot : SlotId) (a b c d : Nat) : RegionsOk [imageRegion slot a b, stackRegion slot c d] := by
  obtain ⟨-, h, -⟩ := vaddr_order slot
  refine ⟨fun r hr => ?_, ?_⟩
  · simp only [List.mem_cons, List.not_mem_nil, or_false] at hr
    rcases hr with rfl | rfl
    · exact Nat.lt_add_of_pos_right (by decide)
    · exact Nat.lt_add_of_pos_right (by decide)
  · refine List.pairwise_cons.mpr ⟨fun q hq => ?_, List.pairwise_singleton _ _⟩
    rw [List.mem_singleton.mp hq]
    exact .inl h

theorem addUserRegion_eq {p : Process} {l : List UserRegion} {start size : Nat} (hl : p.userRegions = l)
    (hlen : l.length < processMaxUserRegions) (h0 : size ≠ 0) (hmax : start + size ≤ uint64Max)
    (hapart : ∀ q ∈ l, q.stop ≤ start) :
    processAddUserRegion start size p = some { p with userRegions := l ++ [⟨start, start + size, 0, 0⟩] } := by
  unfold processAddUserRegion userRegionEnd
  rw [hl, if_neg (by omega), if_neg (by omega)]
  dsimp only
  rw [if_neg]
  rw [List.any_eq_true]
  rintro ⟨q, hq, hno⟩
  have := hapart q hq
  simp only [decide_eq_true_eq] at hno
  omega

/-- `user_image_prepare_process` registers image and stack, or changes nothing. -/
theorem prepareProcess_regions {image : UserImage} (hbase : image.base = panelImageVaddr slot)
    (hsize : image.size = kernelUserImageSlotSize) (hempty : s.process.userRegions = []) (pstate : UInt64) :
    Wp (userImagePrepareProcess image (panelStackVaddr slot) kernelUserStackSize pstate) s
      (fun _ s' => s'.vm = s.vm ∧ s'.process.pageTable = s.process.pageTable ∧
        s'.process.nextUserVaddr = s.process.nextUserVaddr ∧
        s'.process.userRegions = [imageRegion slot 0 0, stackRegion slot 0 0])
      fun _ s' => s' = s := by
  obtain ⟨-, hbelow, hstack⟩ := vaddr_order slot
  unfold processUserMmapBase at hstack
  unfold userImagePrepareProcess
  refine wp_guard (fun _ => rfl) fun _ => wp_bind.mpr (wp_get.mpr (wp_bind.mpr (wp_modify.mpr ?_)))
  have himage : ∀ p : Process, p.userRegions = [] → processAddUserRegion image.base image.size p =
      some { p with userRegions := [imageRegion slot 0 0] } := by
    intro p hp
    rw [hbase, hsize]
    refine addUserRegion_eq hp (by decide) (by decide) ?_ (by simp)
    unfold uint64Max
    omega
  have hstack : ∀ p : Process, p.userRegions = [imageRegion slot 0 0] →
      processAddUserRegion (panelStackVaddr slot) kernelUserStackSize p =
        some { p with userRegions := [imageRegion slot 0 0, stackRegion slot 0 0] } := by
    intro p hp
    refine addUserRegion_eq hp (by show 1 < processMaxUserRegions; decide) (by decide) ?_ ?_
    · unfold uint64Max
      omega
    · intro q hq
      rw [List.mem_singleton.mp hq]
      exact hbelow
  have hentry : ∀ pc sp, (processSetEntry pc sp pstate s.process).userRegions = [] ∧
      (processSetEntry pc sp pstate s.process).pageTable = s.process.pageTable ∧
      (processSetEntry pc sp pstate s.process).nextUserVaddr = s.process.nextUserVaddr :=
    fun _ _ => ⟨hempty, rfl, rfl⟩
  obtain ⟨hnil, htable, hnext⟩ := hentry (UInt64.ofNat (userImageEntry image))
    (UInt64.ofNat (panelStackVaddr slot + kernelUserStackSize))
  generalize processSetEntry (UInt64.ofNat (userImageEntry image))
    (UInt64.ofNat (panelStackVaddr slot + kernelUserStackSize)) pstate s.process = p₁ at hnil htable hnext ⊢
  refine wp_bind.mpr (wp_attempt_all.mpr ((wp_onProcess (s := ⟨s.vm, p₁⟩) (himage p₁ hnil)).mpr ?_))
  refine wp_bind.mpr (wp_attempt_all.mpr ((wp_onProcess
    (s := ⟨s.vm, { p₁ with userRegions := [imageRegion slot 0 0] }⟩) (hstack _ rfl)).mpr ?_))
  exact wp_pure.mpr ⟨rfl, htable, hnext, rfl⟩

/-- The regions of a new process once they own their pages. -/
def loadedRegions (slot : SlotId) (imagePaddr stackPaddr : Nat) : List UserRegion :=
  [imageRegion slot imagePaddr processUserRegionOwnedPages, stackRegion slot stackPaddr processUserRegionOwnedPages]

/-- The image is mapped in a table that was empty for EL0. -/
theorem imageMapped_agrees {imagePaddr : Nat} (hb : Bare tame pgd v) (hi0 : imagePaddr ≠ 0)
    (hpi : prot (panelImageVaddr slot) = imageFlags)
    (hm : MappedPages pgd (panelImageVaddr slot) imagePaddr imageFlags kernelUserImageSlotPages v v') :
    Agrees tame prot [imageRegion slot imagePaddr processUserRegionOwnedPages] v'.mem pgd := by
  obtain ⟨-, hbelow, hstack⟩ := vaddr_order slot
  have hnone : Agrees tame prot [] v.mem pgd :=
    ⟨by simp, by simp, by simp, by simp, by simp, fun ht va e he hu => absurd (hb ht va e he) hu⟩
  have hlimit : panelImageVaddr slot + kernelUserImageSlotSize ≤ processUserMmapLimit := by
    unfold processUserMmapBase at hstack
    unfold processUserMmapLimit
    omega
  refine hnone.insert .nil (n := kernelUserImageSlotPages) ⟨imageVaddr_aligned slot, ?_, by simp⟩ rfl hlimit
    (owned_of_flags rfl hi0) rfl ?_ ?_
  · show panelImageVaddr slot + kernelUserImageSlotSize ≤ 2 ^ 48
    unfold processUserMmapLimit at hlimit
    omega
  · show prot (panelImageVaddr slot) &&& vmmFlagUser ≠ 0
    rw [hpi]
    decide
  · show MappedPages pgd (panelImageVaddr slot) imagePaddr (prot (panelImageVaddr slot)) _ v v'
    rw [hpi]
    exact hm

theorem stackMapped_agrees {imagePaddr stackPaddr : Nat}
    (h : Agrees tame prot [imageRegion slot imagePaddr processUserRegionOwnedPages] v.mem pgd) (hs0 : stackPaddr ≠ 0)
    (hps : prot (panelStackVaddr slot) = stackFlags)
    (hm : MappedPages pgd (panelStackVaddr slot) stackPaddr stackFlags kernelUserStackPages v v') :
    Agrees tame prot (loadedRegions slot imagePaddr stackPaddr) v'.mem pgd := by
  obtain ⟨-, hbelow, hstack⟩ := vaddr_order slot
  have hlimit : panelStackVaddr slot + kernelUserStackSize ≤ processUserMmapLimit := by
    unfold processUserMmapBase at hstack
    unfold processUserMmapLimit
    omega
  have hone : RegionsOk ([imageRegion slot imagePaddr processUserRegionOwnedPages] ++ []) :=
    RegionsOk.erase (imageStack_ok slot imagePaddr processUserRegionOwnedPages 0 0)
  refine h.insert (r := stackRegion slot stackPaddr processUserRegionOwnedPages) hone (n := kernelUserStackPages)
    ⟨stackVaddr_aligned slot, ?_, ?_⟩ rfl hlimit (owned_of_flags rfl hs0) rfl ?_ ?_
  · show panelStackVaddr slot + kernelUserStackSize ≤ 2 ^ 48
    unfold processUserMmapLimit at hlimit
    omega
  · intro q hq
    rw [List.mem_singleton.mp hq]
    exact .inl hbelow
  · show prot (panelStackVaddr slot) &&& vmmFlagUser ≠ 0
    rw [hps]
    decide
  · show MappedPages pgd (panelStackVaddr slot) stackPaddr (prot (panelStackVaddr slot)) _ v v'
    rw [hps]
    exact hm

theorem stackFlags_eq : flagsToVmm (userVmProtRead ||| userVmProtWrite) = some stackFlags := by decide

theorem imageFlags_eq : flagsToVmm (userVmProtRead ||| userVmProtExec) = some imageFlags := by decide

theorem imageRegion_pages (slot : SlotId) (a b : Nat) : (imageRegion slot a b).pages = kernelUserImageSlotPages :=
  pages_of_size rfl

theorem stackRegion_pages (slot : SlotId) (a b : Nat) : (stackRegion slot a b).pages = kernelUserStackPages :=
  pages_of_size rfl

theorem imageRegion_at (slot : SlotId) (a b : Nat) (l₂ : List UserRegion) :
    RegionAt (panelImageVaddr slot) kernelUserImageSlotSize [] (imageRegion slot a b) l₂ := by
  obtain ⟨-, hbelow, hstack⟩ := vaddr_order slot
  refine ⟨isAt_self rfl (by decide) ?_, by simp⟩
  show panelImageVaddr slot + kernelUserImageSlotSize ≤ uint64Max
  unfold processUserMmapBase at hstack
  unfold uint64Max
  omega

theorem stackRegion_at (slot : SlotId) (a b c d : Nat) :
    RegionAt (panelStackVaddr slot) kernelUserStackSize [imageRegion slot a b] (stackRegion slot c d) [] := by
  obtain ⟨-, -, hstack⟩ := vaddr_order slot
  have hsize : (stackRegion slot c d).stop = (stackRegion slot c d).start + kernelUserStackSize := rfl
  refine RegionAt.last (r := stackRegion slot c d) (imageStack_ok slot a b c d) hsize (by decide) ?_
  show panelStackVaddr slot + kernelUserStackSize ≤ uint64Max
  unfold processUserMmapBase at hstack
  unfold uint64Max
  omega

theorem createPanelPageTable_spec {image : UserImage} {imagePaddr stackPaddr memoryBase memorySize : Nat}
    {mapMmio : Option MapMmio} (hbase : image.base = panelImageVaddr slot)
    (hsize : image.size = kernelUserImageSlotSize) (hok : SpaceOk pool s) (h0 : s.process.pageTable = 0)
    (hl : s.process.userRegions = [imageRegion slot 0 0, stackRegion slot 0 0]) (hi0 : imagePaddr ≠ 0)
    (hia : imagePaddr % pageSize = 0) (hs0 : stackPaddr ≠ 0) (hsa : stackPaddr % pageSize = 0)
    (hm : tame → ∀ m, mapMmio = some m → m.NoUser) (hpi : prot (panelImageVaddr slot) = imageFlags)
    (hps : prot (panelStackVaddr slot) = stackFlags) :
    Wp (createPanelPageTable image imagePaddr (panelStackVaddr slot) stackPaddr kernelUserStackSize memoryBase
        memorySize mapMmio) s
      (fun _ s' => SpaceStep pool s s' ∧
        (∃ pgd, s'.process = { s.process with
          pageTable := pgd, userRegions := [imageRegion slot imagePaddr 0, stackRegion slot stackPaddr 0] }) ∧
        Agrees tame prot (loadedRegions slot imagePaddr stackPaddr) s'.vm.mem s'.process.pageTable)
      fun _ s' => SpaceStep pool s s' := by
  obtain ⟨-, hbelow, hstack⟩ := vaddr_order slot
  unfold processUserMmapBase at hstack
  have hno : ∀ r ∈ s.process.userRegions, ¬r.Owned := by
    intro r hr hown
    rw [hl] at hr
    simp only [List.mem_cons, List.not_mem_nil, or_false] at hr
    rcases hr with rfl | rfl
    · exact hown.2 rfl
    · exact hown.2 rfl
  unfold createPanelPageTable
  refine wp_bind.mpr (wp_onPart.mpr (Wp.mono (vmmNewTable_space hok h0) (fun pgd v₁ h₁ => ?_) fun _ v₁ h₁ => ?_))
  · obtain ⟨hstep₁, hpgd, hleaf⟩ := h₁
    have htable := hstep₁.ok.table hpgd
    have hbare : Bare tame pgd v₁ := fun _ va e he => by
      rw [hleaf] at he
      cases he
    refine wp_bind.mpr (wp_attempt_all.mpr (wp_onPart.mpr ?_))
    refine Wp.mono (mapKernelIdentity_spec htable hbare hm) (fun _ v₂ h₂ => ?_) fun _ v₂ h₂ => ?_
    · -- the process gets the table
      obtain ⟨hg₂, hbare₂⟩ := h₂
      have hstep₂ := hstep₁.trans (hstep₁.ok.grew hpgd hg₂)
      refine wp_bind.mpr (wp_modify.mpr (wp_bind.mpr ?_))
      rw [hbase, hsize]
      have hl₂ : (s.withTable pgd v₂).process.userRegions = [] ++ imageRegion slot 0 0 :: [stackRegion slot 0 0] := hl
      refine Wp.mono (userVmMapPhysical_spec (s := s.withTable pgd v₂)
        (n := kernelUserImageSlotPages) hstep₂.ok hpgd hl₂
        (imageRegion_at slot 0 0 _) (fun h => h.2 rfl) (imageVaddr_aligned slot) ?_ hia imageFlags_eq)
          (fun _ s₃ h₃ => ?_)
        fun _ s₃ h₃ => hstep₂.trans h₃.1
      · show panelImageVaddr slot + kernelUserImageSlotSize ≤ 2 ^ 48
        omega
      · obtain ⟨hstep₃, hm₃, hp₃⟩ := h₃
        have hagrees := imageMapped_agrees hbare₂ hi0 hpi hm₃
        have hl₃ : s₃.process.userRegions = [imageRegion slot imagePaddr 0] ++ stackRegion slot 0 0 :: [] := by
          rw [hp₃]
          rfl
        have htable₃ : s₃.process.pageTable = pgd := by
          rw [hp₃]
          rfl
        refine Wp.mono (userVmMapPhysical_spec (s := s₃) (n := kernelUserStackPages) hstep₃.ok (htable₃ ▸ hpgd) hl₃
          (stackRegion_at slot imagePaddr 0 0 0)
          (fun h => h.2 rfl) (stackVaddr_aligned slot) ?_ hsa stackFlags_eq) (fun _ s₄ h₄ => ?_)
          fun _ s₄ h₄ => (hstep₂.trans hstep₃).trans h₄.1
        · show panelStackVaddr slot + kernelUserStackSize ≤ 2 ^ 48
          omega
        · obtain ⟨hstep₄, hm₄, hp₄⟩ := h₄
          refine ⟨(hstep₂.trans hstep₃).trans hstep₄, ⟨pgd, ?_⟩, ?_⟩
          · rw [hp₄, hp₃]
            rfl
          · rw [hp₄]
            show Agrees tame prot _ s₄.vm.mem s₃.process.pageTable
            rw [htable₃] at hm₄ ⊢
            exact stackMapped_agrees hagrees hs0 hps hm₄
    · obtain ⟨hg₂, -⟩ := h₂
      have hstep₂ := hstep₁.trans (hstep₁.ok.grew hpgd hg₂)
      have hfree := vmmFreeTable_space (s := s) (v := v₂) hstep₂.ok hpgd h0 hno
      refine wp_bind.mpr (wp_onPart.mpr (wp_modify.mpr (wp_throw.mpr ?_)))
      exact ⟨hfree.ok, hstep₂.same.trans hfree.same, fun t ht => (hfree.frame t ht).trans (hstep₂.frame t ht)⟩
  · rw [h₁]
    exact .refl hok

/-! ## The storage of the loader -/

section Loader

variable {ρ : Type} {env : Env ρ} {k : Kernel ρ} {l l' l'' : Loader ρ}

/-- The process in a slot, with the page tables. -/
def Kernel.space (k : Kernel ρ) (i : SlotId) : Space := ⟨k.vm, k.processes i⟩

/-- The pages in the storage, in the order in which they are freed. -/
def storedPages (storage : PanelUserStorage) : List Nat :=
  (if storage.imagePaddr = 0 then [] else pagesOf storage.imagePaddr kernelUserImageSlotSize) ++
    if storage.stackPaddr = 0 then [] else [storage.stackPaddr]

/-- The pages in `pool` are free, in the storage, or those of the process in `slot`. -/
structure LoaderOk (pool : Set Nat) (slot : SlotId) (l : Loader ρ) : Prop where
  real : ∀ a ∈ pool, a ∈ managed l.kernel.vm.pmm ∧ a ≠ 0
  stored : {a | a ∈ storedPages l.storage} ⊆ pool
  nodup : (storedPages l.storage).Nodup
  space : SpaceOk (pool \ {a | a ∈ storedPages l.storage}) (l.kernel.space slot)

/-- What the loader may do to the pages. -/
structure LoaderStep (pool : Set Nat) (slot : SlotId) (l l' : Loader ρ) : Prop where
  ok : LoaderOk pool slot l'
  same : SamePool l.kernel.vm.pmm l'.kernel.vm.pmm
  frame : ∀ t, t ∉ pool → l'.kernel.vm.mem t = l.kernel.vm.mem t

theorem LoaderStep.refl (h : LoaderOk pool slot l) : LoaderStep pool slot l l := ⟨h, .refl _, fun _ _ => rfl⟩

theorem LoaderStep.trans (h : LoaderStep pool slot l l') (h' : LoaderStep pool slot l' l'') :
    LoaderStep pool slot l l'' :=
  ⟨h'.ok, h.same.trans h'.same, fun t ht => (h'.frame t ht).trans (h.frame t ht)⟩

theorem storedPages_empty : {a | a ∈ storedPages ⟨0, 0⟩} = (∅ : Set Nat) := by
  ext a
  simp [storedPages]

/-- With nothing in the storage. -/
theorem LoaderOk.of_space (h : SpaceOk pool (k.space slot)) : LoaderOk pool slot ⟨k, ⟨0, 0⟩⟩ := by
  refine ⟨h.real, ?_, by simp [storedPages], ?_⟩
  · show {a | a ∈ storedPages ⟨0, 0⟩} ⊆ pool
    rw [storedPages_empty]
    exact Set.empty_subset pool
  · show SpaceOk (pool \ {a | a ∈ storedPages ⟨0, 0⟩}) _
    rw [storedPages_empty, Set.sdiff_empty]
    exact h

theorem LoaderOk.empty (h : LoaderOk pool slot l) (h0 : l.storage = ⟨0, 0⟩) : SpaceOk pool (l.kernel.space slot) := by
  have hs := h.space
  rw [h0, storedPages_empty, Set.sdiff_empty] at hs
  exact hs

/-- The loader after a run on the process and the page tables. -/
def Loader.put (l : Loader ρ) (slot : SlotId) (s : Space) : Loader ρ :=
  { l with kernel := { l.kernel with vm := s.vm, processes := Function.update l.kernel.processes slot s.process } }

@[simp] theorem Loader.put_storage : (l.put slot s).storage = l.storage := rfl

@[simp] theorem Loader.put_space : (l.put slot s).kernel.space slot = s := by
  unfold Kernel.space Loader.put
  simp

@[simp] theorem Loader.put_put : (l.put slot s).put slot s' = l.put slot s' := by
  unfold Loader.put
  simp

theorem wp_onKernelSlot {α : Type} {m : SpaceM α} {Q : α → Loader ρ → Prop} {E : Unit → Loader ρ → Prop} :
    Wp (onKernel (onSlot slot m)) l Q E ↔
      Wp m (l.kernel.space slot) (fun a s => Q a (l.put slot s)) fun e s => E e (l.put slot s) := by
  unfold onKernel onSlot
  rw [wp_onPart, wp_onPart]
  rfl

/-- A run on the process alone. -/
theorem LoaderOk.step (h : LoaderOk pool slot l)
    (hs : SpaceStep (pool \ {a | a ∈ storedPages l.storage}) (l.kernel.space slot) s) :
    LoaderStep pool slot l (l.put slot s) := by
  refine ⟨⟨?_, h.stored, h.nodup, ?_⟩, hs.same, fun t ht => hs.frame t fun hin => ht hin.1⟩
  · show ∀ a ∈ pool, a ∈ managed s.vm.pmm ∧ a ≠ 0
    rw [show managed s.vm.pmm = _ from hs.same.managed]
    exact h.real
  · rw [Loader.put_storage, Loader.put_space]
    exact hs.ok

/-- Pages that were just allocated go to the storage. -/
theorem LoaderOk.store {storage : PanelUserStorage} {pmm' : Pmm} {T : Set Nat} (h : LoaderOk pool slot l)
    (ht : Took T l.kernel.vm.pmm pmm')
    (hmem : ∀ a, a ∈ storedPages storage ↔ a ∈ storedPages l.storage ∨ a ∈ T) (hnd : (storedPages storage).Nodup) :
    LoaderStep pool slot l ⟨{ l.kernel with vm := { l.kernel.vm with pmm := pmm' } }, storage⟩ := by
  have hset : {a | a ∈ storedPages storage} = {a | a ∈ storedPages l.storage} ∪ T := Set.ext hmem
  refine ⟨⟨?_, ?_, hnd, ?_⟩, ht.pool, fun _ _ => rfl⟩
  · show ∀ a ∈ pool, a ∈ managed pmm' ∧ a ≠ 0
    rw [ht.pool.managed]
    exact h.real
  · show {a | a ∈ storedPages storage} ⊆ pool
    rw [hset]
    refine Set.union_subset h.stored fun a ha => ?_
    exact ((h.space.own.cover a).mpr (.inl (ht.were ha))).1
  · show SpaceOk (pool \ {a | a ∈ storedPages storage}) _
    rw [hset, ← Set.sdiff_sdiff]
    exact h.space.took ht

/-- `free_user_storage`. -/
theorem freeUserStorage_spec (h : LoaderOk pool slot l) :
    Wp (freeUserStorage : LoaderM ρ Unit) l
      (fun _ l' => LoaderStep pool slot l l' ∧ l'.storage = ⟨0, 0⟩ ∧ l'.kernel.processes = l.kernel.processes)
      fun _ _ => False := by
  have hfree := h.space.freeAll h.stored h.real (fun a => Iff.rfl) h.nodup
  obtain ⟨hok, hgave⟩ := hfree
  have hdone : LoaderStep pool slot l ⟨{ l.kernel with
      vm := { l.kernel.vm with pmm := pmmFreeAll (storedPages l.storage) l.kernel.vm.pmm } }, ⟨0, 0⟩⟩ :=
    ⟨.of_space hok, hgave.pool, fun _ _ => rfl⟩
  have heq : pmmFreeAll (storedPages l.storage) l.kernel.vm.pmm =
      if l.storage.stackPaddr ≠ 0 then
        pmmFreePage l.storage.stackPaddr (freeImagePages l.storage.imagePaddr l.kernel.vm.pmm)
      else freeImagePages l.storage.imagePaddr l.kernel.vm.pmm := by
    unfold storedPages freeImagePages freePageRange pmmFreeAll
    rw [List.foldl_append]
    by_cases h0 : l.storage.imagePaddr = 0 <;> by_cases h1 : l.storage.stackPaddr = 0 <;> simp [h0, h1]
  rw [heq] at hdone
  unfold freeUserStorage
  refine wp_bind.mpr (wp_get.mpr (wp_bind.mpr (wp_onPart.mpr (wp_onPart.mpr (wp_onPmm.mpr ?_)))))
  dsimp only
  by_cases h1 : l.storage.stackPaddr ≠ 0
  · rw [if_pos h1] at hdone ⊢
    exact wp_bind.mpr (wp_onPart.mpr (wp_onPart.mpr (wp_onPmm.mpr (wp_modify.mpr ⟨hdone, rfl, rfl⟩))))
  · rw [if_neg h1] at hdone ⊢
    exact wp_modify.mpr ⟨hdone, rfl, rfl⟩

theorem pagesOf_image (paddr : Nat) : pagesOf paddr kernelUserImageSlotSize =
    pagesOf paddr (kernelUserImageSlotPages * pageSize) :=
  rfl

theorem loadNamedImage_memory {name : Path} {entryIndex : Nat} (h : LoaderOk pool slot l) (h0 : l.storage = ⟨0, 0⟩) :
    Wp (loadNamedImage env name slot entryIndex) l
      (fun image l' => LoaderStep pool slot l l' ∧ l'.kernel.processes = l.kernel.processes ∧
        (l'.storage.imagePaddr ≠ 0 ∧ l'.storage.stackPaddr = 0) ∧ image.base = panelImageVaddr slot ∧
        image.size = kernelUserImageSlotSize)
      fun _ l' => LoaderStep pool slot l l' ∧ l'.kernel.processes = l.kernel.processes := by
  have hstart : LoaderStep pool slot l l ∧ l.kernel.processes = l.kernel.processes := ⟨.refl h, rfl⟩
  unfold loadNamedImage
  refine wp_bind.mpr (wp_get.mpr (wp_guard (fun _ => hstart) fun _ => ?_))
  refine wp_bind.mpr (wp_onPart.mpr (wp_onPart.mpr (wp_onPmm.mpr ?_)))
  have hpmm : PmmOk l.kernel.vm.pmm := h.space.pmm
  rcases pmmAllocPages_spec hpmm kernelUserImageSlotPages with hnone | ⟨paddr, pmm', hsome, hpaddr, -, htook⟩
  · rw [hnone]
    exact wp_guard (fun _ => hstart) fun hne => absurd rfl hne
  rw [hsome]
  refine wp_guard (fun hz => absurd hz hpaddr) fun _ => ?_
  have hpages : storedPages ⟨paddr, 0⟩ = pagesOf paddr (kernelUserImageSlotPages * pageSize) := by
    rw [← pagesOf_image]
    simp [storedPages, hpaddr]
  have hstored : LoaderStep pool slot l ⟨{ l.kernel with vm := { l.kernel.vm with pmm := pmm' } }, ⟨paddr, 0⟩⟩ := by
    refine h.store htook (fun a => ?_) ?_
    · rw [h0, hpages]
      simp [storedPages]
    · rw [hpages]
      exact pagesOf_nodup _ _
  split
  · -- what is in the storage then goes back to the allocator
    obtain ⟨hok, hgave⟩ := hstored.ok.space.freeAll hstored.ok.stored hstored.ok.real
      (fun a => Iff.rfl) hstored.ok.nodup
    rw [show storedPages _ = _ from hpages] at hok hgave
    refine wp_bind.mpr (wp_onPart.mpr (wp_onPart.mpr (wp_onPmm.mpr (wp_throw.mpr ⟨?_, rfl⟩))))
    have hfree : freeImagePages paddr pmm' = pmmFreeAll (pagesOf paddr (kernelUserImageSlotPages * pageSize)) pmm' := by
      unfold freeImagePages
      rw [if_neg hpaddr]
      rfl
    show LoaderStep pool slot l ⟨{ l.kernel with vm := { l.kernel.vm with pmm := freeImagePages paddr pmm' } },
      l.storage⟩
    rw [hfree, h0]
    exact ⟨.of_space hok, hstored.same.trans hgave.pool, fun _ _ => rfl⟩
  · refine wp_bind.mpr (wp_modify.mpr ⟨?_, rfl, ⟨hpaddr, ?_⟩, rfl, rfl⟩)
    · show LoaderStep pool slot l ⟨{ l.kernel with vm := { l.kernel.vm with pmm := pmm' } },
        { l.storage with imagePaddr := paddr }⟩
      rw [h0]
      exact hstored
    · show l.storage.stackPaddr = 0
      rw [h0]

/-- The two regions get the pages that were set aside for them. -/
theorem assign_loaded {p : Process} {imagePaddr stackPaddr : Nat} (hi0 : imagePaddr ≠ 0) (hs0 : stackPaddr ≠ 0)
    (hS : {a | a ∈ storedPages ⟨imagePaddr, stackPaddr⟩} ⊆ pool) (hnd : (storedPages ⟨imagePaddr, stackPaddr⟩).Nodup)
    (hreal : ∀ a ∈ pool, a ∈ managed v.pmm ∧ a ≠ 0)
    (h : SpaceOk (pool \ {a | a ∈ storedPages ⟨imagePaddr, stackPaddr⟩}) ⟨v, p⟩)
    (hl : p.userRegions = [imageRegion slot imagePaddr 0, stackRegion slot stackPaddr 0]) :
    SpaceOk pool ⟨v, { p with userRegions := loadedRegions slot imagePaddr stackPaddr }⟩ := by
  have hno : ∀ {r : UserRegion}, r.flags = 0 → ¬r.Owned := fun hf ho => ho.1 (by rw [hf]; rfl)
  have hpages : storedPages ⟨imagePaddr, stackPaddr⟩ = pagesOf imagePaddr kernelUserImageSlotSize ++ [stackPaddr] := by
    simp [storedPages, hi0, hs0]
  have himage : pageSet imagePaddr kernelUserImageSlotPages =
    {a | a ∈ pagesOf imagePaddr kernelUserImageSlotSize} := rfl
  have hstack : pageSet stackPaddr kernelUserStackPages = {stackPaddr} := by
    ext a
    rw [mem_pageSet]
    simp [kernelUserStackPages]
  have hset : {a | a ∈ storedPages ⟨imagePaddr, stackPaddr⟩} =
      pageSet stackPaddr kernelUserStackPages ∪ pageSet imagePaddr kernelUserImageSlotPages := by
    rw [himage, hstack, hpages]
    ext a
    simp [or_comm]
  rw [hset] at h hS
  rw [← Set.sdiff_sdiff] at h
  have hapart : pageSet imagePaddr kernelUserImageSlotPages ⊆ pool \ pageSet stackPaddr kernelUserStackPages := by
    intro a ha
    refine ⟨hS (.inr ha), fun hb => ?_⟩
    rw [hpages, List.nodup_append] at hnd
    rw [hstack] at hb
    exact hnd.2.2 a ha stackPaddr (by simp) hb
  have h₁ : SpaceOk (pool \ pageSet stackPaddr kernelUserStackPages) ⟨v, { p with userRegions :=
      [imageRegion slot imagePaddr processUserRegionOwnedPages, stackRegion slot stackPaddr 0] }⟩ := by
    refine h.assign hapart (fun a ha => hreal a ha.1) (show p.userRegions = [] ++ _ :: _ from hl)
      (show _ = [] ++ _ :: _ from rfl) rfl rfl rfl (hno rfl) (owned_of_flags rfl hi0) ?_
    rw [imageRegion_pages]
    rfl
  refine h₁.assign (fun a ha => hS (.inl ha)) hreal (show _ = [_] ++ _ :: [] from rfl)
    (show _ = [_] ++ _ :: [] from rfl)
    rfl rfl rfl (hno rfl) (owned_of_flags rfl hs0) ?_
  rw [stackRegion_pages]
  rfl

/-- The process in the slot has its memory. -/
structure HasMemory (pool : Set Nat) (tame : Prop) (prot : Nat → Nat) (slot : SlotId) (k k' : Kernel ρ) : Prop where
  step : SpaceStep pool (k.space slot) (k'.space slot)
  agrees : SpaceAgrees tame prot (k'.space slot)

/-- The slot of a process that was just allocated. -/
structure Fresh (p : Process) : Prop where
  regions : p.userRegions = []
  table : p.pageTable = 0
  next : p.nextUserVaddr = processUserMmapBase

theorem nextOk_loaded {p : Process} {imagePaddr stackPaddr : Nat} (hnext : p.nextUserVaddr = processUserMmapBase)
    (hl : p.userRegions = loadedRegions slot imagePaddr stackPaddr) : NextOk p := by
  obtain ⟨-, hbelow, hstack⟩ := vaddr_order slot
  refine ⟨by omega, by rw [hnext]; decide, by rw [hnext]; decide, fun r hr => ?_⟩
  rw [hl] at hr
  rw [hnext]
  simp only [loadedRegions, List.mem_cons, List.not_mem_nil, or_false] at hr
  rcases hr with rfl | rfl
  · show panelImageVaddr slot + kernelUserImageSlotSize ≤ _
    omega
  · exact hstack

/-- The parameters of the loader. -/
structure LoadAsked (tame : Prop) (prot : Nat → Nat) (slot : SlotId) (mapMmio : Option MapMmio) : Prop where
  mmio : tame → ∀ m, mapMmio = some m → m.NoUser
  image : prot (panelImageVaddr slot) = imageFlags
  stack : prot (panelStackVaddr slot) = stackFlags

/-- The rest of `init_panel_process` once image and stack are in the storage. -/
theorem initStored_memory {image : UserImage} {memoryBase memorySize ip sp : Nat} {mapMmio : Option MapMmio}
    (h : LoaderOk pool slot l) (hstorage : l.storage = ⟨ip, sp⟩) (hi0 : ip ≠ 0) (hs0 : sp ≠ 0)
    (hbase : image.base = panelImageVaddr slot) (hsize : image.size = kernelUserImageSlotSize)
    (hfresh : Fresh (l.kernel.processes slot)) (hasked : LoadAsked tame prot slot mapMmio) :
    Wp (do
      onKernel (onSlot slot (userImagePrepareProcess image (panelStackVaddr slot) kernelUserStackSize spsrEl0t))
      let imagePaddr := (← get).storage.imagePaddr
      onKernel (onSlot slot (createPanelPageTable image imagePaddr (panelStackVaddr slot) sp kernelUserStackSize
        memoryBase memorySize mapMmio))
      onKernel (onSlot slot (onProcess
        (processSetUserRegionMapping image.base image.size imagePaddr processUserRegionOwnedPages)))
      modify fun l => { l with storage := { l.storage with imagePaddr := 0 } }
      onKernel (onSlot slot (onProcess
        (processSetUserRegionMapping (panelStackVaddr slot) kernelUserStackSize sp processUserRegionOwnedPages))) :
      LoaderM ρ Unit) l
      (fun _ l' => HasMemory pool tame prot slot l.kernel l'.kernel) fun _ l' => LoaderStep pool slot l l' := by
  have haligned : ∀ a ∈ storedPages ⟨ip, sp⟩, a % pageSize = 0 := by
    intro a ha
    rw [← hstorage] at ha
    exact h.space.pmm.page_aligned (h.real a (h.stored ha)).1
  have hia : ip % pageSize = 0 := haligned ip (by
    simp only [storedPages, hi0, if_false, List.mem_append]
    exact .inl (mem_pagesOf.mpr ⟨0, by decide, by simp⟩))
  have hsa : sp % pageSize = 0 := haligned sp (by simp [storedPages, hs0])
  refine wp_bind.mpr (wp_onKernelSlot.mpr ?_)
  refine Wp.mono (prepareProcess_regions hbase hsize hfresh.regions spsrEl0t) (fun _ s₂ h₂ => ?_) fun _ s₂ h₂ => ?_
  · obtain ⟨hvm, htable, hnext, hl⟩ := h₂
    have hok₂ : SpaceStep (pool \ {a | a ∈ storedPages l.storage}) (l.kernel.space slot) s₂ := by
      have heq : s₂ = ⟨l.kernel.vm, s₂.process⟩ := by
        rw [show l.kernel.vm = s₂.vm from hvm.symm]
      rw [heq]
      refine ⟨h.space.congr ?_ (fun r hr => ?_) htable, .refl _, fun _ _ => rfl⟩
      · rw [hl]
        exact imageStack_ok slot 0 0 0 0
      · show r ∈ s₂.process.userRegions ↔ r ∈ (l.kernel.processes slot).userRegions
        rw [hl, hfresh.regions]
        simp only [List.mem_cons, List.not_mem_nil, or_false, iff_false]
        rintro (rfl | rfl)
        · exact hr.2 rfl
        · exact hr.2 rfl
    refine wp_bind.mpr (wp_get.mpr (wp_bind.mpr (wp_onKernelSlot.mpr ?_)))
    rw [Loader.put_space, Loader.put_storage, hstorage]
    refine Wp.mono (createPanelPageTable_spec hbase hsize hok₂.ok (htable.trans hfresh.table) hl hi0 hia hs0 hsa
      hasked.mmio hasked.image hasked.stack) (fun _ s₃ h₃ => ?_) fun _ s₃ h₃ => ?_
    · obtain ⟨hstep₃, ⟨pgd, hp₃⟩, hagrees⟩ := h₃
      have hl₃ : s₃.process.userRegions = [imageRegion slot ip 0, stackRegion slot sp 0] := by rw [hp₃]
      have hstep := hok₂.trans hstep₃
      rw [hbase, hsize]
      refine wp_bind.mpr (wp_onKernelSlot.mpr ?_)
      rw [Loader.put_space]
      have hset₁ := (imageRegion_at slot ip 0 [stackRegion slot sp 0]).setMapping hl₃ ip processUserRegionOwnedPages
      refine (wp_onProcess hset₁).mpr (wp_bind.mpr (wp_modify.mpr (wp_onKernelSlot.mpr ?_)))
      dsimp only
      rw [Loader.put_space]
      have hset₂ := (stackRegion_at slot ip processUserRegionOwnedPages sp 0).setMapping
        (p := { s₃.process with userRegions :=
        [] ++ { imageRegion slot ip 0 with paddr := ip, flags := processUserRegionOwnedPages } ::
          [stackRegion slot sp 0] })
        rfl sp processUserRegionOwnedPages
      refine (wp_onProcess (s := ⟨s₃.vm, _⟩) hset₂).mpr ?_
      have hreal : ∀ a ∈ pool, a ∈ managed s₃.vm.pmm ∧ a ≠ 0 := by
        rw [hstep.same.managed]
        exact h.real
      have hok := hstep.ok
      have hstored := h.stored
      have hnd := h.nodup
      rw [hstorage] at hok hstored hnd
      have hfinal := assign_loaded (v := s₃.vm) (p := s₃.process) hi0 hs0 hstored hnd hreal hok hl₃
      refine ⟨?_, ?_⟩
      · rw [Loader.put_space]
        exact ⟨hfinal, hstep.same, fun t ht => hstep.frame t fun hin => ht hin.1⟩
      · rw [Loader.put_space]
        refine ⟨hagrees, nextOk_loaded ?_ rfl⟩
        show s₃.process.nextUserVaddr = processUserMmapBase
        rw [hp₃]
        exact hnext.trans hfresh.next
    · rw [Loader.put_put]
      exact h.step (hok₂.trans h₃)
  · rw [h₂]
    exact h.step (.refl h.space)

theorem initPanelProcess_memory {image : UserImage} {memoryBase memorySize : Nat} {mapMmio : Option MapMmio}
    (h : LoaderOk pool slot l) (hi0 : l.storage.imagePaddr ≠ 0) (hs : l.storage.stackPaddr = 0)
    (hbase : image.base = panelImageVaddr slot) (hsize : image.size = kernelUserImageSlotSize)
    (hfresh : Fresh (l.kernel.processes slot)) (hasked : LoadAsked tame prot slot mapMmio) :
    Wp (initPanelProcess slot image memoryBase memorySize mapMmio) l
      (fun _ l' => HasMemory pool tame prot slot l.kernel l'.kernel) fun _ l' => LoaderStep pool slot l l' := by
  have hstorage : l.storage = ⟨l.storage.imagePaddr, 0⟩ := by rw [← hs]
  unfold initPanelProcess
  refine wp_bind.mpr (wp_get.mpr (wp_guard (fun hz => absurd hz hi0) fun _ => ?_))
  refine wp_bind.mpr (wp_onPart.mpr (wp_onPart.mpr (wp_onPmm.mpr (wp_bind.mpr (wp_modify.mpr ?_)))))
  have hpmm : PmmOk l.kernel.vm.pmm := h.space.pmm
  rcases pmmAllocPages_spec hpmm kernelUserStackPages with hnone | ⟨sp, pmm', hsome, hs0, -, htook⟩
  · rw [hnone]
    refine wp_guard (fun _ => ?_) fun hne => absurd rfl hne
    show LoaderStep pool slot l ⟨l.kernel, ⟨l.storage.imagePaddr, 0⟩⟩
    rw [← hstorage]
    exact .refl h
  rw [hsome]
  refine wp_guard (fun hz => absurd hz hs0) fun _ => ?_
  have hstack : pagesOf sp (kernelUserStackPages * pageSize) = [sp] := by
    rw [pagesOf_mul]
    simp [kernelUserStackPages]
  have hpages : storedPages ⟨l.storage.imagePaddr, sp⟩ = storedPages l.storage ++ [sp] := by
    simp [storedPages, hs, hs0]
  have hin : sp ∉ storedPages l.storage := by
    intro hno
    have hfree := htook.were (show sp ∈ pagesOf sp (kernelUserStackPages * pageSize) by rw [hstack]; simp)
    exact ((h.space.own.cover sp).mpr (.inl hfree)).2 hno
  have hstep : LoaderStep pool slot l
      ⟨{ l.kernel with vm := { l.kernel.vm with pmm := pmm' } }, ⟨l.storage.imagePaddr, sp⟩⟩ := by
    refine h.store htook (fun a => ?_) ?_
    · rw [hpages, hstack]
      simp
    · rw [hpages]
      exact h.nodup.append (List.nodup_singleton sp) (by simpa using hin)
  refine Wp.mono (initStored_memory hstep.ok rfl hi0 hs0 hbase hsize hfresh hasked)
    (fun _ l' hl' => ?_) fun _ l' hl' => ?_
  · refine ⟨⟨hl'.step.ok, hstep.same.trans hl'.step.same, fun t ht => ?_⟩, hl'.agrees⟩
    exact hl'.step.frame t ht
  · exact hstep.trans hl'

/-! ## Giving up -/

/-- A slot without memory. -/
def NoMemory (p : Process) : Prop := p.userRegions = [] ∧ p.pageTable = 0

theorem processRelease_space (h : SpaceOk pool (k.space slot)) :
    SpaceStep pool (k.space slot) ((processRelease slot k).space slot) ∧
      NoMemory ((processRelease slot k).processes slot) := by
  unfold processRelease
  dsimp only
  split
  · rename_i hidle
    exact ⟨.refl h, hidle.2.2, hidle.2.1⟩
  · refine ⟨?_, ?_⟩
    · unfold Kernel.space
      dsimp only
      rw [Function.update_self]
      exact freeResources_spec h rfl rfl
    · dsimp only
      rw [Function.update_self]
      exact ⟨rfl, rfl⟩

theorem processRelease_loader (h : LoaderOk pool slot l) :
    LoaderStep pool slot l ⟨processRelease slot l.kernel, l.storage⟩ := by
  obtain ⟨hstep, -⟩ := processRelease_space h.space
  refine ⟨⟨?_, h.stored, h.nodup, hstep.ok⟩, hstep.same, fun t ht => hstep.frame t fun hin => ht hin.1⟩
  show ∀ a ∈ pool, a ∈ managed (processRelease slot l.kernel).vm.pmm ∧ a ≠ 0
  rw [show managed (processRelease slot l.kernel).vm.pmm = _ from hstep.same.managed]
  exact h.real

/-- The pages are free again and the slot has no memory. -/
structure Released (pool : Set Nat) (slot : SlotId) (k k' : Kernel ρ) : Prop where
  step : SpaceStep pool (k.space slot) (k'.space slot)
  empty : NoMemory (k'.processes slot)

theorem abandon_memory {α : Type} (h : LoaderOk pool slot l) :
    Wp (abandon slot : LoaderM ρ α) l (fun _ _ => False) fun _ l' => Released pool slot l.kernel l'.kernel := by
  obtain ⟨hstep, hempty⟩ := processRelease_space h.space
  refine wp_bind.mpr (wp_onPart.mpr (wp_modify.mpr (wp_bind.mpr ?_)))
  refine Wp.mono (freeUserStorage_spec (processRelease_loader h).ok)
    (fun _ l' hl' => wp_throw.mpr ?_) fun _ _ hno => hno.elim
  obtain ⟨hfree, h0, hproc⟩ := hl'
  refine ⟨⟨hfree.ok.empty h0, hstep.same.trans hfree.same, fun t ht => ?_⟩, ?_⟩
  · exact (hfree.frame t ht).trans (hstep.frame t fun hin => ht hin.1)
  · rw [hproc]
    exact hempty

theorem loadProcess_memory {name : Path} {entryIndex memoryBase memorySize : Nat} {mapMmio : Option MapMmio}
    (h : SpaceOk pool (k.space slot)) (hfresh : Fresh (k.processes slot)) (hasked : LoadAsked tame prot slot mapMmio) :
    Wp (loadProcess env name slot entryIndex memoryBase memorySize mapMmio) ⟨k, ⟨0, 0⟩⟩
      (fun _ l' => HasMemory pool tame prot slot k l'.kernel) fun _ l' => Released pool slot k l'.kernel := by
  have hok : LoaderOk pool slot ⟨k, ⟨0, 0⟩⟩ := .of_space h
  -- giving up after some steps
  have habandon : ∀ l : Loader ρ, LoaderStep pool slot ⟨k, ⟨0, 0⟩⟩ l →
      Wp (abandon slot : LoaderM ρ Unit) l (fun _ l' => HasMemory pool tame prot slot k l'.kernel)
        fun _ l' => Released pool slot k l'.kernel := by
    intro l hl
    refine Wp.mono (abandon_memory hl.ok) (fun _ _ hno => hno.elim) fun _ l' hl' => ?_
    exact ⟨⟨hl'.step.ok, hl.same.trans hl'.step.same, fun t ht => (hl'.step.frame t ht).trans (hl.frame t ht)⟩,
      hl'.empty⟩
  refine wp_bind.mpr (wp_attempt_all.mpr (Wp.mono (loadNamedImage_memory hok rfl)
    (fun image l₁ h₁ => ?_) fun _ l₁ h₁ => ?_))
  · obtain ⟨hstep₁, hproc, ⟨hi0, hs0⟩, hbase, hsize⟩ := h₁
    have hfresh₁ : Fresh (l₁.kernel.processes slot) := by
      rw [hproc]
      exact hfresh
    refine wp_bind.mpr (wp_attempt_all.mpr ?_)
    refine Wp.mono (initPanelProcess_memory hstep₁.ok hi0 hs0 hbase hsize hfresh₁ hasked)
      (fun _ l₂ h₂ => ?_) fun _ l₂ h₂ => ?_
    · refine ⟨⟨h₂.step.ok, hstep₁.same.trans h₂.step.same, fun t ht => ?_⟩, h₂.agrees⟩
      exact (h₂.step.frame t ht).trans (hstep₁.frame t ht)
    · exact habandon l₂ (hstep₁.trans h₂)
  · exact habandon l₁ h₁.1

end Loader

end Armonios
