import Armonios.Fat32.Listing
import Armonios.Fat32.Returns

/-!
# Created files

`fat32_create` takes the first free entry. If that is the end mark, the directory goes on behind it with whatever stands
there; and a name that starts with the deleted mark makes an entry that counts as deleted.

* `create_returns_iff`: when a create returns, on a reliable disk;
* `createShows_iff`: when the new file can be opened, is listed and can be deleted again.
-/

namespace Armonios

variable {fs : Fat32Fs} {sel : UInt8 → Bool} {r : List Nat} {disk disk' disk'' : Nat → Sector} {d d' : Dev}
  {s t : Slot} {slots xs ys : List Slot} {name w : List UInt8} {b : Nat}

/-! ## CreateFills that return -/

theorem Volume.flat (h : Volume fs sel r disk) : FlatVolume fs := by
  have hlt := h.dataBase_lt
  have htotal := h.geometry.total_lt
  have hstart : fs.dataStartLba = dataBase fs := by
    rw [h.geometry.data_start]
    exact Nat.mod_eq_of_lt (hlt.trans htotal)
  exact ⟨h.geometry, hstart, by rw [hstart]; exact hlt⟩

/-- The search for a free cluster does not leave the volume. -/
def SearchStays (fs : Fat32Fs) (disk : Nat → Sector) : Prop := ∀ b, SearchFinds fs disk b → InData fs b

theorem searchStays_of_finds (h : SearchFinds fs disk b) (hb : InData fs b) : SearchStays fs disk := by
  intro b' hb'
  rw [hb'.unique h]
  exact hb

theorem SearchFinds.freeClusters (h : SearchFinds fs disk b) (hflat : FlatVolume fs) (hb : InData fs b) :
    FreeClusters fs disk 1 :=
  ⟨[b], List.nodup_singleton b, rfl, fun c hc => by
    obtain rfl := List.mem_singleton.mp hc
    exact ⟨hb, (hflat.nextOf h.lt disk).trans h.free⟩⟩

/-- On the volume a create of the name fills the entry `s`. -/
structure CreateFills (fs : Fat32Fs) (r : List Nat) (disk : Nat → Sector) (name w : List UInt8) (xs : List Slot)
    (s : Slot)
    (ys : List Slot) : Prop where
  writable : fs.writable = true
  short : makeShortName name = some w
  new : ¬ ∃ s l, Openable fs r disk name s l
  slots : slotsOf fs r = xs ++ s :: ys
  used : ∀ u ∈ xs, ¬ FreeSlot disk u
  free : FreeSlot disk s
  cluster : ∃ b, SearchFinds fs disk b

/-- There is one first free entry. -/
theorem first_unique {α : Type} {P : α → Prop} {xs ys xs' ys' : List α} {a b : α} (h : xs ++ a :: ys = xs' ++ b :: ys')
    (hxs : ∀ x ∈ xs, ¬ P x) (hxs' : ∀ x ∈ xs', ¬ P x) (ha : P a) (hb : P b) : xs = xs' ∧ a = b ∧ ys = ys' := by
  induction xs generalizing xs' with
  | nil =>
    cases xs' with
    | nil => exact ⟨rfl, List.cons.inj h⟩
    | cons x xs' =>
      obtain rfl := (List.cons.inj h).1
      exact absurd ha (hxs' a List.mem_cons_self)
  | cons x xs ih =>
    cases xs' with
    | nil =>
      obtain rfl := (List.cons.inj h).1
      exact absurd hb (hxs x List.mem_cons_self)
    | cons x' xs' =>
      obtain ⟨rfl, hrest⟩ := List.cons.inj h
      obtain ⟨rfl, hab⟩ := ih hrest (fun y hy => hxs y (List.mem_cons_of_mem x hy))
        fun y hy => hxs' y (List.mem_cons_of_mem x hy)
      exact ⟨rfl, hab⟩

/-- The search for a free entry finds the first one. -/
theorem findFreeDirEntry_finds (hv : Volume fs sel r d.disk) :
    ReadsTo (findFreeDirEntry fs) openSites (∀ s ∈ slotsOf fs r, ¬ FreeSlot d.disk s) d
      (FirstFree d.disk (slotsOf fs r)) := by
  unfold findFreeDirEntry
  refine ReadsTo.bind ((scanRoot_spec hv).mono (fun _ h => h) (fun h => h.elim) fun _ h => h)
    fun res d₁ _ _ hres => ?_
  cases res with
  | next st =>
    refine ReadsTo.fail fun s hs hfree => ?_
    obtain ⟨a, ha⟩ := scanSlots_unit.mpr ⟨s, hs, freeVisit_exit.mpr hfree⟩
    rw [← hres] at ha
    cases ha
  | exit s => exact ReadsTo.pure (scanSlots_free hres.symm)

/-- On a reliable disk it returns. -/
theorem create_returns (h : CreateFills fs r d.disk name w xs s ys) (hv : Volume fs allLive r d.disk)
    (hd : d.fault = none)
    (hsearch : SearchStays fs d.disk) : Returns (fat32Create fs name) d := by
  have hm := hv.geometry
  have hnone : d.armed = none := fault_none.mpr hd
  obtain ⟨b, hb⟩ := h.cluster
  have hfree := hb.freeClusters hv.flat (hsearch b hb)
  unfold fat32Create
  refine wp_guard (fun hno => ?_) fun _ => ?_
  · rw [hm.mounted, h.writable] at hno
    simp at hno
  rw [h.short]
  refine wp_bind.mpr (wp_attempt.mpr (Wp.mono (openRoot_reliable hv hd name) ?_ ?_))
  · rintro file d₁ ⟨-, s, l, hopen, -⟩
    exact absurd ⟨s, l, hopen⟩ h.new
  rintro e d₁ ⟨rfl, rfl, -⟩
  refine wp_guard (fun hno => absurd hno (by decide)) fun _ => ?_
  refine (findFreeDirEntry_finds hv).wp_bind (fun s' d₂ hdisk₂ ha₂ hs' => ?_) fun d₂ _ hst => ?_
  swap
  · rw [hnone] at hst
    exact hst.refused.1 s (by rw [h.slots]; simp) h.free
  rw [hnone] at ha₂
  have hreturns : Wp (allocateCluster fs 0) d₂ (fun _ _ => True) fun _ _ => False := by
    unfold allocateCluster
    rw [← hdisk₂] at hb hsearch
    refine (findFreeCluster_finds hv.flat).wp_bind (fun b' d₃ hdisk₃ ha₃ hb' => ?_) fun d₃ _ hst => ?_
    swap
    · rw [ha₂] at hst
      exact hst.refused.1 ⟨b, hb⟩
    simp only [ne_eq, not_true_eq_false, if_false]
    refine wp_bind.mpr (Wp.mono (writeFatEntry_spec hm h.writable (hsearch b' hb') (by decide)) (fun _ _ _ => trivial)
      fun e d₄ hst => ?_)
    rw [ha₃, ha₂] at hst
    rcases hst.2 with hst | hst
    · exact not_stopped hst.2
    · exact not_stopped hst.2
  rw [← hdisk₂] at hfree
  have hhead := allocateHead_spec hm h.writable (hfree.findsOwn (n := 0))
  refine wp_bind.mpr (Wp.mono (hreturns.and hhead) ?_ fun _ _ hno => hno.1)
  rintro b' d₃ ⟨-, hnew, -, ha₃⟩
  rw [ha₂] at ha₃
  refine wp_bind.mpr (Wp.mono (patchSlot_spec hm.mounted h.writable (hv.slot_lt hs'.mem)) (fun _ d₄ h₄ => ?_)
    fun _ d₄ h₄ => ?_)
  swap
  · have hst := h₄.2.2
    rw [ha₃] at hst
    exact not_stopped hst
  refine wp_bind.mpr (Wp.mono (zeroSectors_spec hm h.writable hnew.1 fun i hi => List.mem_range.mp hi)
    (fun _ _ _ => trivial) fun _ d₅ h₅ => ?_)
  have hst := h₅.2.2
  rw [h₄.2, ha₃] at hst
  exact not_stopped hst

/-- The driver refuses no sector of the cluster, with the sector numbers as it computes them. -/
def Unrefused (fs : Fat32Fs) (b : Nat) : Prop :=
  ∀ i < fs.sectorsPerCluster, (clusterToLba fs b + i) % 2 ^ 32 < fs.totalSectors

theorem zeroSectors_unrefused {lba : Nat} {is : List Nat} :
    Wp (zeroSectors fs lba is) d (fun _ _ => ∀ i ∈ is, (lba + i) % 2 ^ 32 < fs.totalSectors) fun _ _ => True := by
  induction is generalizing d with
  | nil => exact fun i hi => absurd hi List.not_mem_nil
  | cons i is ih =>
    unfold zeroSectors writeSector
    refine wp_bind.mpr (wp_guard (fun _ => trivial) fun hi => ?_)
    refine wp_bind.mpr (wp_callback (fun d₁ _ _ => wp_modify.mpr ?_) fun _ _ _ => trivial)
    exact Wp.mono ih (fun _ _ his => List.forall_mem_cons.mpr ⟨by omega, his⟩) fun _ _ _ => trivial

/-- What a create that returned has found. -/
theorem create_found (hv : Volume fs allLive r d.disk) (hd : d.fault = none) :
    Wp (fat32Create fs name) d (fun _ _ => (∃ w xs s ys, CreateFills fs r d.disk name w xs s ys) ∧
      ∃ b, SearchFinds fs d.disk b ∧ Unrefused fs b) fun _ _ => True := by
  unfold fat32Create
  refine wp_guard (fun _ => trivial) fun hready => ?_
  have hwritable : fs.writable = true := by
    by_contra hno
    exact hready (.inr (by simpa using hno))
  cases hw : makeShortName name with
  | none => exact trivial
  | some w =>
    refine wp_bind.mpr (wp_attempt.mpr (Wp.mono (openRoot_reliable hv hd name) ?_ ?_))
    · intro file d₁ _
      exact wp_guard (fun _ => trivial) fun hno => absurd rfl hno
    rintro e d₁ ⟨rfl, rfl, hnew⟩
    refine wp_guard (fun _ => trivial) fun _ => ?_
    refine (findFreeDirEntry_spec hv).wp_bind (fun s d₂ hdisk₂ _ hs => ?_) fun _ _ _ => trivial
    refine wp_bind.mpr (Wp.mono (allocateCluster_finds hv.flat 0) (fun b d₃ hb => ?_) fun _ _ _ => trivial)
    rw [hdisk₂] at hb
    obtain ⟨hfree, xs, ys, hslots, hused⟩ := hs
    refine wp_bind_any fun _ d₄ => wp_bind.mpr (Wp.mono zeroSectors_unrefused (fun _ _ his => ?_) fun _ _ _ => trivial)
    exact ⟨⟨w, xs, s, ys, hwritable, hw, hnew, hslots, hused, hfree, b, hb⟩, b, hb,
      fun i hi => his i (List.mem_range.mpr hi)⟩

/-- On a reliable disk, if the search for a free cluster does not leave the volume. -/
theorem create_returns_iff (hv : Volume fs allLive r d.disk) (hd : d.fault = none) (hsearch : SearchStays fs d.disk) :
    (∃ file d', fat32Create fs name d = .ok file d') ↔ ∃ w xs s ys, CreateFills fs r d.disk name w xs s ys := by
  constructor
  · rintro ⟨file, d', hrun⟩
    exact ((create_found hv hd).of_ok hrun).1
  · rintro ⟨w, xs, s, ys, hcreates⟩
    obtain ⟨file, d', hrun, -⟩ := (create_returns hcreates hv hd hsearch).returns
    exact ⟨file, d', hrun⟩

/-- A create that fails has changed nothing. -/
theorem create_refused (hv : Volume fs allLive r d.disk) (hd : d.fault = none) (hsearch : SearchStays fs d.disk)
    {e : Err} (hrun : fat32Create fs name d = .error e d') : d' = d := by
  by_cases hcluster : ∃ b, SearchFinds fs d.disk b
  · obtain ⟨b, hb⟩ := hcluster
    exact ((create_reliable hv hd fun _ => hb.freeClusters hv.flat (hsearch b hb)).of_error hrun).2
  have hnone : d.armed = none := fault_none.mpr hd
  have hsame : Wp (fat32Create fs name) d (fun _ _ => False) fun _ d' => d' = d := by
    unfold fat32Create
    refine wp_guard (fun _ => rfl) fun _ => ?_
    cases makeShortName name with
    | none => exact rfl
    | some w =>
      refine wp_bind.mpr (wp_attempt.mpr (Wp.mono (openRoot_reliable hv hd name) ?_ ?_))
      · rintro file d₁ ⟨rfl, -⟩
        exact wp_guard (fun _ => rfl) fun hno => absurd rfl hno
      rintro e d₁ ⟨rfl, rfl, -⟩
      refine wp_guard (fun _ => rfl) fun _ => ?_
      refine (findFreeDirEntry_spec hv).wp_bind (fun s d₂ hdisk₂ ha₂ _ => ?_) fun d₂ hdisk₂ hst => ?_
      swap
      · rw [hnone] at hst
        exact Dev.eq_of_disk hdisk₂ hst.refused.2 hd
      have hd₂ : d₂ = d₁ := Dev.eq_of_disk hdisk₂ (ha₂.trans hnone) hd
      subst hd₂
      -- the search for a free cluster fails
      unfold allocateCluster
      rw [bind_assoc]
      refine (findFreeCluster_finds hv.flat).wp_bind
        (fun b d₃ _ _ hb => absurd ⟨b, hb⟩ hcluster) fun d₃ hdisk₃ hst => ?_
      rw [hnone] at hst
      exact Dev.eq_of_disk hdisk₃ hst.refused.2 hd
  exact hsame.of_error hrun

/-- The entry that is filled is the one that the create has found. -/
theorem CreateFills.created (h : CreateFills fs r d.disk name w xs s ys) (hv : Volume fs allLive r d.disk)
    (hd : d.fault = none)
    (hsearch : SearchStays fs d.disk) {file : Fat32File} (hrun : fat32Create fs name d = .ok file d') :
    d'.fault = none ∧ ∃ b, Created fs allLive r w s b d.disk d'.disk := by
  obtain ⟨b, hb⟩ := h.cluster
  obtain ⟨hfault, ⟨w', s', b', hw', hcreated⟩, -⟩ :=
    (create_reliable hv hd fun _ => hb.freeClusters hv.flat (hsearch b hb)).of_ok hrun
  obtain rfl : w' = w := Option.some.inj (hw'.symm.trans h.short)
  obtain ⟨hfree', xs', ys', hslots', hused'⟩ := hcreated.slot
  obtain ⟨-, rfl, -⟩ := first_unique (h.slots.symm.trans hslots') h.used hused' h.free hfree'
  exact ⟨hfault, b', hcreated⟩

/-! ## What the listing makes of it -/

theorem entryName_mark (sec : Sector) (off : Nat) : (entryName sec off).getD 0 0 = entryMark sec off := rfl

theorem SameEntry.endMark (h : SameEntry disk disk' s) : EndMark disk' s ↔ EndMark disk s := by
  unfold EndMark
  rw [h.mark]

theorem SameEntry.listed (h : SameEntry disk disk' s) : Listed disk' s ↔ Listed disk s := by
  unfold Listed
  rw [h.live, h.attr]

theorem SameEntry.entryLine (h : SameEntry disk disk' s) : entryLine disk' s = entryLine disk s := by
  unfold Armonios.entryLine
  rw [← shortNameLine_entry, ← shortNameLine_entry, h.name, h.attr]

/-- The lines of entries that stand in front of the end mark. -/
def rowLines (disk : Nat → Sector) (slots : List Slot) : List (List UInt8) :=
  (slots.filter fun s => Listed disk s).map (entryLine disk)

theorem rowLines_congr (h : ∀ s ∈ slots, SameEntry disk disk' s) : rowLines disk' slots = rowLines disk slots := by
  unfold rowLines
  rw [List.filter_congr fun s hs => decide_eq_decide.mpr (h s hs).listed]
  exact List.map_congr_left fun s hs => (h s (List.mem_filter.mp hs).1).entryLine

theorem beforeEnd_marks (h : ∀ s ∈ slots, EndMark disk' s ↔ EndMark disk s) :
    beforeEnd disk' slots = beforeEnd disk slots := by
  induction slots with
  | nil => rfl
  | cons s slots ih =>
    obtain ⟨hs, hslots⟩ := List.forall_mem_cons.mp h
    rw [beforeEnd_cons, beforeEnd_cons, ih hslots]
    simp only [hs]

theorem beforeEnd_congr (h : ∀ s ∈ slots, SameEntry disk disk' s) :
    beforeEnd disk' slots = beforeEnd disk slots := beforeEnd_marks fun s hs => (h s hs).endMark

theorem shownLines_congr (h : ∀ s ∈ slots, SameEntry disk disk' s) :
    shownLines disk' slots = shownLines disk slots := by
  show rowLines disk' (beforeEnd disk' slots) = rowLines disk (beforeEnd disk slots)
  rw [beforeEnd_congr h]
  exact rowLines_congr fun s hs => h s (mem_beforeEnd hs).1

/-- The lines around an entry. -/
theorem shownLines_split (hxs : ∀ u ∈ xs, ¬ EndMark disk u) : shownLines disk (xs ++ s :: ys) =
    rowLines disk xs ++
      if EndMark disk s then [] else (if Listed disk s then [entryLine disk s] else []) ++ shownLines disk ys := by
  show rowLines disk (beforeEnd disk (xs ++ s :: ys)) = _
  rw [beforeEnd_append hxs, beforeEnd_cons]
  unfold rowLines
  rw [List.filter_append, List.map_append]
  by_cases hmark : EndMark disk s
  · rw [if_pos hmark, if_pos hmark]
    rfl
  · rw [if_neg hmark, if_neg hmark, List.filter_cons]
    by_cases hlisted : Listed disk s
    · rw [if_pos hlisted, if_pos (decide_eq_true hlisted)]
      rfl
    · rw [if_neg hlisted, if_neg (by simpa using hlisted)]
      rfl

theorem shownLines_nil : shownLines disk slots = [] ↔ ∀ t ∈ beforeEnd disk slots, ¬ Listed disk t := by
  unfold shownLines
  rw [List.map_eq_nil_iff, List.filter_eq_nil_iff]
  simp

/-- What the first free entry hides from a listing. -/
theorem CreateFills.before (h : CreateFills fs r disk name w xs s ys) : shownLines disk (slotsOf fs r) =
    rowLines disk xs ++ if EndMark disk s then [] else shownLines disk ys := by
  rw [h.slots, shownLines_split fun u hu hmark => h.used u hu (.inl hmark)]
  by_cases hmark : EndMark disk s
  · rw [if_pos hmark, if_pos hmark]
  · have hdeleted : ¬ Listed disk s := fun hlisted => hlisted.1.2.1 (h.free.resolve_left hmark)
    rw [if_neg hmark, if_neg hmark, if_neg hdeleted, List.nil_append]

theorem cellLbas_nodup (fs : Fat32Fs) (c : Nat) : (cellLbas fs c).Nodup :=
  List.nodup_range.map fun _ _ h => Nat.add_left_cancel h

/-- The entries of a directory are different ones. -/
theorem Volume.nodup_slots (hv : Volume fs sel r disk) : (slotsOf fs r).Nodup := by
  have hlbas : (chainLbas fs r).Nodup := by
    refine List.nodup_flatMap.mpr ⟨fun c _ => cellLbas_nodup fs c, ?_⟩
    refine hv.root.nodup.imp_of_mem fun hc hx hne lba hlba hlba' => hne ?_
    obtain ⟨i, hi, rfl⟩ := mem_cellLbas.mp hlba
    obtain ⟨j, hj, heq⟩ := mem_cellLbas.mp hlba'
    exact ((hv.inData_root hc).lba_inj (hv.inData_root hx) hi hj heq).1
  refine List.nodup_flatMap.mpr ⟨fun lba _ => ?_, hlbas.imp fun hne s hs hs' => hne ?_⟩
  · refine List.Nodup.map (fun off off' h => congrArg Slot.offset h) ?_
    exact List.nodup_range.map fun i j h => Nat.eq_of_mul_eq_mul_left (by decide) h
  · obtain ⟨off, -, rfl⟩ := List.mem_map.mp hs
    obtain ⟨off', -, heq⟩ := List.mem_map.mp hs'
    exact (congrArg Slot.lba heq).symm

/-- What a listing shows when the entry is filled, or filled and deleted again. -/
theorem CreateFills.after (h : CreateFills fs r disk name w xs s ys) (hv : Volume fs sel r disk)
    (hothers : ∀ t ∈ slotsOf fs r, t ≠ s → SameEntry disk disk' t) (hmark : ¬ EndMark disk' s) :
    shownLines disk' (slotsOf fs r) =
      rowLines disk xs ++ ((if Listed disk' s then [entryLine disk' s] else []) ++ shownLines disk ys) := by
  have hnodup := hv.nodup_slots
  rw [h.slots] at hnodup hothers
  have hs := (List.nodup_cons.mp (List.nodup_middle.mp hnodup)).1
  rw [List.mem_append, not_or] at hs
  have hxs : ∀ u ∈ xs, SameEntry disk disk' u := fun u hu =>
    hothers u (List.mem_append_left _ hu) fun heq => hs.1 (by rw [← heq]; exact hu)
  have hys : ∀ u ∈ ys, SameEntry disk disk' u := fun u hu =>
    hothers u (List.mem_append_right _ (List.mem_cons_of_mem s hu)) fun heq => hs.2 (by rw [← heq]; exact hu)
  rw [h.slots, shownLines_split fun u hu hend => h.used u hu (.inl ((hxs u hu).endMark.mp hend)), if_neg hmark,
    rowLines_congr hxs, shownLines_congr hys]

/-! ## A new file that is seen -/

/-- The file of a create that returned is there, empty, the listing has its line besides those it had before, and a
delete takes the line out again. -/
structure SeenFile (fs : Fat32Fs) (name : List UInt8) (d d' : Dev) : Prop where
  opens : ∃ file d'', fat32OpenRoot fs name d' = .ok file d'' ∧ file.size = 0
  lists : ∃ out out', Lists fs d out ∧ Lists fs d' out' ∧ InsertsLine 10 (canonicalName name) out out'
  deletes : ∃ d'', fat32Delete fs name d' = .ok () d'' ∧ ∃ out, Lists fs d out ∧ Lists fs d'' out

/-- A create that returns has made its file visible. -/
def CreateShows (fs : Fat32Fs) (d : Dev) (name : List UInt8) : Prop :=
  ∀ file d', fat32Create fs name d = .ok file d' → SeenFile fs name d d'

/-- A delete of a file that can be opened returns. -/
theorem delete_returns {l : List Nat} (hw : fs.writable = true) (hv : Volume fs allLive r d.disk) (hd : d.fault = none)
    (hopen : Openable fs r d.disk name s l) :
    ∃ d', fat32Delete fs name d = .ok () d' ∧ d'.fault = none ∧ Deleted fs allLive r s l d.disk d'.disk := by
  have hnone : d.armed = none := fault_none.mpr hd
  have hdelete : Wp (fat32Delete fs name) d
      (fun _ d' => d'.fault = none ∧ Deleted fs allLive r s l d.disk d'.disk) fun _ _ => False := by
    refine Wp.mono (delete_spec hw hv allLive_selectsFiles name) ?_ ?_
    · rintro _ d' ⟨s', l', hopen', hdeleted, -, ha⟩
      obtain ⟨rfl, rfl⟩ := hopen.unique hopen'
      exact ⟨fault_none.mp (ha.trans hnone), hdeleted⟩
    · rintro e d' ⟨-, hfail⟩
      rw [hnone] at hfail
      rcases hfail with ⟨-, hst⟩ | ⟨_, _, -, -, -, hst⟩ | ⟨_, _, -, -, -, hst⟩
      · exact hst.refused.1 ⟨s, l, hopen⟩
      · exact not_stopped hst
      · exact not_stopped hst
  obtain ⟨u, d', hrun, hd', hdeleted⟩ := hdelete.returns
  exact ⟨d', hrun, hd', hdeleted⟩

section Created

variable (h : CreateFills fs r d.disk name w xs s ys) (hcreated : Created fs allLive r w s b d.disk d'.disk)

include h hcreated

theorem CreateFills.mark : ¬ EndMark d'.disk s := by
  unfold EndMark
  rw [hcreated.mark]
  exact (makeShortName_ok h.short).2

/-- A name that does not start with the deleted mark is listed. -/
theorem CreateFills.listed (he5 : w.getD 0 0 ≠ 0xe5) : Listed d'.disk s ∧ entryLine d'.disk s = canonicalName name := by
  obtain ⟨m, hm, rfl⟩ := makeShortName_iff.mp h.short
  refine ⟨⟨⟨h.mark hcreated, by rw [hcreated.mark]; exact he5, ?_⟩, ?_⟩, ?_⟩
  · rw [hcreated.attr]
    decide
  · rw [hcreated.attr]
    decide
  · rw [show canonicalName name = m.text from hm]
    refine (entryLine_eq hcreated.name).mpr ⟨?_, rfl⟩
    rw [hcreated.attr]
    decide

/-- A lookup finds the new file: no file in front of it has the name. -/
theorem CreateFills.openable (hroot : RootFiles fs r d.disk) (he5 : w.getD 0 0 ≠ 0xe5) :
    Openable fs r d'.disk name s [b] := by
  obtain ⟨hlisted, -⟩ := h.listed hcreated he5
  have hhit : Hit w d'.disk s := by
    refine ⟨hlisted.1, ?_, hcreated.name⟩
    rw [hcreated.attr]
    decide
  have hmiss : ∀ u ∈ xs, ¬ Hit w d.disk u := by
    intro u hu hhit
    have hmem : u ∈ beforeEnd d.disk (slotsOf fs r) := by
      rw [h.slots, beforeEnd_append fun u hu hmark => h.used u hu (.inl hmark)]
      exact List.mem_append_left _ hu
    exact hroot.no_hit h.short h.new u hmem hhit
  refine ⟨⟨w, h.short, findEntry_eq_some.mpr ⟨hhit, xs, ys, h.slots, fun u hu => ?_⟩⟩, ?_, .inl hcreated.size, ?_⟩
  · have hne : u ≠ s := by
      rintro rfl
      exact h.used u hu h.free
    have hsame := hcreated.others u (by rw [h.slots]; exact List.mem_append_left _ hu) hne
    rw [hsame.mark, hsame.hit]
    exact ⟨fun hmark => h.used u hu (.inl hmark), hmiss u hu⟩
  · refine .inl ⟨by rw [hcreated.first]; exact hcreated.inData.ge, ?_⟩
    rw [hcreated.first]
    exact .step hcreated.inData.not_eoc (.done hcreated.last)
  · have hcluster := hroot.volume.geometry.cluster_lt
    unfold clusterBytesOf
    rw [List.length_singleton]
    omega

end Created

/-- What stands behind the end mark that a create fills has no entry that a listing shows. -/
def NothingBehind (disk : Nat → Sector) (s : Slot) (ys : List Slot) : Prop :=
  EndMark disk s → ∀ t ∈ beforeEnd disk ys, ¬ Listed disk t

theorem CreateFills.shows (h : CreateFills fs r d.disk name w xs s ys)
    (hcreated : Created fs allLive r w s b d.disk d'.disk)
    (hroot : RootFiles fs r d.disk) (hd : d.fault = none) (hd' : d'.fault = none) (he5 : w.getD 0 0 ≠ 0xe5)
    (hbehind : NothingBehind d.disk s ys) : SeenFile fs name d d' := by
  have hopen := h.openable hcreated hroot he5
  obtain ⟨hlisted, hline⟩ := h.listed hcreated he5
  have hmark := h.mark hcreated
  have hbefore : shownLines d.disk (slotsOf fs r) = rowLines d.disk xs ++ shownLines d.disk ys := by
    rw [h.before]
    split
    · rename_i hend
      rw [shownLines_nil.mpr (hbehind hend)]
    · rfl
  refine ⟨⟨_, d', openRoot_returns hcreated.volume allLive_selectsFiles hd' hopen, hcreated.size⟩, ?_, ?_⟩
  · refine ⟨_, _, (lists_iff hroot.volume hd).mpr rfl, (lists_iff hcreated.volume hd').mpr rfl, ?_⟩
    rw [hbefore, h.after hroot.volume hcreated.others hmark, if_pos hlisted, hline]
    exact insertsLine_unlines _ _ _
  · obtain ⟨d'', hrun, hd'', hdeleted⟩ := delete_returns h.writable hcreated.volume hd' hopen
    refine ⟨d'', hrun, _, (lists_iff hroot.volume hd).mpr rfl, (lists_iff hdeleted.volume hd'').mpr ?_⟩
    have hnone : ¬ Listed d''.disk s := fun hlisted => hlisted.1.2.1 hdeleted.mark
    have hlive : ¬ EndMark d''.disk s := by
      unfold EndMark
      rw [hdeleted.mark]
      decide
    rw [hbefore, h.after hroot.volume (fun t ht hts => (hcreated.others t ht hts).trans
      (hdeleted.others t ht hts)) hlive,
      if_neg hnone, List.nil_append]

theorem CreateFills.of_shows (h : CreateFills fs r d.disk name w xs s ys)
    (hcreated : Created fs allLive r w s b d.disk d'.disk)
    (hroot : RootFiles fs r d.disk) (hd : d.fault = none) (hd' : d'.fault = none) (hshows : SeenFile fs name d d') :
    w.getD 0 0 ≠ 0xe5 ∧ NothingBehind d.disk s ys := by
  have he5 : w.getD 0 0 ≠ 0xe5 := by
    intro he5
    obtain ⟨file, d'', hrun, -⟩ := hshows.opens
    obtain ⟨-, s', l, hopen, -⟩ := (openRoot_reliable hcreated.volume hd' name).of_ok hrun
    obtain ⟨hlive, -, hname⟩ := hopen.hit h.short
    rw [← hname, entryName_mark] at he5
    exact hlive.2.1 he5
  refine ⟨he5, fun hend => shownLines_nil.mp ?_⟩
  obtain ⟨out, out', hout, hout', hinserts⟩ := hshows.lists
  obtain ⟨hlisted, hline⟩ := h.listed hcreated he5
  have hlength := hinserts.length
  rw [(lists_iff hroot.volume hd).mp hout, (lists_iff hcreated.volume hd').mp hout', h.before, if_pos hend,
    h.after hroot.volume hcreated.others (h.mark hcreated), if_pos hlisted, hline, List.append_nil, unlines_append,
    List.singleton_append, unlines_cons] at hlength
  simp only [List.length_append, List.length_cons] at hlength
  by_contra hne
  obtain ⟨line, lines, hlines⟩ := List.exists_cons_of_ne_nil hne
  rw [hlines, unlines_cons] at hlength
  simp only [List.length_append, List.length_cons] at hlength
  omega

/-- The search finds a cluster that is not one of the volume's, and the driver refuses none of its sectors. -/
def FindsStray (fs : Fat32Fs) (disk : Nat → Sector) : Prop :=
  ∃ b, SearchFinds fs disk b ∧ ¬ InData fs b ∧ Unrefused fs b

/-- The new file can be seen: its name does not start with the deleted mark, and no entry to be listed comes behind the
end mark that it fills. -/
def CanBeSeen (fs : Fat32Fs) (r : List Nat) (disk : Nat → Sector) (name : List UInt8) : Prop :=
  ∀ w xs s ys, CreateFills fs r disk name w xs s ys → (∃ b, SearchFinds fs disk b ∧ InData fs b) →
    w.getD 0 0 ≠ 0xe5 ∧ NothingBehind disk s ys

/-- On a reliable disk, for every create that does not fill an entry with a stray cluster. -/
theorem createShows_iff (hroot : RootFiles fs r d.disk) (hd : d.fault = none) (name : List UInt8)
    (hstray : ∀ w xs s ys, CreateFills fs r d.disk name w xs s ys → ¬ FindsStray fs d.disk) :
    CreateShows fs d name ↔ CanBeSeen fs r d.disk name := by
  constructor
  · rintro hall w xs s ys h ⟨b, hb, hin⟩
    have hsearch := searchStays_of_finds hb hin
    obtain ⟨file, d', hrun⟩ := (create_returns_iff hroot.volume hd hsearch).mpr ⟨w, xs, s, ys, h⟩
    obtain ⟨hd', b', hcreated⟩ := h.created hroot.volume hd hsearch hrun
    exact h.of_shows hcreated hroot hd hd' (hall file d' hrun)
  · intro hseen file d' hrun
    obtain ⟨⟨w, xs, s, ys, h⟩, b, hb, hunrefused⟩ := (create_found hroot.volume hd).of_ok hrun
    have hin : InData fs b := by
      by_contra hout
      exact hstray w xs s ys h ⟨b, hb, hout, hunrefused⟩
    obtain ⟨hd', b', hcreated⟩ := h.created hroot.volume hd (searchStays_of_finds hb hin) hrun
    obtain ⟨he5, hbehind⟩ := hseen w xs s ys h ⟨b, hb, hin⟩
    exact h.shows hcreated hroot hd hd' he5 hbehind

theorem SearchStays.not_findsStray (h : SearchStays fs disk) : ¬ FindsStray fs disk := by
  rintro ⟨b, hb, hout, -⟩
  exact hout (h b hb)

theorem sample_searchStays : SearchStays sampleFs sampleDisk := by
  have hfour : SearchFinds sampleFs sampleDisk 4 := by
    refine ⟨by decide, by decide, by decide +kernel, fun y hy hlt => ?_⟩
    obtain rfl | rfl : y = 2 ∨ y = 3 := by omega
    all_goals decide +kernel
  exact searchStays_of_finds hfour (by decide)

theorem createShows_iff_sample :
    CreateShows sampleFs ⟨sampleDisk, none⟩ [98] ↔ CanBeSeen sampleFs [2] sampleDisk [98] :=
  createShows_iff (d := ⟨sampleDisk, none⟩) sample_rootFiles rfl [98] fun _ _ _ _ _ =>
    sample_searchStays.not_findsStray

/-- The create of a name that starts with the deleted mark returns, and no lookup finds the file. -/
theorem deleted_mark_hides : ¬ CreateShows sampleFs ⟨sampleDisk, none⟩ [0xe5] := by
  intro hall
  have hok : isOk (fat32Create sampleFs [0xe5]) ⟨sampleDisk, none⟩ = true := by decide +kernel
  obtain ⟨file, d', hrun⟩ := exists_of_isOk hok
  obtain ⟨⟨w, xs, s, ys, h⟩, -⟩ := (create_found (d := ⟨sampleDisk, none⟩) sample_rootFiles.volume rfl).of_ok hrun
  obtain ⟨hd', b, hcreated⟩ := h.created (d := ⟨sampleDisk, none⟩) sample_rootFiles.volume rfl sample_searchStays hrun
  have hmark := (h.of_shows hcreated sample_rootFiles rfl hd' (hall file d' hrun)).1
  obtain rfl : [0xe5, 32, 32, 32, 32, 32, 32, 32, 32, 32, 32] = w :=
    Option.some.inj (h.short.symm.trans (by decide)).symm
  exact absurd hmark (by decide)

end Armonios
