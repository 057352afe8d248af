import Armonios.Fat32.Created
import Armonios.Lib.Run

/-!
# Distinct names

`fat32_create` and `fat32_rename` refuse a name that a lookup finds. A lookup passes over subdirectories, and a create
that fills the end mark brings the entries behind it into the directory.

* `create_apart_iff`, `rename_apart_iff`: when the call keeps the names of the entries apart;
* `namesApart_throughout_iff`: when every call of a run does.
-/

namespace Armonios

variable {fs : Fat32Fs} {r : List Nat} {disk disk' : Nat → Sector} {d d' : Dev} {s t : Slot} {slots xs ys : List Slot}
  {name newName w : List UInt8} {b : Nat} {l l' : List Nat}

/-! ## Names of entries -/

/-- No two entries that are neither labels nor parts of long names have one name. -/
def NamesApart (disk : Nat → Sector) (slots : List Slot) : Prop :=
  ∀ s ∈ slots, ∀ t ∈ slots, Listed disk s → Listed disk t →
    entryName (disk s.lba) s.offset = entryName (disk t.lba) t.offset → s = t

/-- No entry has the name. -/
def NameFree (disk : Nat → Sector) (w : List UInt8) (slots : List Slot) : Prop :=
  ∀ u ∈ slots, Listed disk u → entryName (disk u.lba) u.offset ≠ w

/-- No subdirectory has the name. -/
def NoSubdir (disk : Nat → Sector) (w : List UInt8) (slots : List Slot) : Prop :=
  ∀ u ∈ slots, Listed disk u → isFile (entryAttr (disk u.lba) u.offset) = false → entryName (disk u.lba) u.offset ≠ w

theorem NamesApart.congr (h : ∀ s ∈ slots, SameEntry disk disk' s) : NamesApart disk' slots ↔
    NamesApart disk slots := by
  unfold NamesApart
  refine forall₂_congr fun s hs => forall₂_congr fun t ht => ?_
  rw [(h s hs).listed, (h t ht).listed, (h s hs).name, (h t ht).name]

theorem NameFree.congr (h : ∀ s ∈ slots, SameEntry disk disk' s) : NameFree disk' w slots ↔ NameFree disk w slots := by
  unfold NameFree
  refine forall₂_congr fun s hs => ?_
  rw [(h s hs).listed, (h s hs).name]

/-- One more entry among others. -/
theorem namesApart_insert (hs : s ∉ xs ++ ys) : NamesApart disk (xs ++ s :: ys) ↔
    NamesApart disk (xs ++ ys) ∧ (Listed disk s → NameFree disk (entryName (disk s.lba) s.offset) (xs ++ ys)) := by
  have hmem {u : Slot} : u ∈ xs ++ s :: ys ↔ u = s ∨ u ∈ xs ++ ys := by
    simp only [List.mem_append, List.mem_cons]
    tauto
  constructor
  · intro h
    refine ⟨fun u hu v hv => h u (hmem.mpr (.inr hu)) v (hmem.mpr (.inr hv)), fun hlisted u hu hlisted' heq => ?_⟩
    obtain rfl := h u (hmem.mpr (.inr hu)) s (hmem.mpr (.inl rfl)) hlisted' hlisted heq
    exact hs hu
  · rintro ⟨hothers, hfree⟩ u hu v hv hlu hlv heq
    rcases hmem.mp hu with rfl | hu'
    · rcases hmem.mp hv with rfl | hv'
      · rfl
      · exact absurd heq.symm (hfree hlu v hv' hlv)
    · rcases hmem.mp hv with rfl | hv'
      · exact absurd heq (hfree hlv u hu' hlu)
      · exact hothers u hu' v hv' hlu hlv heq

theorem nameFree_append : NameFree disk w (xs ++ ys) ↔ NameFree disk w xs ∧ NameFree disk w ys := List.forall_mem_append

/-- Where no file has the name, the subdirectories decide. -/
theorem nameFree_iff (hno : ∀ u ∈ slots, ¬ Hit w disk u) : NameFree disk w slots ↔ NoSubdir disk w slots := by
  constructor
  · exact fun h u hu hlisted _ => h u hu hlisted
  · intro h u hu hlisted hname
    cases hfile : isFile (entryAttr (disk u.lba) u.offset) with
    | true => exact hno u hu ⟨hlisted.1, hfile, hname⟩
    | false => exact h u hu hlisted hfile hname

/-- An entry that is no subdirectory makes no difference. -/
theorem noSubdir_insert (hs : Listed disk s → isFile (entryAttr (disk s.lba) s.offset) = true) :
    NoSubdir disk w (xs ++ s :: ys) ↔ NoSubdir disk w (xs ++ ys) := by
  unfold NoSubdir
  rw [List.forall_mem_append, List.forall_mem_cons, List.forall_mem_append]
  refine and_congr_right fun _ => and_iff_right fun hlisted hdir => ?_
  rw [hs hlisted] at hdir
  cases hdir

/-- The deleted mark is in no name. -/
theorem nameFree_of_mark (he5 : w.getD 0 0 = 0xe5) : NameFree disk w slots := by
  rintro u - hlisted rfl
  exact hlisted.1.2.1 he5

/-! ## Files that can be opened -/

/-- One entry has changed and the chains of the other files have not. -/
theorem RootFiles.of_slot (h : RootFiles fs r disk) (hv : Volume fs allLive r disk')
    (hothers : ∀ t ∈ slotsOf fs r, t ≠ s → SameEntry disk disk' t)
    (hchains : ∀ t ∈ slotsOf fs r, t ≠ s → LiveFile disk t → ∀ l, FileChain fs disk t l → FileChain fs disk' t l)
    (hstart : LiveFile disk' s → slotSize disk' s = 0 ∨ 2 ≤ slotFirst disk' s)
    (hfits : LiveFile disk' s → ∀ l, FileChain fs disk' s l → l.length * clusterBytesOf fs ≤ 0xffffffff) :
    RootFiles fs r disk' := by
  refine ⟨hv, fun t ht hlive => ?_, fun t ht hlive l hl => ?_⟩
  · by_cases hts : t = s
    · subst hts
      exact hstart hlive
    · have hsame := hothers t ht hts
      rw [hsame.size, hsame.first]
      exact h.start t ht (hsame.liveFile.mp hlive)
  · by_cases hts : t = s
    · subst hts
      exact hfits hlive l hl
    · have hlive' := (hothers t ht hts).liveFile.mp hlive
      obtain ⟨m, hm, -⟩ := h.volume.fileChain allLive_selectsFiles ht hlive'.1 hlive'.2
      rw [(hchains t ht hts hlive' m hm).unique hl]
      exact h.fits t ht hlive' m hm

theorem RootFiles.created (h : RootFiles fs r disk) (hcreated : Created fs allLive r w s b disk disk') :
    RootFiles fs r disk' := by
  have hcluster := h.volume.geometry.cluster_lt
  refine h.of_slot hcreated.volume hcreated.others (fun t ht hts hlive m hm => ?_) (fun _ => .inl hcreated.size)
    fun _ m hm => ?_
  · refine hm.keep h.volume ht hlive (hcreated.others t ht hts) fun x hx hxd => hcreated.next x hxd ?_
    rintro rfl
    rcases hm with ⟨h2, hm⟩ | ⟨-, rfl⟩
    · exact h.volume.fresh_of_free hcreated.free _ _ _
        (heads_of_file allLive_selectsFiles ht hlive.1 hlive.2 h2) hm hx
    · cases hx
  · have hnew : FileChain fs disk' s [b] := by
      refine .inl ⟨by rw [hcreated.first]; exact hcreated.inData.ge, ?_⟩
      rw [hcreated.first]
      exact .step hcreated.inData.not_eoc (.done hcreated.last)
    unfold clusterBytesOf
    rw [hnew.unique hm, List.length_singleton]
    omega

theorem RootFiles.renamed (h : RootFiles fs r disk) (hopen : Openable fs r disk name s l)
    (hren : Renamed fs allLive r w s disk disk') : RootFiles fs r disk' := by
  have hlive : LiveFile disk s := ⟨hopen.live, hopen.isFile⟩
  refine h.of_slot hren.volume hren.upd.entries (fun t ht hts hlive m hm => ?_) (fun _ => ?_) fun _ m hm => ?_
  · exact hm.keep h.volume ht hlive (hren.upd.entries t ht hts) fun x _ hxd => hren.next x hxd
  · rw [hren.size, hren.first]
    exact h.start s hopen.mem hlive
  · have hchain := hopen.chain
    have hkeep : FileChain fs disk' s l := by
      refine hchain.congr hren.first fun x hx => hren.next x ?_
      rcases hchain with ⟨h2, hc⟩ | ⟨-, rfl⟩
      · exact h.volume.family.ok_of_mem (heads_of_file allLive_selectsFiles hopen.mem hopen.live hopen.isFile h2) hc hx
      · cases hx
    rw [hkeep.unique hm]
    exact hopen.fits

/-! ## Creating -/

/-- The names of the entries in front of the end mark are apart. -/
def RootApart (fs : Fat32Fs) (r : List Nat) (disk : Nat → Sector) : Prop :=
  NamesApart disk (beforeEnd disk (slotsOf fs r))

/-- What a create may bring into the directory: no subdirectory has the new name, and if the end mark is filled, the
entries behind it have other names than that and than each other and those in front. -/
structure CreateApart (fs : Fat32Fs) (r : List Nat) (disk : Nat → Sector) (w : List UInt8) (xs : List Slot) (s : Slot)
    (ys : List Slot) : Prop where
  subdir : NoSubdir disk w (beforeEnd disk (slotsOf fs r))
  behind : EndMark disk s → NameFree disk w (beforeEnd disk ys) ∧ NamesApart disk (xs ++ beforeEnd disk ys)

/-- The directory around the entry that a create fills. -/
theorem CreateFills.beforeEnd (h : CreateFills fs r disk name w xs s ys) : Armonios.beforeEnd disk (slotsOf fs r) =
    if EndMark disk s then xs else xs ++ s :: Armonios.beforeEnd disk ys := by
  rw [h.slots, beforeEnd_append fun u hu hmark => h.used u hu (.inl hmark), beforeEnd_cons]
  split
  · exact List.append_nil xs
  · rfl

theorem create_apart_iff (h : CreateFills fs r d.disk name w xs s ys) (hroot : RootFiles fs r d.disk)
    (hapart : RootApart fs r d.disk) (hcreated : Created fs allLive r w s b d.disk d'.disk) :
    RootApart fs r d'.disk ↔ CreateApart fs r d.disk w xs s ys := by
  have hnodup := hroot.volume.nodup_slots
  have hothers := hcreated.others
  rw [h.slots] at hnodup hothers
  have hs := (List.nodup_cons.mp (List.nodup_middle.mp hnodup)).1
  have hsame : ∀ u ∈ xs ++ ys, SameEntry d.disk d'.disk u := by
    intro u hu
    refine hothers u (List.mem_append.mpr ((List.mem_append.mp hu).imp_right (List.mem_cons_of_mem s))) ?_
    rintro rfl
    exact hs hu
  have hsub : ∀ u ∈ xs ++ beforeEnd d.disk ys, u ∈ xs ++ ys := fun u hu =>
    List.mem_append.mpr ((List.mem_append.mp hu).imp_right fun hu => (mem_beforeEnd hu).1)
  have hafter : beforeEnd d'.disk (slotsOf fs r) = xs ++ s :: beforeEnd d.disk ys := by
    rw [h.slots, beforeEnd_append, beforeEnd_cons, if_neg (h.mark hcreated),
      beforeEnd_congr fun u hu => hsame u (List.mem_append_right _ hu)]
    intro u hu hmark
    exact h.used u hu (.inl ((hsame u (List.mem_append_left _ hu)).endMark.mp hmark))
  -- the entry itself: it is not there, or has a name that nobody else has
  have hnew : (Listed d'.disk s → NameFree d.disk w (xs ++ beforeEnd d.disk ys)) ↔
      NameFree d.disk w (xs ++ beforeEnd d.disk ys) := by
    refine ⟨fun hfree => ?_, fun hfree _ => hfree⟩
    by_cases he5 : w.getD 0 0 = 0xe5
    · exact nameFree_of_mark he5
    · exact hfree (h.listed hcreated he5).1
  have hnext : RootApart fs r d'.disk ↔ NamesApart d.disk (xs ++ beforeEnd d.disk ys) ∧
      NameFree d.disk w (xs ++ beforeEnd d.disk ys) := by
    unfold RootApart
    rw [hafter, namesApart_insert fun hmem => hs (hsub s hmem), hcreated.name,
      NamesApart.congr fun u hu => hsame u (hsub u hu), NameFree.congr fun u hu => hsame u (hsub u hu), hnew]
  have hhit := hroot.no_hit h.short h.new
  unfold RootApart at hapart
  have hbefore := h.beforeEnd
  rw [hnext]
  by_cases hmark : EndMark d.disk s
  · rw [if_pos hmark] at hbefore
    rw [hbefore] at hhit
    rw [nameFree_append, nameFree_iff hhit]
    constructor
    · rintro ⟨hnames, hdirs, hfree⟩
      exact ⟨by rw [hbefore]; exact hdirs, fun _ => ⟨hfree, hnames⟩⟩
    · intro hc
      have hdirs := hc.subdir
      rw [hbefore] at hdirs
      exact ⟨(hc.behind hmark).2, hdirs, (hc.behind hmark).1⟩
  · rw [if_neg hmark] at hbefore
    rw [hbefore, namesApart_insert fun hmem => hs (hsub s hmem)] at hapart
    have hdeleted : ¬ Listed d.disk s := fun hlisted => hlisted.1.2.1 (h.free.resolve_left hmark)
    have hsplit : NoSubdir d.disk w (xs ++ s :: beforeEnd d.disk ys) ↔ NoSubdir d.disk w (xs ++ beforeEnd d.disk ys) :=
      noSubdir_insert fun hlisted => absurd hlisted hdeleted
    have hfree : NameFree d.disk w (xs ++ beforeEnd d.disk ys) ↔ NoSubdir d.disk w (xs ++ beforeEnd d.disk ys) := by
      refine nameFree_iff fun u hu => hhit u ?_
      rw [hbefore]
      exact List.mem_append.mpr ((List.mem_append.mp hu).imp_right (List.mem_cons_of_mem s))
    rw [hfree, ← hsplit, ← hbefore]
    exact ⟨fun hc => ⟨hc.2, fun hend => absurd hend hmark⟩, fun hc => ⟨hapart.1, hc.subdir⟩⟩

/-- A create either fills an entry or leaves the device as it is. -/
theorem create_cases (hv : Volume fs allLive r d.disk) (hd : d.fault = none) (hsearch : SearchStays fs d.disk)
    (name : List UInt8) :
    (∃ w xs s ys b, CreateFills fs r d.disk name w xs s ys ∧ ((Call.create name).run fs d).dev.fault = none ∧
        Created fs allLive r w s b d.disk ((Call.create name).run fs d).dev.disk) ∨
      ((∀ w xs s ys, ¬ CreateFills fs r d.disk name w xs s ys) ∧ ((Call.create name).run fs d).dev = d) := by
  have hiff : (∃ file d', fat32Create fs name d = .ok file d') ↔ _ := create_returns_iff hv hd hsearch
  unfold Call.run
  simp only
  split
  · rename_i file d' hrun
    obtain ⟨w, xs, s, ys, h⟩ := hiff.mp ⟨file, d', hrun⟩
    obtain ⟨hd', b, hcreated⟩ := h.created hv hd hsearch hrun
    exact .inl ⟨w, xs, s, ys, b, h, hd', hcreated⟩
  · rename_i e d' hrun
    refine .inr ⟨fun w xs s ys h => ?_, ?_⟩
    · obtain ⟨file, d'', hok⟩ := hiff.mpr ⟨w, xs, s, ys, h⟩
      rw [hrun] at hok
      cases hok
    · exact create_refused hv hd hsearch hrun

/-! ## Renaming -/

/-- On the volume a rename gives the entry `s` the name `w`. -/
structure RenameFills (fs : Fat32Fs) (r : List Nat) (disk : Nat → Sector) (name newName w : List UInt8) (s : Slot) :
    Prop where
  writable : fs.writable = true
  short : makeShortName newName = some w
  found : ∃ l, Openable fs r disk name s l
  new : ¬ ∃ s l, Openable fs r disk newName s l

theorem rename_returns (h : RenameFills fs r d.disk name newName w s) (hv : Volume fs allLive r d.disk)
    (hd : d.fault = none) : Wp (fat32Rename fs name newName) d (fun _ _ => True) fun _ _ => False := by
  have hm := hv.geometry
  have hnone : d.armed = none := fault_none.mpr hd
  obtain ⟨l, hopen⟩ := h.found
  unfold fat32Rename
  refine wp_guard (fun hno => ?_) fun _ => ?_
  · rw [hm.mounted, h.writable] at hno
    simp at hno
  rw [h.short]
  refine wp_bind.mpr (Wp.mono (openRoot_reliable hv hd name) ?_ ?_)
  swap
  · rintro e d₁ ⟨-, -, hno⟩
    exact hno ⟨s, l, hopen⟩
  rintro file d₁ ⟨rfl, s', l', hopen', -, rfl⟩
  refine wp_bind.mpr (wp_attempt.mpr (Wp.mono (openRoot_reliable hv hd newName) ?_ ?_))
  · rintro file d₂ ⟨-, s, l, hopen, -⟩
    exact absurd ⟨s, l, hopen⟩ h.new
  rintro e d₂ ⟨rfl, rfl, -⟩
  refine wp_guard (fun hno => absurd hno (by decide)) fun _ => ?_
  refine Wp.mono (patchSlot_spec hm.mounted h.writable (hv.slot_lt hopen'.mem))
    (fun _ _ _ => trivial) fun e d₃ hfail => ?_
  have hst := hfail.2.2
  rw [hnone] at hst
  exact not_stopped hst

/-- A rename either renames an entry or leaves the device as it is. -/
theorem rename_cases (hv : Volume fs allLive r d.disk) (hd : d.fault = none) (name newName : List UInt8) :
    (∃ w s, RenameFills fs r d.disk name newName w s ∧ ((Call.rename name newName).run fs d).dev.fault = none ∧
        Renamed fs allLive r w s d.disk ((Call.rename name newName).run fs d).dev.disk) ∨
      ((∀ w s, ¬ RenameFills fs r d.disk name newName w s) ∧ ((Call.rename name newName).run fs d).dev = d) := by
  have hspec := rename_reliable hv hd name newName
  unfold Call.run outcome
  simp only
  split
  · rename_i u d' hrun
    obtain ⟨hd', w, s, l, hw, hopen, hren, hnew⟩ := hspec.of_ok hrun
    have hwritable : fs.writable = true := by
      by_contra hno
      have hrefused : Wp (fat32Rename fs name newName) d (fun _ _ => False) fun _ _ => True := by
        unfold fat32Rename
        exact wp_guard (fun _ => trivial) fun h => absurd (.inr (by simpa using hno)) h
      exact hrefused.of_ok hrun
    exact .inl ⟨w, s, ⟨hwritable, hw, ⟨l, hopen⟩, hnew⟩, hd', hren⟩
  · rename_i e d' hrun
    refine .inr ⟨fun w s h => ?_, (hspec.of_error hrun).2⟩
    exact (rename_returns h hv hd).of_error hrun

theorem rename_apart_iff (h : RenameFills fs r d.disk name newName w s) (hroot : RootFiles fs r d.disk)
    (hapart : RootApart fs r d.disk) (hren : Renamed fs allLive r w s d.disk d'.disk) :
    RootApart fs r d'.disk ↔ (Listed d.disk s → NoSubdir d.disk w (beforeEnd d.disk (slotsOf fs r))) := by
  obtain ⟨l, hopen⟩ := h.found
  obtain ⟨v, hv, hfound⟩ := hopen.found
  have hmem := findEntry_before hfound
  have hmark : ¬ EndMark d'.disk s := by
    unfold EndMark
    rw [hren.mark]
    exact (makeShortName_ok h.short).2
  have hend : ∀ u ∈ slotsOf fs r, EndMark d'.disk u ↔ EndMark d.disk u := by
    intro u hu
    by_cases hus : u = s
    · subst hus
      exact iff_of_false hmark hopen.live.1
    · exact (hren.upd.entries u hu hus).endMark
  have hbefore : beforeEnd d'.disk (slotsOf fs r) = beforeEnd d.disk (slotsOf fs r) := beforeEnd_marks hend
  have hhit := hroot.no_hit h.short h.new
  have hnodup : (beforeEnd d.disk (slotsOf fs r)).Nodup := (List.takeWhile_sublist _).nodup hroot.volume.nodup_slots
  have hsub : ∀ u ∈ beforeEnd d.disk (slotsOf fs r), u ∈ slotsOf fs r := fun u hu => (mem_beforeEnd hu).1
  unfold RootApart at hapart ⊢
  rw [hbefore]
  obtain ⟨xs, ys, hsplit⟩ := List.append_of_mem hmem
  rw [hsplit] at hapart hhit hnodup hsub ⊢
  have hs := (List.nodup_cons.mp (List.nodup_middle.mp hnodup)).1
  have hin : ∀ u ∈ xs ++ ys, u ∈ xs ++ s :: ys := fun u hu =>
    List.mem_append.mpr ((List.mem_append.mp hu).imp_right (List.mem_cons_of_mem s))
  have hsame : ∀ u ∈ xs ++ ys, SameEntry d.disk d'.disk u := by
    intro u hu
    refine hren.upd.entries u (hsub u (hin u hu)) ?_
    rintro rfl
    exact hs hu
  rw [namesApart_insert hs, hren.name, NamesApart.congr hsame, NameFree.congr hsame,
    noSubdir_insert fun _ => hopen.isFile, ← nameFree_iff fun u hu => hhit u (hin u hu)]
  rw [namesApart_insert hs] at hapart
  have hlisted : ¬ w.getD 0 0 = 0xe5 → (Listed d'.disk s ↔ Listed d.disk s) := by
    intro he5
    unfold Listed Live
    rw [hren.mark, hren.attr]
    have h0 := (makeShortName_ok h.short).2
    have hlive := hopen.live
    unfold Live at hlive
    tauto
  by_cases he5 : w.getD 0 0 = 0xe5
  · exact iff_of_true ⟨hapart.1, fun _ => nameFree_of_mark he5⟩ fun _ => nameFree_of_mark he5
  · rw [hlisted he5]
    exact and_iff_right hapart.1

/-! ## Runs -/

/-- The calls that give names. -/
inductive NameCall
  | create (name : List UInt8)
  | rename (name newName : List UInt8)

def NameCall.call : NameCall → Call
  | .create name => .create name
  | .rename name newName => .rename name newName

def nameNext (fs : Fat32Fs) (d : Dev) (c : NameCall) : Dev := (c.call.run fs d).dev

/-- The call leaves the names apart. -/
def KeepsApart (fs : Fat32Fs) (r : List Nat) (d : Dev) : NameCall → Prop
  | .create name => ∀ w xs s ys, CreateFills fs r d.disk name w xs s ys → CreateApart fs r d.disk w xs s ys
  | .rename name newName => ∀ w s, RenameFills fs r d.disk name newName w s → Listed d.disk s →
      NoSubdir d.disk w (beforeEnd d.disk (slotsOf fs r))

theorem nameNext_ok (hsearch : SearchStays fs d.disk) (hroot : RootFiles fs r d.disk) (hd : d.fault = none)
    (c : NameCall) : RootFiles fs r (nameNext fs d c).disk ∧ (nameNext fs d c).fault = none := by
  cases c with
  | create name =>
    rcases create_cases hroot.volume hd hsearch name with ⟨w, xs, s, ys, b, -, hd', hcreated⟩ | ⟨-, hsame⟩
    · exact ⟨hroot.created hcreated, hd'⟩
    · show RootFiles fs r ((Call.create name).run fs d).dev.disk ∧ ((Call.create name).run fs d).dev.fault = none
      rw [hsame]
      exact ⟨hroot, hd⟩
  | rename name newName =>
    rcases rename_cases hroot.volume hd name newName with ⟨w, s, h, hd', hren⟩ | ⟨-, hsame⟩
    · obtain ⟨l, hopen⟩ := h.found
      exact ⟨hroot.renamed hopen hren, hd'⟩
    · show RootFiles fs r ((Call.rename name newName).run fs d).dev.disk ∧
        ((Call.rename name newName).run fs d).dev.fault = none
      rw [hsame]
      exact ⟨hroot, hd⟩

/-- One call. -/
theorem nameNext_apart_iff (hsearch : SearchStays fs d.disk) (hroot : RootFiles fs r d.disk) (hd : d.fault = none)
    (hapart : RootApart fs r d.disk) (c : NameCall) :
    RootApart fs r (nameNext fs d c).disk ↔ KeepsApart fs r d c := by
  cases c with
  | create name =>
    rcases create_cases hroot.volume hd hsearch name with ⟨w, xs, s, ys, b, h, -, hcreated⟩ | ⟨hno, hsame⟩
    · refine (create_apart_iff h hroot hapart hcreated).trans ⟨fun hc w' xs' s' ys' h' => ?_, fun hc => hc w xs s ys h⟩
      obtain rfl : w = w' := Option.some.inj (h.short.symm.trans h'.short)
      obtain ⟨rfl, rfl, rfl⟩ := first_unique (h.slots.symm.trans h'.slots) h.used h'.used h.free h'.free
      exact hc
    · refine iff_of_true ?_ fun w xs s ys h => absurd h (hno w xs s ys)
      show RootApart fs r ((Call.create name).run fs d).dev.disk
      rw [hsame]
      exact hapart
  | rename name newName =>
    rcases rename_cases hroot.volume hd name newName with ⟨w, s, h, -, hren⟩ | ⟨hno, hsame⟩
    · refine (rename_apart_iff h hroot hapart hren).trans ⟨fun hc w' s' h' => ?_, fun hc => hc w s h⟩
      obtain rfl : w = w' := Option.some.inj (h.short.symm.trans h'.short)
      obtain ⟨l, hopen⟩ := h.found
      obtain ⟨l', hopen'⟩ := h'.found
      obtain ⟨rfl, -⟩ := hopen.unique hopen'
      exact hc
    · refine iff_of_true ?_ fun w s h => absurd h (hno w s)
      show RootApart fs r ((Call.rename name newName).run fs d).dev.disk
      rw [hsame]
      exact hapart

/-- On a reliable disk, in every run of creates and renames in which the search for a free cluster does not leave the
volume: the names of the root directory stay apart exactly if every call keeps them apart. -/
theorem namesApart_throughout_iff (hroot : RootFiles fs r d.disk) (hd : d.fault = none) (hapart : RootApart fs r d.disk)
    (calls : List NameCall) (hsearch : Throughout (nameNext fs) (fun d => SearchStays fs d.disk) d calls) :
    Throughout (nameNext fs) (fun d => RootApart fs r d.disk) d calls ↔
      EachStep (nameNext fs) (KeepsApart fs r) d calls :=
  throughout_iff_while (Q := fun d => RootFiles fs r d.disk ∧ d.fault = none)
    (fun _ c hq hs _ => nameNext_ok hs hq.1 hq.2 c) (fun _ c hq hs hp => nameNext_apart_iff hs hq.1 hq.2 hp c)
    ⟨hroot, hd⟩ hapart hsearch

/-! ## Samples -/

theorem sample_apart : RootApart sampleFs [2] sampleDisk := by
  intro s hs t ht hls hlt _
  have hall : ∀ s ∈ slotsOf sampleFs [2], Live sampleDisk s → s = ⟨3, 0⟩ := by decide
  rw [hall s (mem_beforeEnd hs).1 hls.1, hall t (mem_beforeEnd ht).1 hlt.1]

/-- The state after the create of `B`. -/
def sampleNext : Dev := nameNext sampleFs ⟨sampleDisk, none⟩ (.create [98])

theorem sampleNext_searchStays : SearchStays sampleFs sampleNext.disk := by
  have hfive : SearchFinds sampleFs sampleNext.disk 5 := by
    refine ⟨by decide, by decide, by decide +kernel, fun y hy hlt => ?_⟩
    obtain rfl | rfl | rfl : y = 2 ∨ y = 3 ∨ y = 4 := by omega
    all_goals decide +kernel
  exact searchStays_of_finds hfive (by decide)

theorem namesApart_throughout_iff_sample :
    Throughout (nameNext sampleFs) (fun d => RootApart sampleFs [2] d.disk) ⟨sampleDisk, none⟩ [.create [98]] ↔
      EachStep (nameNext sampleFs) (KeepsApart sampleFs [2]) ⟨sampleDisk, none⟩ [.create [98]] :=
  namesApart_throughout_iff (d := ⟨sampleDisk, none⟩) sample_rootFiles rfl sample_apart [.create [98]]
    ⟨sample_searchStays, sampleNext_searchStays⟩

/-- The root directory has a subdirectory `A` in the cluster 3. -/
def subdirDisk : Nat → Sector := fun lba =>
  if lba = 1 ∨ lba = 2 then Sector.zero.patch 8 (putLe32 clusterEoc ++ putLe32 clusterEoc)
  else if lba = 3 then
    Sector.zero.patch 0 (dirEntryBytes [65, 32, 32, 32, 32, 32, 32, 32, 32, 32, 32] attrDirectory 3 0)
  else Sector.zero

theorem subdir_live : ∀ s ∈ slotsOf sampleFs [2], Live subdirDisk s → s = ⟨3, 0⟩ := by decide

theorem subdir_rootFiles : RootFiles sampleFs [2] subdirDisk := by
  have hfile {s : Slot} (hs : s ∈ slotsOf sampleFs [2]) : ¬ LiveFile subdirDisk s := by
    rintro ⟨hlive, hfile⟩
    obtain rfl := subdir_live s hs hlive
    exact absurd hfile (by decide)
  refine ⟨?_, fun s hs hlive => absurd hlive (hfile hs), fun s hs hlive => absurd hlive (hfile hs)⟩
  have hheads {i : Option Slot} {a : Nat} (h : heads sampleFs allLive [2] subdirDisk i = some a) :
      (i = none ∧ a = 2) ∨ (i = some ⟨3, 0⟩ ∧ a = 3) := by
    rcases i with _ | s
    · exact .inl ⟨rfl, (Option.some.inj h).symm⟩
    · obtain ⟨hs, hlive, -, -, rfl⟩ := heads_some.mp h
      obtain rfl := subdir_live s hs hlive
      exact .inr ⟨rfl, by decide⟩
  refine volume_of_singles sample_mounted rfl (fun i a hi => ?_) fun i k a hi hk => ?_
  · rcases hheads hi with ⟨-, rfl⟩ | ⟨-, rfl⟩
    · exact ⟨by decide, by decide⟩
    · exact ⟨by decide, by decide⟩
  · rcases hheads hi with ⟨rfl, rfl⟩ | ⟨rfl, rfl⟩
    · exact ((hheads hk).resolve_right fun h => absurd h.2 (by decide)).1.symm
    · exact ((hheads hk).resolve_left fun h => absurd h.2 (by decide)).1.symm

/-- The create of `A` beside the subdirectory `A`. -/
theorem subdir_name_again : RootFiles sampleFs [2] subdirDisk ∧ RootApart sampleFs [2] subdirDisk ∧
    ¬ Throughout (nameNext sampleFs) (fun d => RootApart sampleFs [2] d.disk) ⟨subdirDisk, none⟩ [.create [65]] := by
  refine ⟨subdir_rootFiles, fun s hs t ht hls hlt _ => ?_, fun h => ?_⟩
  · rw [subdir_live s (mem_beforeEnd hs).1 hls.1, subdir_live t (mem_beforeEnd ht).1 hlt.1]
  · have hsame := h.2 ⟨3, 0⟩ (by decide +kernel) ⟨3, 32⟩ (by decide +kernel) (by decide +kernel) (by decide +kernel)
      (by decide +kernel)
    exact absurd hsame (by decide)

end Armonios
