import Armonios.Fat32.WriteRun

/-!
# What a failed callback leaves behind

A call of the driver that changes the volume is a sequence of sector writes. `Consistent` is what
should hold of the disk and of the handle when a callback fails in the middle, `TearsAt` the places
at which it does not:

* `allocate_cluster` links the new cluster before it marks it: between the two the chain of the file
  goes to a free cluster, which the next allocation gives to someone else;
* `fat32_delete` frees the chain before it takes the directory entry away;
* the first write to an empty file puts the new cluster into the handle before it is in the entry.

`fat32_create` has the order right: it marks the cluster, then writes the entry.

* `TakesOwn`: the call takes no cluster outside the data area;
* `consistent_iff_not_tearsAt`: of such a call these places are all.
-/

namespace Armonios

variable {fs : Fat32Fs} {r : List Nat} {d : Dev} {disk : Nat → Sector} {site : Site} {n : Nat}

/-- `x` is on the walk of the driver along the chain of the entry `s`. -/
def OnFile (fs : Fat32Fs) (disk : Nat → Sector) (s : Slot) (x : Nat) : Prop :=
  Reaches (nextOf fs disk) WalkEnd (slotFirst disk s) x

/-- No two live entries have a common cluster. -/
def FilesApart (fs : Fat32Fs) (r : List Nat) (disk : Nat → Sector) : Prop :=
  ∀ s ∈ slotsOf fs r, ∀ t ∈ slotsOf fs r, Live disk s → Live disk t → s ≠ t →
    ∀ x, OnFile fs disk s x → ¬OnFile fs disk t x

/-- What a call leaves behind: no live entry goes to a free cluster, no two live entries share a
cluster, now or after more calls, and the handle agrees with its entry. -/
structure Consistent (fs : Fat32Fs) (r : List Nat) (out : Outcome) : Prop where
  whole : ∀ s ∈ slotsOf fs r, Live out.dev.disk s → ∀ x, OnFile fs out.dev.disk s x →
    nextOf fs out.dev.disk x ≠ 0
  apart : ∀ st, Run (callsStep fs r) ⟨out.dev, ∅⟩ st → FilesApart fs r st.dev.disk
  handle : ∀ file, out.file = some file → file.firstCluster = slotFirst out.dev.disk file.slot ∧
    file.size = slotSize out.dev.disk file.slot

/-- The calls that change the volume in more than one step. -/
def Call.multiStep : Call → Bool
  | .create _ => true
  | .write _ _ _ => true
  | .delete _ => true
  | _ => false

/-- The callbacks of a call whose failure leaves an inconsistent state. -/
def TearsAt (fs : Fat32Fs) (r : List Nat) (disk : Nat → Sector) (site : Site) : Call → Prop
  | .write _ _ _ => site ∈ tornLinkSites ∨ site ∈ slotSites .head
  | .delete name => site ∈ freeLaterSites ∨
      site ∈ slotSites .unlink ∧ ∃ s l, Openable fs r disk name s l ∧ 2 ≤ slotFirst disk s
  | _ => False

/-- Wherever the call comes to take a cluster, the search has found one of the data area. -/
def TakesOwn (fs : Fat32Fs) (d : Dev) : Call → Prop
  | .create name => ∀ s b, CreateTakes fs name d s b → InData fs b
  | .write file off buf => WriteAccepted fs file off → buf ≠ [] →
      ∀ b, WriteTakes fs off buf ⟨file, d⟩ b → InData fs b
  | _ => True

/-- A write goes through a handle that agrees with its entry. -/
def CurrentHandle (fs : Fat32Fs) (r : List Nat) (d : Dev) : Call → Prop
  | .write file _ _ => Current fs allLive r d.disk file
  | _ => True

/-! ## Well-formed volumes are consistent -/

theorem Volume.chain_of_onFile (hv : Volume fs allLive r disk) {s : Slot} {x : Nat}
    (hs : s ∈ slotsOf fs r) (hl : Live disk s) (hx : OnFile fs disk s x) :
    ∃ l, heads fs allLive r disk (some s) = some (slotFirst disk s) ∧
      Chain (nextOf fs disk) Eoc (slotFirst disk s) l ∧ x ∈ l := by
  have h2 : 2 ≤ slotFirst disk s := by
    by_contra h
    have hend : WalkEnd (slotFirst disk s) := .inl (by omega)
    cases hx with
    | here hn => exact hn hend
    | later hn => exact hn hend
  have hh : heads fs allLive r disk (some s) = some (slotFirst disk s) :=
    heads_some.mpr ⟨hs, hl, rfl, h2, rfl⟩
  obtain ⟨l, hc, -⟩ := hv.family.chain hh
  exact ⟨l, hh, hc, hc.mem_of_reaches (fun _ h => .inr h) hx⟩

theorem Volume.whole (hv : Volume fs allLive r disk) {s : Slot} {x : Nat} (hs : s ∈ slotsOf fs r)
    (hl : Live disk s) (hx : OnFile fs disk s x) : nextOf fs disk x ≠ 0 := by
  obtain ⟨l, hh, hc, hm⟩ := hv.chain_of_onFile hs hl hx
  intro h0
  exact hv.fresh_of_free h0 _ _ _ hh hc hm

theorem Volume.filesApart (hv : Volume fs allLive r disk) : FilesApart fs r disk := by
  intro s hs t ht hls hlt hst x hx hx'
  obtain ⟨l, hh, hc, hm⟩ := hv.chain_of_onFile hs hls hx
  obtain ⟨l', hh', hc', hm'⟩ := hv.chain_of_onFile ht hlt hx'
  exact hv.family.disj (by simpa using hst) hh hh' hc hc' x hm hm'

/-- The part of `callsRun_wellFormed` that does not need the FAT copies to be the same. -/
theorem callsRun_volume {st st' : Calls} (hv : Volume fs allLive r st.dev.disk)
    (hd : st.dev.fault = none) (hrun : Run (callsStep fs r) st st') :
    Volume fs allLive r st'.dev.disk := by
  refine (Run.invariant (fun st => Volume fs allLive r st.dev.disk ∧ st.dev.fault = none) ?_ ⟨hv, hd⟩
    hrun).1
  intro st st' h hstep
  obtain ⟨c, hadm, hdev, -⟩ := hstep
  have hk := callKeeps h.1 h.2 hadm
  rw [hdev]
  exact ⟨hk.volume, hk.reliable⟩

theorem consistent_of_volume {out : Outcome} (hv : Volume fs allLive r out.dev.disk)
    (hd : out.dev.fault = none)
    (hf : ∀ file, out.file = some file → file.firstCluster = slotFirst out.dev.disk file.slot ∧
      file.size = slotSize out.dev.disk file.slot) : Consistent fs r out :=
  ⟨fun _ hs hl _ hx => hv.whole hs hl hx, fun _ hrun => (callsRun_volume hv hd hrun).filesApart, hf⟩

theorem not_consistent_of_torn {out : Outcome} {s : Slot} (h : TornFile fs r out.dev.disk s) :
    ¬Consistent fs r out := by
  intro hc
  obtain ⟨hs, hl, x, hx, h0⟩ := h
  exact hc.whole s hs hl x hx h0

/-! ## The sites -/

theorem wholeWriteSites_not_torn (h : site ∈ wholeWriteSites) :
    ¬(site ∈ tornLinkSites ∨ site ∈ slotSites .head) := by
  cases site <;>
    simp only [wholeWriteSites, writeSites, linkSites, headSites, tornLinkSites, slotSites, firstCopy,
      laterCopies, Set.mem_union, Set.mem_insert_iff, Set.mem_singleton_iff, Set.mem_ofPred_eq] at h ⊢ <;>
    grind

theorem deleteEarlySites_not_late (h : site ∈ deleteEarlySites) : site ∉ deleteLateSites := by
  simp only [deleteEarlySites, deleteLateSites, openSites, freeFirstSites, freeLaterSites, slotSites,
    firstCopy, laterCopies, Set.mem_union, Set.mem_insert_iff, Set.mem_singleton_iff,
    Set.mem_ofPred_eq] at h ⊢
  grind

theorem unlink_not_freeLater (h : site ∈ slotSites .unlink) : site ∉ freeLaterSites := by
  simp only [freeLaterSites, slotSites, firstCopy, laterCopies, Set.mem_union, Set.mem_insert_iff,
    Set.mem_singleton_iff, Set.mem_ofPred_eq] at h ⊢
  grind

/-! ## The three calls -/

/-- A call that failed at `site`: it returned an error and the fault is used up. -/
structure FailedAt (fs : Fat32Fs) (d : Dev) (site : Site) (c : Call) : Prop where
  planned : d.armed = some site
  error : (c.run fs d).ok = false
  used : (c.run fs d).dev.fault = none

theorem FailedAt.writable {c : Call} (h : FailedAt fs d site c) (hc : c.multiStep = true) :
    fs.writable = true := by
  by_contra hw
  have hro := (call_readOnly (d := d) (c := c) (by simpa using hw) fun name e => by
    rw [e] at hc
    cases hc).1
  have h1 := h.used
  have h2 := h.planned
  rw [hro] at h1
  simp [Dev.armed, h1] at h2

theorem create_consistent {name : List UInt8} (hv : Volume fs allLive r d.disk)
    (hown : TakesOwn fs d (.create name)) (h : FailedAt fs d site (.create name)) :
    Consistent fs r ((Call.create name).run fs d) := by
  have hspec := create_spec (h.writable rfl) hv allLive_selectsFiles hown
  have herr := h.error
  have hused := h.used
  unfold Call.run at herr hused ⊢
  simp only at herr hused ⊢
  split at herr
  · cases herr
  · rename_i e d' hres
    rw [hres] at hused
    obtain ⟨-, ⟨hdisk, -⟩ | ⟨hv', -⟩⟩ := hspec.of_error hres
    · exact consistent_of_volume (by rw [hdisk]; exact hv) hused (by simp)
    · exact consistent_of_volume hv' hused (by simp)

theorem write_consistent_iff {file : Fat32File} {off : Nat} {buf : List UInt8}
    (hv : Volume fs allLive r d.disk) (hcur : Current fs allLive r d.disk file)
    (hown : TakesOwn fs d (.write file off buf)) (h : FailedAt fs d site (.write file off buf)) :
    Consistent fs r ((Call.write file off buf).run fs d) ↔
      ¬(site ∈ tornLinkSites ∨ site ∈ slotSites .head) := by
  obtain ⟨l, hc⟩ := hcur.exists_chain hv
  have hspec := write_broke (t := ⟨file, d⟩) (h.writable rfl) hv hcur hc hown
  have herr := h.error
  have hused := h.used
  unfold Call.run at herr hused ⊢
  simp only at herr hused ⊢
  split at herr
  · cases herr
  rename_i e t hres
  rw [hres] at hused
  obtain ⟨hslot, hfail⟩ := hspec.of_error hres
  simp only [h.planned] at hfail
  rcases hfail with ⟨hv', hcur', hst⟩ | ⟨htorn, hst⟩ | ⟨hne, hst⟩
  · refine iff_of_true (consistent_of_volume hv' hused ?_) (wholeWriteSites_not_torn (hst.site hused))
    intro f hf
    cases hf
    exact ⟨hcur'.first, hcur'.size⟩
  · refine iff_of_false (not_consistent_of_torn htorn) ?_
    exact not_not.mpr (.inl (hst.site hused))
  · refine iff_of_false (fun hcon => hne ?_) (not_not.mpr (.inr (hst.site hused)))
    have := (hcon.handle t.file rfl).1
    rw [hslot] at this
    exact this

theorem delete_consistent_iff {name : List UInt8} (hv : Volume fs allLive r d.disk)
    (h : FailedAt fs d site (.delete name)) :
    Consistent fs r ((Call.delete name).run fs d) ↔ ¬TearsAt fs r d.disk site (.delete name) := by
  have hspec := delete_spec (h.writable rfl) hv allLive_selectsFiles name
  have herr := h.error
  have hused := h.used
  unfold Call.run outcome at herr hused ⊢
  simp only at herr hused ⊢
  split at herr
  · cases herr
  rename_i e d' hres
  rw [hres] at hused
  obtain ⟨-, hfail⟩ := hspec.of_error hres
  rw [h.planned] at hfail
  rcases hfail with ⟨hdisk, hst⟩ | ⟨s, l, ho, h2, hdisk, hst⟩ | ⟨s, l, ho, h2, htorn, hst⟩
  · refine iff_of_true (consistent_of_volume (by rw [hdisk]; exact hv) hused (by simp)) ?_
    have hearly := deleteEarlySites_not_late (hst.site hused)
    intro ht
    rcases ht with ht | ⟨ht, -⟩
    · exact hearly (.inl ht)
    · exact hearly (.inr ht)
  · -- an empty file has no chain to free
    refine iff_of_true (consistent_of_volume (by rw [hdisk]; exact hv) hused (by simp)) ?_
    intro ht
    rcases ht with ht | ⟨-, s', l', ho', h2'⟩
    · exact unlink_not_freeLater (hst.site hused) ht
    · obtain ⟨rfl, -⟩ := ho.unique ho'
      omega
  · refine iff_of_false (not_consistent_of_torn htorn) (not_not.mpr ?_)
    rcases hst.site hused with hs | hs
    · exact .inl hs
    · exact .inr ⟨hs, s, l, ho, h2⟩

/-- A create, write or delete on a volume that takes no cluster outside the data area and returned an error because
the callback at `site` failed: it leaves a consistent state exactly if `site` is not one of the places of `TearsAt`. -/
theorem consistent_iff_not_tearsAt {c : Call} (hv : Volume fs allLive r d.disk)
    (hc : c.multiStep = true) (hcur : CurrentHandle fs r d c) (hown : TakesOwn fs d c) (h : FailedAt fs d site c) :
    Consistent fs r (c.run fs d) ↔ ¬TearsAt fs r d.disk site c := by
  cases c with
  | create name => exact iff_of_true (create_consistent hv hown h) id
  | write file off buf => exact write_consistent_iff hv hcur hown h
  | delete name => exact delete_consistent_iff hv h
  | openRoot name => cases hc
  | rename oldName newName => cases hc

/-- The small volume with a planned fault. -/
def sampleFault (site : Site) : Dev := ⟨sampleDisk, some (site, none, 0)⟩

/-- A fault in the search of the directory: the delete changes nothing. -/
theorem consistent_iff_not_tearsAt_sample : FailedAt sampleFs (sampleFault .dirScan) .dirScan (.delete [97]) ∧
    Consistent sampleFs [2] ((Call.delete [97]).run sampleFs (sampleFault .dirScan)) := by
  have h : FailedAt sampleFs (sampleFault .dirScan) .dirScan (.delete [97]) :=
    ⟨rfl, by decide +kernel, by decide +kernel⟩
  refine ⟨h, (consistent_iff_not_tearsAt (c := .delete [97]) (d := sampleFault .dirScan)
    (sample_volume allLive) rfl trivial trivial h).mpr ?_⟩
  intro ht
  have hearly : Site.dirScan ∈ deleteEarlySites := .inl (.inl rfl)
  rcases ht with ht | ⟨ht, -⟩
  · exact deleteEarlySites_not_late hearly (.inl ht)
  · exact deleteEarlySites_not_late hearly (.inr ht)

/-- A fault in the last write of a delete: the entry of the file is live and its cluster is free. -/
theorem delete_leaves_torn_file : WellFormed sampleFs [2] sampleDisk ∧
    FailedAt sampleFs (sampleFault (.slotWrite .unlink)) (.slotWrite .unlink) (.delete [97]) ∧
    ¬Consistent sampleFs [2] ((Call.delete [97]).run sampleFs (sampleFault (.slotWrite .unlink))) := by
  have h : FailedAt sampleFs (sampleFault (.slotWrite .unlink)) (.slotWrite .unlink) (.delete [97]) :=
    ⟨rfl, by decide +kernel, by decide +kernel⟩
  refine ⟨⟨sample_volume allLive, sample_sameCopies⟩, h, ?_⟩
  rw [delete_consistent_iff (sample_volume allLive) h]
  exact not_not.mpr (.inr ⟨.inr rfl, _, _, sample_openable, by decide⟩)

end Armonios
