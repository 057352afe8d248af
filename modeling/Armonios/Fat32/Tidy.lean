import Armonios.Fat32.DirOps
import Armonios.Fat32.Runs

/-!
# Tidy root directories

`fat32_open_root` takes the first entry with a name, stops at the end mark and refuses an entry that
does not agree with its chain. In a tidy directory this makes no difference: every file is what a
lookup of its name finds, its chain is long enough for its size and below 4 GiB. So "no such file" of
a lookup means that no live file has the name, which is what `fat32_create` and `fat32_rename` rely
on, and after a delete no file with the name is left.

Every call of the driver keeps a directory tidy: it changes one entry (`Tidy.of_slot`).
-/

namespace Armonios

variable {fs : Fat32Fs} {r : List Nat} {disk disk' : Nat → Sector} {s t : Slot} {l l' : List Nat}
  {name w : List UInt8}

/-- A live entry that is not a subdirectory. -/
def LiveFile (disk : Nat → Sector) (s : Slot) : Prop :=
  Live disk s ∧ isFile (entryAttr (disk s.lba) s.offset) = true

/-- Every file is found under its name and has a chain that fits (module doc). -/
structure Tidy (fs : Fat32Fs) (r : List Nat) (disk : Nat → Sector) : Prop where
  visible : ∀ s ∈ slotsOf fs r, LiveFile disk s →
    findEntry (entryName (disk s.lba) s.offset) disk (slotsOf fs r) = some s
  start : ∀ s ∈ slotsOf fs r, LiveFile disk s → slotSize disk s = 0 ∨ 2 ≤ slotFirst disk s
  fits : ∀ s ∈ slotsOf fs r, LiveFile disk s → ∀ l, FileChain fs disk s l →
    slotSize disk s ≤ l.length * clusterBytesOf fs ∧ l.length * clusterBytesOf fs ≤ 0xffffffff

theorem Hit.liveFile (h : Hit w disk s) : LiveFile disk s := ⟨h.1, h.2.1⟩

theorem SameEntry.liveFile (h : SameEntry disk disk' s) : LiveFile disk' s ↔ LiveFile disk s := by
  unfold LiveFile
  rw [h.live, h.attr]

theorem SameEntry.hit (h : SameEntry disk disk' s) : Hit w disk' s ↔ Hit w disk s := by
  unfold Hit
  rw [h.live, h.attr, h.name]

/-- No two files have one name. -/
theorem Tidy.unique (h : Tidy fs r disk) (hs : s ∈ slotsOf fs r) (ht : t ∈ slotsOf fs r)
    (hsw : Hit w disk s) (htw : Hit w disk t) : s = t := by
  have h1 := h.visible s hs hsw.liveFile
  have h2 := h.visible t ht htw.liveFile
  rw [hsw.2.2] at h1
  rw [htw.2.2, h1] at h2
  exact Option.some.inj h2

theorem Tidy.openable (h : Tidy fs r disk) (hs : s ∈ slotsOf fs r) (hw : makeShortName name = some w)
    (hit : Hit w disk s) (hc : FileChain fs disk s l) : Openable fs r disk name s l := by
  have hf := h.visible s hs hit.liveFile
  rw [hit.2.2] at hf
  exact ⟨⟨w, hw, hf⟩, hc, h.start s hs hit.liveFile, (h.fits s hs hit.liveFile l hc).2⟩

theorem Openable.hit (h : Openable fs r disk name s l) (hw : makeShortName name = some w) :
    Hit w disk s := by
  obtain ⟨w', hw', hf⟩ := h.found
  rw [hw] at hw'
  cases hw'
  exact (findEntry_eq_some.mp hf).1

/-- A lookup that finds nothing: there is no file with the name. -/
theorem Tidy.no_hit (h : Tidy fs r disk) (hv : Volume fs allLive r disk)
    (hw : makeShortName name = some w) (hno : ¬∃ s l, Openable fs r disk name s l) (hs : s ∈ slotsOf fs r) :
    ¬Hit w disk s := by
  intro hit
  obtain ⟨l, hc, -⟩ := hv.fileChain allLive_selectsFiles hs hit.1 hit.2.1
  exact hno ⟨s, l, h.openable hs hw hit hc⟩

/-- No end mark stands before a file. -/
theorem Tidy.before (h : Tidy fs r disk) (hs : s ∈ slotsOf fs r) (hl : LiveFile disk s) :
    ∃ xs ys, slotsOf fs r = xs ++ s :: ys ∧
      ∀ u ∈ xs, u ≠ s ∧ entryMark (disk u.lba) u.offset ≠ 0x00 := by
  obtain ⟨hit, xs, ys, he, hxs⟩ := findEntry_eq_some.mp (h.visible s hs hl)
  refine ⟨xs, ys, he, fun u hu => ⟨?_, (hxs u hu).1⟩⟩
  rintro rfl
  exact (hxs u hu).2 hit

/-- One entry has changed and the chains of the other files have not. -/
theorem Tidy.of_slot (h : Tidy fs r disk) (hv : Volume fs allLive r disk)
    (hothers : ∀ t ∈ slotsOf fs r, t ≠ s → SameEntry disk disk' t)
    (hchains : ∀ t ∈ slotsOf fs r, t ≠ s → LiveFile disk t → ∀ l, FileChain fs disk t l →
      FileChain fs disk' t l)
    (hmark : entryMark (disk' s.lba) s.offset ≠ 0x00)
    (hbefore : LiveFile disk' s → ∃ xs ys, slotsOf fs r = xs ++ s :: ys ∧
      ∀ u ∈ xs, u ≠ s ∧ entryMark (disk u.lba) u.offset ≠ 0x00)
    (hname : LiveFile disk' s → ∀ t ∈ slotsOf fs r, t ≠ s →
      ¬Hit (entryName (disk' s.lba) s.offset) disk t)
    (hstart : LiveFile disk' s → slotSize disk' s = 0 ∨ 2 ≤ slotFirst disk' s)
    (hfits : LiveFile disk' s → ∀ l, FileChain fs disk' s l →
      slotSize disk' s ≤ l.length * clusterBytesOf fs ∧ l.length * clusterBytesOf fs ≤ 0xffffffff) :
    Tidy fs r disk' := by
  refine ⟨fun t ht hl => ?_, fun t ht hl => ?_, fun t ht hl m hm => ?_⟩
  · by_cases hts : t = s
    · subst hts
      obtain ⟨xs, ys, he, hxs⟩ := hbefore hl
      refine findEntry_eq_some.mpr ⟨⟨hl.1, hl.2, rfl⟩, xs, ys, he, fun u hu => ?_⟩
      have hmem : u ∈ slotsOf fs r := by rw [he]; simp [hu]
      have hsame := hothers u hmem (hxs u hu).1
      rw [hsame.mark, hsame.hit]
      exact ⟨(hxs u hu).2, hname hl u hmem (hxs u hu).1⟩
    · have hsame := hothers t ht hts
      have hl' := hsame.liveFile.mp hl
      obtain ⟨hit, xs, ys, he, hxs⟩ := findEntry_eq_some.mp (h.visible t ht hl')
      rw [hsame.name]
      refine findEntry_eq_some.mpr ⟨hsame.hit.mpr hit, xs, ys, he, fun u hu => ?_⟩
      by_cases hus : u = s
      · subst hus
        refine ⟨hmark, fun hu' => hname hu'.liveFile t ht hts ?_⟩
        rw [hu'.2.2]
        exact hit
      · have hmem : u ∈ slotsOf fs r := by rw [he]; simp [hu]
        have hsame' := hothers u hmem hus
        rw [hsame'.mark, hsame'.hit]
        exact hxs u hu
  · by_cases hts : t = s
    · subst hts
      exact hstart hl
    · have hsame := hothers t ht hts
      rw [hsame.size, hsame.first]
      exact h.start t ht (hsame.liveFile.mp hl)
  · by_cases hts : t = s
    · subst hts
      exact hfits hl m hm
    · have hsame := hothers t ht hts
      have hl' := hsame.liveFile.mp hl
      obtain ⟨m', hm', -⟩ := hv.fileChain allLive_selectsFiles ht hl'.1 hl'.2
      rw [(hchains t ht hts hl' m' hm').unique hm, hsame.size]
      exact h.fits t ht hl' m' hm'

/-! ## The calls of the driver -/

/-- Another file's chain has none of the clusters that a create or a delete changed. -/
theorem FileChain.keep (hv : Volume fs allLive r disk) (ht : t ∈ slotsOf fs r) (hl : LiveFile disk t)
    (hc : FileChain fs disk t l) (hsame : SameEntry disk disk' t)
    (hn : ∀ x ∈ l, InData fs x → nextOf fs disk' x = nextOf fs disk x) : FileChain fs disk' t l := by
  refine hc.congr hsame.first fun x hx => hn x hx ?_
  rcases hc with ⟨h2, hc⟩ | ⟨-, rfl⟩
  · exact hv.family.ok_of_mem (heads_of_file allLive_selectsFiles ht hl.1 hl.2 h2) hc hx
  · cases hx

theorem Tidy.created {b : Nat} (h : Tidy fs r disk) (hv : Volume fs allLive r disk)
    (hw : makeShortName name = some w) (hno : ¬∃ s l, Openable fs r disk name s l)
    (hcr : Created fs allLive r w s b disk disk') : Tidy fs r disk' := by
  obtain ⟨hlen, h0⟩ := makeShortName_ok hw
  have hcb : clusterBytesOf fs ≤ 0xffffffff := by
    have := hv.geometry.cluster_lt
    unfold clusterBytesOf
    omega
  refine h.of_slot hv hcr.others (fun t ht hts hl m hm => ?_) (by rw [hcr.mark]; exact h0) (fun _ => ?_)
    (fun _ t ht _ => ?_) (fun _ => .inl hcr.size) fun _ m hm => ?_
  · refine hm.keep hv ht hl (hcr.others t ht hts) fun x hx hxd => hcr.next x hxd ?_
    rintro rfl
    rcases hm with ⟨h2, hm⟩ | ⟨-, rfl⟩
    · exact hv.fresh_of_free hcr.free _ _ _ (heads_of_file allLive_selectsFiles ht hl.1 hl.2 h2) hm hx
    · cases hx
  · obtain ⟨hfree, xs, ys, he, hxs⟩ := hcr.slot
    refine ⟨xs, ys, he, fun u hu => ⟨?_, fun h0 => hxs u hu (.inl h0)⟩⟩
    rintro rfl
    exact hxs u hu hfree
  · rw [hcr.name]
    exact h.no_hit hv hw hno ht
  · have hnew : FileChain fs disk' s [b] := by
      refine .inl ⟨by rw [hcr.first]; exact hcr.inData.ge, ?_⟩
      rw [hcr.first]
      exact .step hcr.inData.not_eoc (.done hcr.last)
    rw [hnew.unique hm, hcr.size]
    simpa using hcb

theorem Tidy.deleted (h : Tidy fs r disk) (hv : Volume fs allLive r disk)
    (ho : Openable fs r disk name s l) (hdel : Deleted fs allLive r s l disk disk') : Tidy fs r disk' := by
  have hdead : ¬LiveFile disk' s := fun hl => hl.1.2.1 hdel.mark
  refine h.of_slot hv hdel.others (fun t ht hts hl m hm => ?_) (by rw [hdel.mark]; decide)
    (fun hl => absurd hl hdead) (fun hl => absurd hl hdead) (fun hl => absurd hl hdead)
    fun hl => absurd hl hdead
  refine hm.keep hv ht hl (hdel.others t ht hts) fun x hx hxd => ?_
  rw [hdel.next x hxd, if_neg]
  intro hxl
  rcases hm with ⟨h2, hm⟩ | ⟨-, rfl⟩
  · rcases ho.chain with ⟨h2', hc⟩ | ⟨-, rfl⟩
    · exact hv.family.disj (by simpa using hts) (heads_of_file allLive_selectsFiles ht hl.1 hl.2 h2)
        (heads_of_file allLive_selectsFiles ho.mem ho.live ho.isFile h2') hm hc x hx hxl
    · cases hxl
  · cases hx

theorem Tidy.renamed {newName : List UInt8} (h : Tidy fs r disk) (hv : Volume fs allLive r disk)
    (ho : Openable fs r disk name s l) (hw : makeShortName newName = some w)
    (hno : ¬∃ s l, Openable fs r disk newName s l) (hren : Renamed fs allLive r w s disk disk') :
    Tidy fs r disk' := by
  obtain ⟨hlen, h0⟩ := makeShortName_ok hw
  have hlive : LiveFile disk s := ⟨ho.live, ho.isFile⟩
  have hothers : ∀ t ∈ slotsOf fs r, t ≠ s → SameEntry disk disk' t := hren.upd.entries
  refine h.of_slot hv hothers (fun t ht hts hl m hm => ?_) (by rw [hren.mark]; exact h0)
    (fun _ => h.before ho.mem hlive) (fun _ t ht _ => ?_) (fun _ => ?_) fun _ m hm => ?_
  · exact hm.keep hv ht hl (hothers t ht hts) fun x _ hxd => hren.next x hxd
  · rw [hren.name]
    exact h.no_hit hv hw hno ht
  · rw [hren.size, hren.first]
    exact h.start s ho.mem hlive
  · have hl := ho.chain
    have hkeep : FileChain fs disk' s l := by
      refine hl.congr hren.first fun x hx => hren.next x ?_
      rcases hl with ⟨h2, hc⟩ | ⟨-, rfl⟩
      · exact hv.family.ok_of_mem (heads_of_file allLive_selectsFiles ho.mem ho.live ho.isFile h2) hc hx
      · cases hx
    rw [hkeep.unique hm, hren.size]
    exact h.fits s ho.mem hlive l hl

theorem Tidy.touched (h : Tidy fs r disk) (hv : Volume fs allLive r disk) (hs : s ∈ slotsOf fs r)
    (hl : LiveFile disk s) (hc : FileChain fs disk s l) (ht : Touched fs allLive r s l disk l' disk')
    (hstart : slotSize disk' s = 0 ∨ 2 ≤ slotFirst disk' s)
    (hlong : slotSize disk' s ≤ l'.length * clusterBytesOf fs)
    (hfits : l'.length * clusterBytesOf fs ≤ 0xffffffff) : Tidy fs r disk' := by
  refine h.of_slot hv ht.others (fun t htm hts hlt m hm => ?_) (by rw [ht.mark]; exact hl.1.1)
    (fun _ => h.before hs hl) (fun _ t htm hts hit => ?_) (fun _ => hstart) fun _ m hm => ?_
  · exact (ht.other_file hv hs hl.1 rfl hc htm hts hlt.1 rfl hm).1
  · rw [ht.name] at hit
    exact hts (h.unique htm hs hit ⟨hl.1, hl.2, rfl⟩)
  · rw [ht.chain.unique hm]
    exact ⟨hlong, hfits⟩

end Armonios
