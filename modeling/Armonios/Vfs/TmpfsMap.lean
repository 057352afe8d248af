import Armonios.Vfs.TmpfsSlots
import Armonios.Lib.Run

/-!
# tmpfs as a map

What tmpfs is for: names that have bytes (`FileMap`). A write starts anywhere up to the end of the storage, and what
is between the end of the file and the write is zero.

* `tmpfsRun_refines`: any calls on the slots give what they give on the map.

The bytes behind the end of a file are zero (`FilesHold.zeros`), so that no gap shows an earlier file.
-/

namespace Armonios

/-- The bytes of each name. -/
abbrev FileMap := Path → Option (List UInt8)

/-- How many files there are. -/
noncomputable def FileMap.count (m : FileMap) : Nat := {name | m name ≠ none}.ncard

/-- The bytes after a write at `offset`, with zeros in the gap. -/
def writeBytes (offset : Nat) (stored bytes : List UInt8) : List UInt8 :=
  bytes.take offset ++ List.replicate (offset - bytes.length) 0 ++ stored ++ bytes.drop (offset + stored.length)

/-- A call on the map. -/
noncomputable def TmpfsCall.onMap (m : FileMap) : TmpfsCall → TmpfsResult × FileMap
  | create name =>
    if cString name = [] ∨ tmpfsMaxName ≤ (cString name).length ∨ m (cString name) ≠ none ∨
        tmpfsMaxFiles ≤ m.count then (.failed, m)
    else (.done, Function.update m (cString name) (some []))
  | delete name =>
    match m (cString name) with
    | none => (.failed, m)
    | some _ => (.done, Function.update m (cString name) none)
  | write name offset buffer =>
    match m (cString name) with
    | none => (.failed, m)
    | some bytes =>
      if tmpfsMaxFileSize < offset then (.failed, m)
      else (.count (min buffer.length (tmpfsMaxFileSize - offset)), Function.update m (cString name)
        (some (writeBytes offset (buffer.take (tmpfsMaxFileSize - offset)) bytes)))
  | read name offset capacity =>
    match m (cString name) with
    | none => (.failed, m)
    | some bytes => (if bytes.length < offset then .failed else .bytes ((bytes.drop offset).take capacity), m)
  | stat name =>
    match m (cString name) with
    | none => (.failed, m)
    | some bytes => (.size bytes.length, m)

theorem onMap_create (name : List UInt8) (m : FileMap) : (TmpfsCall.create name).onMap m =
    if cString name = [] ∨ tmpfsMaxName ≤ (cString name).length ∨ m (cString name) ≠ none ∨
        tmpfsMaxFiles ≤ m.count then (.failed, m)
    else (.done, Function.update m (cString name) (some [])) := rfl

/-- The files are those of the map. -/
structure FilesHold (t : Tmpfs) (m : FileMap) : Prop where
  named : ∀ i file, t.fileAt i = some file → file.name ≠ []
  distinct : ∀ i j file other, t.fileAt i = some file → t.fileAt j = some other → file.name = other.name → i = j
  zeros : ∀ i file, t.fileAt i = some file → ∀ k byte, file.size ≤ k → file.data[k]? = some byte → byte = 0
  shows : ∀ name bytes, m name = some bytes ↔
    ∃ i file, t.fileAt i = some file ∧ file.name = name ∧ file.contents = bytes

section Files

variable {t : Tmpfs} {m : FileMap} {file : TmpfsFile} {name : Path} {i j : Nat}

theorem fileAt_lt (h : t.fileAt i = some file) : i < tmpfsMaxFiles := by
  by_contra hi
  simp [Tmpfs.fileAt, hi] at h

theorem fileAt_putFile (hi : i < tmpfsMaxFiles) (file : Option TmpfsFile) (j : Nat) :
    (t.putFile i file).fileAt j = if j = i then file else t.fileAt j := by
  unfold Tmpfs.fileAt Tmpfs.putFile
  simp only [Vector.getElem?_setIfInBounds]
  by_cases hj : i = j
  · subst hj
    simp [hi]
  · simp [hj, Ne.symm hj]

/-- The map has what the slot of the name has. -/
theorem FilesHold.at (h : FilesHold t m) (hat : TmpfsAt t name i file) : m name = some file.contents := by
  obtain ⟨-, -, other, hother, hname⟩ := tmpfsFindFile_some hat.found
  rw [hat.file] at hother
  cases hother
  exact (h.shows name file.contents).mpr ⟨i, file, hat.file, hname, rfl⟩

theorem FilesHold.missing (h : FilesHold t m) (hfind : tmpfsFindFile t name = none) : m name = none := by
  cases hm : m name with
  | none => rfl
  | some bytes =>
    obtain ⟨i, file, hfile, hname, -⟩ := (h.shows name bytes).mp hm
    exact absurd hname (tmpfsFindFile_none hfind (hname ▸ h.named i file hfile) i hfile)

/-- Another file, or none, in the slot of a name. -/
theorem FilesHold.put (h : FilesHold t m) (hi : i < tmpfsMaxFiles) (file : Option TmpfsFile)
    (hnamed : name ≠ []) (hfile : ∀ f ∈ file, f.name = name ∧ ∀ k byte, f.size ≤ k → f.data[k]? = some byte → byte = 0)
    (hold : ∀ j f, t.fileAt j = some f → (j = i ↔ f.name = name)) :
    FilesHold (t.putFile i file) (Function.update m name (file.map TmpfsFile.contents)) := by
  have hput := fun j => fileAt_putFile (t := t) hi file j
  -- a file of the new state is the new one, or an old one with another name
  have hcases : ∀ j f, (t.putFile i file).fileAt j = some f →
      (j = i ∧ file = some f) ∨ (j ≠ i ∧ t.fileAt j = some f ∧ f.name ≠ name) := by
    intro j f hf
    rw [hput] at hf
    split at hf
    · exact .inl ⟨‹_›, hf⟩
    · exact .inr ⟨‹_›, hf, fun hn => absurd ((hold j f hf).mpr hn) ‹_›⟩
  refine ⟨fun j f hf => ?_, fun j k f g hf hg heq => ?_, fun j f hf => ?_, fun n bytes => ?_⟩
  · rcases hcases j f hf with ⟨-, rfl⟩ | ⟨-, hf, -⟩
    · rw [(hfile f rfl).1]
      exact hnamed
    · exact h.named j f hf
  · rcases hcases j f hf with ⟨rfl, hfj⟩ | ⟨hj, hfj, hfn⟩ <;> rcases hcases k g hg with ⟨rfl, hgk⟩ | ⟨hk, hgk, hgn⟩
    · rfl
    · exact absurd (heq.symm.trans (hfile f hfj).1) hgn
    · exact absurd (heq.trans (hfile g hgk).1) hfn
    · exact h.distinct j k f g hfj hgk heq
  · rcases hcases j f hf with ⟨-, hfj⟩ | ⟨-, hfj, -⟩
    · exact (hfile f hfj).2
    · exact h.zeros j f hfj
  · by_cases hn : n = name
    · subst hn
      rw [Function.update_self]
      constructor
      · intro hb
        obtain ⟨f, hf, rfl⟩ := Option.map_eq_some_iff.mp hb
        exact ⟨i, f, by rw [hput, if_pos rfl, hf], (hfile f hf).1, rfl⟩
      · rintro ⟨j, f, hf, hfn, rfl⟩
        rcases hcases j f hf with ⟨-, hfj⟩ | ⟨-, -, hne⟩
        · rw [hfj, Option.map_some]
        · exact absurd hfn hne
    · rw [Function.update_of_ne hn, h.shows]
      constructor
      · rintro ⟨j, f, hf, hfn, hb⟩
        have hj : j ≠ i := fun hj => hn (hfn.symm.trans ((hold j f hf).mp hj))
        exact ⟨j, f, by rw [hput, if_neg hj, hf], hfn, hb⟩
      · rintro ⟨j, f, hf, hfn, hb⟩
        rcases hcases j f hf with ⟨-, hfj⟩ | ⟨-, hfj, -⟩
        · exact absurd (hfn.symm.trans (hfile f hfj).1) hn
        · exact ⟨j, f, hfj, hfn, hb⟩

/-- All slots are in use exactly if there are eight files. -/
theorem FilesHold.full (h : FilesHold t m) : t.files.toList.findIdx? Option.isNone = none ↔
    tmpfsMaxFiles ≤ m.count := by
  classical
  let used : Finset (Fin tmpfsMaxFiles) := Finset.univ.filter fun i => (t.fileAt i).isSome = true
  let nameOf : Fin tmpfsMaxFiles → Path := fun i => ((t.fileAt i).map TmpfsFile.name).getD []
  have hfile : ∀ i ∈ used, ∃ file, t.fileAt i = some file ∧ nameOf i = file.name := by
    intro i hi
    obtain ⟨file, hfile⟩ := Option.isSome_iff_exists.mp (by simpa [used] using hi)
    exact ⟨file, hfile, by simp [nameOf, hfile]⟩
  have hdomain : {name | m name ≠ none} = nameOf '' used := by
    ext name
    constructor
    · intro hm
      obtain ⟨bytes, hb⟩ := Option.ne_none_iff_exists'.mp hm
      obtain ⟨i, file, hf, hn, -⟩ := (h.shows name bytes).mp hb
      exact ⟨⟨i, fileAt_lt hf⟩, by simp [used, hf], by simp [nameOf, hf, hn]⟩
    · rintro ⟨i, hi, rfl⟩
      obtain ⟨file, hf, hn⟩ := hfile i hi
      have hb := (h.shows (nameOf i) file.contents).mpr ⟨i, file, hf, hn.symm, rfl⟩
      simp [hb]
  have hinj : Set.InjOn nameOf used := by
    intro i hi j hj heq
    obtain ⟨file, hf, hn⟩ := hfile i hi
    obtain ⟨other, ho, hn'⟩ := hfile j hj
    exact Fin.ext (h.distinct i j file other hf ho (hn.symm.trans (heq.trans hn')))
  have hcount : m.count = used.card := by
    rw [FileMap.count, hdomain, hinj.ncard_image, Set.ncard_coe_finset]
  rw [hcount]
  have hall : tmpfsMaxFiles ≤ used.card ↔ used = Finset.univ := by
    rw [← Finset.card_eq_iff_eq_univ, Fintype.card_fin]
    have : used.card ≤ tmpfsMaxFiles := by simpa using Finset.card_le_univ used
    omega
  have huniv : used = Finset.univ ↔ ∀ i : Fin tmpfsMaxFiles, (t.fileAt i).isSome = true := by
    simp [used, Finset.filter_eq_self]
  rw [hall, huniv, List.findIdx?_eq_none_iff]
  constructor
  · intro hnone i
    have hmem : t.files[i.val] ∈ t.files.toList := by
      rw [Vector.mem_toList_iff]
      exact Vector.getElem_mem _
    have hsome := hnone _ hmem
    simpa [Tmpfs.fileAt, Option.isSome_iff_ne_none] using hsome
  · intro hused file hmem
    obtain ⟨i, hi, rfl⟩ := List.getElem_of_mem hmem
    have hi' : i < tmpfsMaxFiles := by simpa using hi
    have hsome := hused ⟨i, hi'⟩
    simpa [Tmpfs.fileAt, hi', Option.isSome_iff_ne_none] using hsome

/-- A new file. -/
theorem newFile_zeros (name : Path) (k : Nat) (byte : UInt8) (hbyte : (TmpfsFile.new name).data[k]? = some byte) :
    byte = 0 := by
  simp only [TmpfsFile.new, List.getElem?_replicate] at hbyte
  split at hbyte
  · exact (Option.some.inj hbyte).symm
  · cases hbyte

/-- A write leaves zeros behind the end. -/
theorem store_zeros {offset : Nat} {bytes : List UInt8} (h : offset + bytes.length ≤ tmpfsMaxFileSize)
    (hz : ∀ k byte, file.size ≤ k → file.data[k]? = some byte → byte = 0) (k : Nat) (byte : UInt8)
    (hk : (file.store offset bytes h).size ≤ k) (hbyte : (file.store offset bytes h).data[k]? = some byte) :
      byte = 0 := by
  simp only [TmpfsFile.store] at hk hbyte
  have hend : offset + bytes.length ≤ k ∧ file.size ≤ k := by
    split at hk <;> omega
  rw [getElem?_overlay, if_neg (by omega)] at hbyte
  exact hz k byte hend.2 hbyte

/-- What a file shows after a write that may start behind its end. -/
theorem contents_write {offset : Nat} {bytes : List UInt8} (h : offset + bytes.length ≤ tmpfsMaxFileSize)
    (hz : ∀ k byte, file.size ≤ k → file.data[k]? = some byte → byte = 0) :
    (file.store offset bytes h).contents = writeBytes offset bytes file.contents := by
  have hlen := file.length_data
  have hle := file.size_le
  have hcontents := file.length_contents
  unfold writeBytes
  rw [hcontents]
  by_cases hgap : offset ≤ file.size
  · rw [TmpfsFile.contents_store file h hgap]
    have hzero : offset - file.size = 0 := by omega
    simp [hzero]
  · have hsize : (file.store offset bytes h).size = offset + bytes.length := by
      simp only [TmpfsFile.store]
      rw [if_pos (by omega)]
    have hdata : (file.store offset bytes h).data = overlay offset bytes file.data := rfl
    have hdrop : file.contents.drop (offset + bytes.length) = [] := List.drop_of_length_le (by omega)
    have htake : file.contents.take offset = file.contents := List.take_of_length_le (by omega)
    rw [hdrop, htake, List.append_nil]
    unfold TmpfsFile.contents
    rw [hsize, hdata, take_overlay _ _ _ (by omega)]
    congr 1
    -- the storage between the end of the file and the write is zero
    refine List.ext_getElem? fun k => ?_
    by_cases hk : k < file.size
    · rw [List.getElem?_append_left (by simp; omega), List.getElem?_take_of_lt (by omega),
        List.getElem?_take_of_lt hk]
    · rw [List.getElem?_append_right (by simp; omega), List.getElem?_replicate]
      simp only [List.length_take]
      by_cases hk' : k < offset
      · rw [List.getElem?_take_of_lt hk', if_pos (by omega), List.getElem?_eq_getElem (by omega)]
        congr 1
        exact hz k _ (by omega) (List.getElem?_eq_getElem (by omega))
      · rw [List.getElem?_eq_none (by simp; omega), if_neg (by omega)]

/-! ## Calls -/

theorem FilesHold.update_eq (h : FilesHold t m) (hat : TmpfsAt t name i file) (other : Option TmpfsFile)
    (hother : ∀ f ∈ other, f.name = file.name ∧ ∀ k byte, f.size ≤ k → f.data[k]? = some byte → byte = 0) :
    FilesHold (t.putFile i other) (Function.update m name (other.map TmpfsFile.contents)) := by
  obtain ⟨hi, hne, found, hfound, hname⟩ := tmpfsFindFile_some hat.found
  rw [hat.file] at hfound
  cases hfound
  refine h.put hi other hne (fun f hf => ?_) (fun j f hf => ?_)
  · rw [← hname]
    exact hother f hf
  · constructor
    · rintro rfl
      rw [hat.file] at hf
      cases hf
      exact hname
    · intro hn
      exact h.distinct j i f file hf hat.file (hn.trans hname.symm)

theorem FilesHold.create (h : FilesHold t m) (name : List UInt8) :
    ((TmpfsCall.create name).onFiles t).1 = ((TmpfsCall.create name).onMap m).1 ∧
      FilesHold ((TmpfsCall.create name).onFiles t).2 ((TmpfsCall.create name).onMap m).2 := by
  rw [onFiles_create, onMap_create]
  by_cases hname : cString name = []
  · rw [if_pos (.inl hname), if_pos (.inl hname)]
    exact ⟨rfl, h⟩
  cases hfind : tmpfsFindFile t (cString name) with
  | some i =>
    obtain ⟨-, -, file, hfile, hn⟩ := tmpfsFindFile_some hfind
    have hm := h.at ⟨hfind, hfile⟩
    rw [if_pos (.inr rfl), if_pos (.inr (.inr (.inl (by simp [hm]))))]
    exact ⟨rfl, h⟩
  | none =>
    have hm := h.missing hfind
    rw [if_neg (by simp [hname])]
    cases hfree : t.files.toList.findIdx? Option.isNone with
    | none =>
      rw [if_pos (.inr (.inr (.inr (h.full.mp hfree))))]
      exact ⟨rfl, h⟩
    | some i =>
      have hroom : ¬ tmpfsMaxFiles ≤ m.count := fun hfull => by
        rw [h.full.mpr hfull] at hfree
        cases hfree
      by_cases hlong : tmpfsMaxName ≤ (cString name).length
      · simp only [hlong, true_or, or_true, if_true]
        exact ⟨trivial, h⟩
      · rw [if_neg (by simp [hname, hlong, hm, hroom])]
        simp only [hlong, if_false]
        obtain ⟨hlt, hnone, -⟩ := List.findIdx?_eq_some_iff_getElem.mp hfree
        have hi : i < tmpfsMaxFiles := by simpa using hlt
        have hempty : t.fileAt i = none := by
          simp only [Vector.getElem_toList, Option.isNone_iff_eq_none] at hnone
          simp [Tmpfs.fileAt, hi, hnone]
        have hnew := h.put hi (some (.new (cString name))) hname
          (by
            rintro f hf
            cases hf
            exact ⟨rfl, fun k byte _ => newFile_zeros _ k byte⟩)
          (by
            intro j f hf
            constructor
            · rintro rfl
              rw [hempty] at hf
              cases hf
            · intro hn
              exact absurd hn (tmpfsFindFile_none hfind hname j hf))
        exact ⟨trivial, by simpa [TmpfsFile.new, TmpfsFile.contents] using hnew⟩

/-- A call on the files gives what it gives on the map. -/
theorem FilesHold.call (h : FilesHold t m) (c : TmpfsCall) :
    (c.onFiles t).1 = (c.onMap m).1 ∧ FilesHold (c.onFiles t).2 (c.onMap m).2 := by
  by_cases hc : ∃ name, c = .create name
  · obtain ⟨name, rfl⟩ := hc
    exact h.create name
  cases hfind : tmpfsFindFile t (cString c.name) with
  | none =>
    have hm := h.missing hfind
    rw [onFiles_none hfind fun name heq => hc ⟨name, heq⟩]
    cases c with
    | create name => exact absurd ⟨name, rfl⟩ hc
    | delete name | write name | read name | stat name =>
      simp only [TmpfsCall.name] at hm
      simp only [TmpfsCall.onMap, hm]
      exact ⟨trivial, h⟩
  | some i =>
    obtain ⟨-, -, file, hfile, hname⟩ := tmpfsFindFile_some hfind
    have hat : TmpfsAt t (cString c.name) i file := ⟨hfind, hfile⟩
    have hm := h.at hat
    cases c with
    | create name => exact absurd ⟨name, rfl⟩ hc
    | delete name =>
      simp only [TmpfsCall.name] at hat hm
      rw [onFiles_delete_some hat]
      simp only [TmpfsCall.onMap, hm]
      exact ⟨trivial, by simpa using h.update_eq hat none (by simp)⟩
    | write name offset buffer =>
      simp only [TmpfsCall.name] at hat hm
      simp only [TmpfsCall.onMap, hm]
      by_cases hoff : tmpfsMaxFileSize < offset
      · rw [onFiles_write_far hat hoff, if_pos hoff]
        exact ⟨rfl, h⟩
      · rw [onFiles_write_some hat hoff, if_neg hoff]
        have hfits := tmpfs_fits hoff buffer
        have hz := h.zeros i file hfile
        rw [← contents_write hfits hz]
        refine ⟨rfl, h.update_eq hat (some _) ?_⟩
        intro f hf
        cases hf
        exact ⟨rfl, store_zeros hfits hz⟩
    | read name offset capacity =>
      simp only [TmpfsCall.name] at hat hm
      rw [onFiles_read_some hat]
      simp only [TmpfsCall.onMap, hm, file.length_contents]
      refine ⟨?_, h⟩
      have hslice : (file.contents.drop offset).take capacity =
          (file.data.drop offset).take (min capacity (file.size - offset)) := by
        rw [TmpfsFile.contents, List.drop_take, List.take_take]
      rw [hslice]
    | stat name =>
      simp only [TmpfsCall.name] at hat hm
      rw [onFiles_stat_some hat]
      simp only [TmpfsCall.onMap, hm, file.length_contents]
      exact ⟨trivial, h⟩

end Files

/-! ## Runs -/

/-- The slots in use have the names and the bytes of the map, each name once. -/
structure SlotsHold (slots : TmpfsSlots) (m : FileMap) : Prop where
  distinct : ∀ (i j : Fin tmpfsMaxFiles), slots[i].used = true → slots[j].used = true →
    cString slots[i].name = cString slots[j].name → i = j
  shows : ∀ name bytes, m name = some bytes ↔ ∃ i : Fin tmpfsMaxFiles, slots[i].used = true ∧
    cString slots[i].name = name ∧ slots[i].data.take slots[i].size = bytes

theorem slotShows_at {slots : TmpfsSlots} {t : Tmpfs} (h : SlotsShow slots t) (i : Fin tmpfsMaxFiles) :
    SlotShows slots[i] (t.fileAt i) := by
  have hget := h.get i.isLt
  rw [List.getD_eq_getElem _ _ (by simp)] at hget
  simpa using hget

theorem SlotsShow.hold {slots : TmpfsSlots} {t : Tmpfs} {m : FileMap} (h : SlotsShow slots t) (hm : FilesHold t m) :
    SlotsHold slots m := by
  -- the file of a slot in use
  have hused : ∀ i : Fin tmpfsMaxFiles, slots[i].used = true → ∃ file, t.fileAt i = some file ∧
      cString slots[i].name = file.name ∧ slots[i].data.take slots[i].size = file.contents := by
    intro i hu
    have hshow := slotShows_at h i
    cases hf : t.fileAt i with
    | none =>
      rw [hf] at hshow
      exact absurd (hu.symm.trans hshow) (by decide)
    | some file =>
      rw [hf] at hshow
      obtain ⟨-, hname, hdata, hsize⟩ := hshow
      exact ⟨file, rfl, hname, by rw [hdata, hsize, TmpfsFile.contents]⟩
  constructor
  · intro i j hi hj heq
    obtain ⟨file, hf, hn, -⟩ := hused i hi
    obtain ⟨other, ho, hn', -⟩ := hused j hj
    exact Fin.ext (hm.distinct i j file other hf ho (hn.symm.trans (heq.trans hn')))
  · intro name bytes
    rw [hm.shows]
    constructor
    · rintro ⟨i, file, hf, hn, hb⟩
      have hshow := slotShows_at h ⟨i, fileAt_lt hf⟩
      simp only [hf] at hshow
      obtain ⟨hu, hname, hdata, hsize⟩ := hshow
      refine ⟨⟨i, fileAt_lt hf⟩, hu, hname.trans hn, ?_⟩
      rw [hdata, hsize, ← hb, TmpfsFile.contents]
    · rintro ⟨i, hu, hn, hb⟩
      obtain ⟨file, hf, hname, hbytes⟩ := hused i hu
      exact ⟨i, file, hf, hname.symm.trans hn, hbytes.symm.trans hb⟩

theorem reset_shows : SlotsShow TmpfsSlots.tmpfsReset tmpfsReset := by
  simp only [SlotsShow, TmpfsSlots.tmpfsReset, tmpfsReset, Vector.toList_replicate]
  exact List.forall₂_iff_get.mpr ⟨by simp, fun i _ _ => by simp [SlotShows, TmpfsSlots.tmpfsClearFile]⟩

theorem reset_hold : FilesHold tmpfsReset fun _ => none := by
  have hnone : ∀ i, tmpfsReset.fileAt i = none := by
    intro i
    simp only [Tmpfs.fileAt, tmpfsReset, Vector.getElem?_replicate]
    split <;> rfl
  constructor <;> simp [hnone]

/-- The calls give on the slots what they give on the map, and leave slots that hold the map. -/
theorem tmpfsRun_refines (calls : List TmpfsCall) :
    (outputs TmpfsCall.onSlots TmpfsSlots.tmpfsReset calls).1 = (outputs TmpfsCall.onMap (fun _ => none) calls).1 ∧
      SlotsHold (outputs TmpfsCall.onSlots TmpfsSlots.tmpfsReset calls).2
        (outputs TmpfsCall.onMap (fun _ => none) calls).2 := by
  have hrun := outputs_refine (fun slots m => ∃ t, SlotsShow slots t ∧ FilesHold t m)
    (fun slots m c h => by
      obtain ⟨t, hslots, hmap⟩ := h
      obtain ⟨hout, hshow⟩ := tmpfsCall_shows hslots c
      obtain ⟨hout', hhold⟩ := hmap.call c
      exact ⟨hout.trans hout', _, hshow, hhold⟩)
    ⟨tmpfsReset, reset_shows, reset_hold⟩ calls
  obtain ⟨hout, t, hslots, hmap⟩ := hrun
  exact ⟨hout, hslots.hold hmap⟩

end Armonios
