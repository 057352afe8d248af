import Armonios.Fat32.DirSpec
import Mathlib.Data.List.GetD

/-!
# The fields of a patched directory entry

What the five kinds of update of `kernel/fat32.c` leave in an entry: the size field, the first
cluster, the deleted mark, a new name, a whole new entry. Each update is a list of patches of one
sector, and a field outside the patched bytes keeps its value.

* `Volume.of_sizeEdit`, `Volume.of_nameEdit`: what the update does to the chains of the volume;
* `Volume.of_newHead`, `Volume.add_head`: a new chain, first in the FAT, then in the directory.
-/

namespace Armonios

variable {fs : Fat32Fs} {sel : UInt8 → Bool} {r : List Nat} {disk disk' : Nat → Sector} {s : Slot}
  {off v : Nat}

/-- The disk after an update of the entry `s`. -/
abbrev editSlot (disk : Nat → Sector) (s : Slot) (edits : List (Nat × List UInt8)) : Nat → Sector :=
  putSector disk s.lba (editSector s.offset edits (disk s.lba))

theorem editSlot_at (disk : Nat → Sector) (s : Slot) (edits : List (Nat × List UInt8)) :
    editSlot disk s edits s.lba = editSector s.offset edits (disk s.lba) := putSector_same _ _ _

theorem entryName_getElem (sec : Sector) (off : Nat) {i : Nat} (hi : i < (entryName sec off).length) :
    (entryName sec off)[i] = sec.byte (off + i) := by
  simp [entryName]

/-! ## The size -/

theorem sizeEdit_fields (sec : Sector) (h : off + 32 ≤ 512) (hv : v < 2 ^ 32) :
    let sec' := editSector off [(28, putLe32 v)] sec
    entrySize sec' off = v ∧ entryFirst sec' off = entryFirst sec off ∧
      entryMark sec' off = entryMark sec off ∧ entryAttr sec' off = entryAttr sec off ∧
      entryName sec' off = entryName sec off := by
  have hb : ∀ i < 28, (sec.patch (off + 28) (putLe32 v)).byte (off + i) = sec.byte (off + i) :=
    fun i hi => sec.byte_patch_out (by omega)
  refine ⟨?_, ?_, hb 0 (by decide), hb 11 (by decide), ?_⟩
  · show le32 (sec.patch (off + 28) (putLe32 v)) (off + 28) = v
    rw [le32_patch_putLe32 _ (by omega), Nat.mod_eq_of_lt hv]
  · show entryFirst (sec.patch (off + 28) (putLe32 v)) off = _
    unfold entryFirst
    rw [le16_patch_out _ (by omega), le16_patch_out _ (by omega)]
  · refine List.map_congr_left fun i hi => hb i ?_
    have := List.mem_range.mp hi
    omega

/-! ## The first cluster -/

theorem headEdit_fields (sec : Sector) (h : off + 32 ≤ 512) (hv : v < 2 ^ 32) :
    let sec' := editSector off [(20, putLe16 (v / 2 ^ 16)), (26, putLe16 v)] sec
    entryFirst sec' off = v ∧ entrySize sec' off = entrySize sec off ∧
      entryMark sec' off = entryMark sec off ∧ entryAttr sec' off = entryAttr sec off ∧
      entryName sec' off = entryName sec off := by
  have hb : ∀ i < 20, ((sec.patch (off + 20) (putLe16 (v / 2 ^ 16))).patch (off + 26) (putLe16 v)).byte
      (off + i) = sec.byte (off + i) := fun i hi => by
    rw [Sector.byte_patch_out _ (by omega), Sector.byte_patch_out _ (by omega)]
  refine ⟨?_, ?_, hb 0 (by decide), hb 11 (by decide), ?_⟩
  · show entryFirst ((sec.patch (off + 20) (putLe16 (v / 2 ^ 16))).patch (off + 26) (putLe16 v)) off = v
    unfold entryFirst
    rw [le16_patch_out _ (by omega), le16_patch_putLe16 _ (by omega), le16_patch_putLe16 _ (by omega)]
    omega
  · show le32 ((sec.patch (off + 20) (putLe16 (v / 2 ^ 16))).patch (off + 26) (putLe16 v)) (off + 28) = _
    rw [le32_patch_out _ (by simp), le32_patch_out _ (by simp)]
    rfl
  · refine List.map_congr_left fun i hi => hb i ?_
    have := List.mem_range.mp hi
    omega

/-! ## The mark and the name -/

theorem markEdit_mark (sec : Sector) (h : off + 32 ≤ 512) (b : UInt8) :
    entryMark (editSector off [(0, [b])] sec) off = b := by
  show (sec.patch (off + 0) [b]).byte off = b
  rw [Nat.add_zero, Sector.byte_patch_in _ (by omega) le_rfl (by simp)]
  simp

theorem nameEdit_fields {short : List UInt8} (sec : Sector) (h : off + 32 ≤ 512) (hs : short.length = 11) :
    let sec' := editSector off [(0, short)] sec
    entryName sec' off = short ∧ entryMark sec' off = short.getD 0 0 ∧
      entrySize sec' off = entrySize sec off ∧ entryFirst sec' off = entryFirst sec off ∧
      entryAttr sec' off = entryAttr sec off := by
  have hin : ∀ i < 11, (sec.patch (off + 0) short).byte (off + i) = short.getD i 0 := fun i hi => by
    rw [Nat.add_zero]
    exact byte_patch_at sec off _ i (by omega) (by omega)
  have hout : ∀ i, 11 ≤ i → (sec.patch (off + 0) short).byte (off + i) = sec.byte (off + i) :=
    fun i hi => sec.byte_patch_out (by omega)
  refine ⟨?_, hin 0 (by decide), ?_, ?_, hout 11 (by decide)⟩
  · apply List.ext_getElem
    · simp [entryName, hs]
    · intro i h1 h2
      rw [entryName_getElem]
      have hi : i < 11 := by omega
      refine (hin i hi).trans ?_
      rw [List.getD_eq_getElem?_getD, List.getElem?_eq_getElem h2, Option.getD_some]
  · show le32 (sec.patch (off + 0) short) (off + 28) = _
    rw [le32_patch_out _ (by omega)]
    rfl
  · show entryFirst (sec.patch (off + 0) short) off = _
    unfold entryFirst
    rw [le16_patch_out _ (by omega), le16_patch_out _ (by omega)]

/-! ## A whole entry -/

theorem length_dirEntryBytes {short : List UInt8} (hs : short.length = 11) (attr : UInt8)
    (first size : Nat) : (dirEntryBytes short attr first size).length = 32 := by
  simp [dirEntryBytes, hs]

theorem createEdit_fields {short : List UInt8} {attr : UInt8} {size : Nat} (sec : Sector)
    (h : off + 32 ≤ 512)
    (hs : short.length = 11) (hv : v < 2 ^ 32) (hsize : size < 2 ^ 32) :
    let sec' := editSector off [(0, dirEntryBytes short attr v size)] sec
    entryName sec' off = short ∧ entryMark sec' off = short.getD 0 0 ∧ entryAttr sec' off = attr ∧
      entryFirst sec' off = v ∧ entrySize sec' off = size := by
  have hlen := length_dirEntryBytes hs attr v size
  have hin : ∀ i < 32, (editSector off [(0, dirEntryBytes short attr v size)] sec).byte (off + i) =
      (dirEntryBytes short attr v size).getD i 0 := fun i hi => by
    show (sec.patch (off + 0) (dirEntryBytes short attr v size)).byte (off + i) = _
    rw [Nat.add_zero]
    exact byte_patch_at sec off _ i (by omega) (by omega)
  have hleft : ∀ i < 11, (dirEntryBytes short attr v size).getD i 0 = short.getD i 0 := fun i hi => by
    unfold dirEntryBytes
    simp only [List.append_assoc]
    rw [List.getD_append _ _ _ _ (by omega)]
  have hright : ∀ i, (dirEntryBytes short attr v size).getD (11 + i) 0 =
      ([attr, 0, 0] ++ putLe16 0 ++ putLe16 0 ++ putLe16 0 ++ putLe16 (v / 2 ^ 16) ++ putLe16 0 ++
        putLe16 0 ++ putLe16 v ++ putLe32 size).getD i 0 := fun i => by
    unfold dirEntryBytes
    simp only [List.append_assoc]
    rw [List.getD_append_right _ _ _ _ (by omega), hs, Nat.add_sub_cancel_left]
  refine ⟨?_, ?_, ?_, ?_, ?_⟩
  · apply List.ext_getElem
    · simp [entryName, hs]
    · intro i h1 h2
      rw [entryName_getElem, hin i (by omega), hleft i (by omega), List.getD_eq_getElem?_getD,
        List.getElem?_eq_getElem h2, Option.getD_some]
  · exact (hin 0 (by decide)).trans (hleft 0 (by decide))
  · exact (hin 11 (by decide)).trans (hright 0)
  · unfold entryFirst le16
    simp only [Nat.add_assoc]
    rw [hin 20 (by decide), hin 21 (by decide), hin 26 (by decide), hin 27 (by decide), hright 9,
      hright 10, hright 15, hright 16]
    simp only [putLe16, List.cons_append, List.nil_append, List.getD_cons_succ, List.getD_cons_zero,
      UInt8.toNat_ofNat']
    omega
  · unfold entrySize le32
    simp only [Nat.add_assoc]
    rw [hin 28 (by decide), hin 29 (by decide), hin 30 (by decide), hin 31 (by decide), hright 17,
      hright 18, hright 19, hright 20]
    simp only [putLe16, putLe32, List.cons_append, List.nil_append, List.getD_cons_succ,
      List.getD_cons_zero, UInt8.toNat_ofNat']
    omega

/-! ## The updates and the volume -/

theorem heads_eq_of_fields (hlive : Live disk' s ↔ Live disk s)
    (hattr : entryAttr (disk' s.lba) s.offset = entryAttr (disk s.lba) s.offset)
    (hfirst : slotFirst disk' s = slotFirst disk s) :
    heads fs sel r disk' (some s) = heads fs sel r disk (some s) := by
  simp only [heads, hlive, hattr, hfirst]

/-- An update of the size. -/
theorem Volume.of_sizeEdit (h : Volume fs sel r disk) (hs : s ∈ slotsOf fs r) (hv : v < 2 ^ 32) :
    Volume fs sel r (editSlot disk s [(28, putLe32 v)]) := by
  refine h.of_slotUpd hs (slotUpd_edit hs (by simp)) ?_
  obtain ⟨-, h2, h3, h4, -⟩ := sizeEdit_fields (disk s.lba) (offset_le hs) hv
  have e := editSlot_at disk s [(28, putLe32 v)]
  refine heads_eq_of_fields ?_ (by rw [e]; exact h4) (by unfold slotFirst; rw [e]; exact h2)
  unfold Live
  rw [e, h3, h4]

/-- A cluster is marked as a chain that no entry has yet. -/
theorem Volume.of_newHead {b : Nat} (h : Volume fs sel r disk) (hb : NewHead fs b disk disk') :
    Volume fs sel r disk' ∧ heads fs sel r disk' = heads fs sel r disk ∧
      Family.Fresh (nextOf fs disk') Eoc (heads fs sel r disk') b := by
  obtain ⟨hbd, hb0, hu⟩ := hb
  have hfresh := h.fresh_of_free hb0
  have hheads : heads fs sel r disk' = heads fs sel r disk := by
    funext i
    rcases i with _ | t
    · rfl
    · exact heads_congr fun ht => SameEntry.of_eq (hu.data _ (dataBase_le_of_mem (mem_slotsOf.mp ht).1))
  have hn : ∀ i a l x, heads fs sel r disk i = some a → Chain (nextOf fs disk) Eoc a l → x ∈ l →
      nextOf fs disk' x = nextOf fs disk x := by
    intro i a l x hi hl hx
    rw [hu.entry x (h.family.ok_of_mem hi hl hx), if_neg]
    rintro rfl
    exact hfresh i a l hi hl hx
  rw [hheads]
  refine ⟨⟨h.geometry, h.root.congr fun y hy => hn none _ r y heads_none h.root hy, ?_⟩, rfl, ?_⟩
  · rw [hheads]
    exact h.family.congr_next hn
  · intro i a l hi hl hmem
    obtain ⟨m, hm, -⟩ := h.family.chain hi
    rw [hl.unique (hm.congr fun y hy => hn i a m y hi hm hy)] at hmem
    exact hfresh i a m hi hm hmem

/-- The entry `s` becomes the head of the chain of `b` alone. -/
theorem Volume.add_head {b : Nat} (h : Volume fs sel r disk)
    (hf : Family.Fresh (nextOf fs disk) Eoc (heads fs sel r disk) b) (hb : InData fs b)
    (he : Eoc (nextOf fs disk b)) (hs : s ∈ slotsOf fs r) (hu : SlotUpd fs r s disk disk')
    (hh : heads fs sel r disk' (some s) = some b) : Volume fs sel r disk' := by
  have hn := fun x hx => hu.next h.geometry hs (x := x) hx
  refine ⟨h.geometry, h.root.congr fun y hy => hn y (h.inData_root hy), ?_⟩
  refine h.family.start_chain hf (i := some s) (fun i hi => ?_) hh hb hb.not_eoc
    (by rw [hn b hb]; exact he) fun y hy _ => hn y hy
  rcases i with _ | t
  · rfl
  · exact heads_congr fun ht => hu.entries t ht fun e => hi (by rw [e])

/-- A new name, which may start with the deleted mark. -/
theorem Volume.of_nameEdit {short : List UInt8} (h : Volume fs sel r disk) (hs : s ∈ slotsOf fs r)
    (hl : Live disk s) (hlen : short.length = 11) (h0 : short.getD 0 0 ≠ 0) :
    Volume fs sel r (editSlot disk s [(0, short)]) := by
  have hu : SlotUpd fs r s disk (editSlot disk s [(0, short)]) := slotUpd_edit hs (by simp [hlen])
  obtain ⟨-, h2, -, h4, h5⟩ := nameEdit_fields (disk s.lba) (offset_le hs) hlen
  have e := editSlot_at disk s [(0, short)]
  by_cases he5 : short.getD 0 0 = 0xe5
  · refine h.drop_slot hs hu ?_
    simp only [heads]
    refine if_neg ?_
    rintro ⟨-, hlive, -⟩
    rw [Live, e, h2] at hlive
    exact hlive.2.1 he5
  · refine h.of_slotUpd hs hu (heads_eq_of_fields ?_ (by rw [e]; exact h5)
      (by unfold slotFirst; rw [e]; exact h4))
    refine ⟨fun _ => hl, fun _ => ?_⟩
    rw [Live, e, h2, h5]
    exact ⟨h0, he5, hl.2.2⟩

end Armonios
