import Armonios.Lib.Lines
import Armonios.Fat32.NameSpec
import Armonios.Fat32.Reliable
import Armonios.Fat32.Tidy
import Armonios.Fat32.Walks
import Mathlib.Data.List.TakeWhile

/-!
# Listing and opening

`fat32_list_root` leaves out volume labels and lists subdirectories, `fat32_open_root` takes volume labels for files and
leaves out subdirectories. Both stop at the end mark.

* `listRoot_reliable`: a listing has the lines of the entries in front of the end mark;
* `opensListed_iff`: opening and listing agree on a name unless a volume label has it first.
-/

namespace Armonios

variable {fs : Fat32Fs} {sel : UInt8 → Bool} {r : List Nat} {disk disk' : Nat → Sector} {d : Dev} {s t : Slot}
  {slots : List Slot} {name w : List UInt8} {l : List Nat}

/-! ## The entries of a listing -/

instance (disk : Nat → Sector) (s : Slot) : Decidable (EndMark disk s) := inferInstanceAs (Decidable (_ = _))

/-- The entries in front of the end mark. -/
def beforeEnd (disk : Nat → Sector) (slots : List Slot) : List Slot := slots.takeWhile fun s => ¬ EndMark disk s

/-- The line of an entry without its end. -/
def entryLine (disk : Nat → Sector) (s : Slot) : List UInt8 := (listLine (disk s.lba) s.offset).dropLast

/-- The lines of a listing. -/
def shownLines (disk : Nat → Sector) (slots : List Slot) : List (List UInt8) :=
  ((beforeEnd disk slots).filter fun s => Listed disk s).map (entryLine disk)

theorem listLine_eq (disk : Nat → Sector) (s : Slot) : listLine (disk s.lba) s.offset = entryLine disk s ++ [10] := by
  unfold entryLine listLine
  dsimp only
  rw [List.dropLast_concat]

theorem listLines_eq (disk : Nat → Sector) (slots : List Slot) :
    listLines disk slots = unlines 10 ((slots.filter fun s => Listed disk s).map (entryLine disk)) := by
  induction slots with
  | nil => rfl
  | cons s slots ih =>
    have hcons : listLines disk (s :: slots) =
        (if Listed disk s then listLine (disk s.lba) s.offset else []) ++ listLines disk slots := rfl
    rw [hcons, ih, List.filter_cons]
    by_cases hlisted : Listed disk s
    · rw [if_pos hlisted, if_pos (decide_eq_true hlisted), List.map_cons, unlines_cons, listLine_eq, List.append_assoc]
      rfl
    · rw [if_neg hlisted, if_neg (by simpa using hlisted), List.nil_append]

theorem beforeEnd_append {xs : List Slot} (h : ∀ u ∈ xs, ¬ EndMark disk u) :
    beforeEnd disk (xs ++ slots) = xs ++ beforeEnd disk slots :=
  List.takeWhile_append_of_pos fun u hu => decide_eq_true (h u hu)

theorem beforeEnd_cons : beforeEnd disk (s :: slots) = if EndMark disk s then [] else s :: beforeEnd disk slots := by
  unfold beforeEnd
  rw [List.takeWhile_cons]
  by_cases hmark : EndMark disk s
  · rw [if_pos hmark, if_neg (by simpa using hmark)]
  · rw [if_neg hmark, if_pos (decide_eq_true hmark)]

theorem beforeEnd_split (disk : Nat → Sector) (slots : List Slot) :
    beforeEnd disk slots = slots ∨ ∃ s rest, slots = beforeEnd disk slots ++ s :: rest ∧ EndMark disk s := by
  have hsplit := (List.takeWhile_append_dropWhile (p := fun s => decide ¬ EndMark disk s) (l := slots)).symm
  cases hrest : slots.dropWhile fun s => decide ¬ EndMark disk s with
  | nil =>
    rw [hrest, List.append_nil] at hsplit
    exact .inl hsplit.symm
  | cons s rest =>
    rw [hrest] at hsplit
    refine .inr ⟨s, rest, hsplit, ?_⟩
    have hhead := List.head?_dropWhile_not (fun s => decide ¬ EndMark disk s) slots
    rw [hrest] at hhead
    simpa using hhead

theorem mem_beforeEnd (h : s ∈ beforeEnd disk slots) : s ∈ slots ∧ ¬ EndMark disk s :=
  ⟨(List.takeWhile_sublist _).mem h, by simpa using List.mem_takeWhile_imp h⟩

theorem scanSlots_listing {capacity : Nat} (hroom : (unlines 10 (shownLines disk slots)).length ≤ capacity) :
    scanSlots (listVisit capacity) disk slots [] = .next (unlines 10 (shownLines disk slots)) ∨
      scanSlots (listVisit capacity) disk slots [] = .exit (unlines 10 (shownLines disk slots)) := by
  have hlines : listLines disk (beforeEnd disk slots) = unlines 10 (shownLines disk slots) := listLines_eq _ _
  rw [← hlines] at hroom ⊢
  have hscan : scanSlots (listVisit capacity) disk (beforeEnd disk slots) [] =
      .next (listLines disk (beforeEnd disk slots)) :=
    scanSlots_list (fun s hs => (mem_beforeEnd hs).2) (by simpa using hroom)
  rcases beforeEnd_split disk slots with hall | ⟨s, rest, hsplit, hmark⟩
  · rw [hall] at hscan ⊢
    exact .inl hscan
  · refine .inr ?_
    rw [hsplit, scanSlots_append, ← hsplit, hscan]
    show scanSlots (listVisit capacity) disk (s :: rest) (listLines disk (beforeEnd disk slots)) = _
    simp only [scanSlots, listVisit_mark hmark]

/-- On a reliable disk, with room for it, a listing has the lines of the entries in front of the end mark. -/
theorem listRoot_reliable (hv : Volume fs sel r d.disk) (hd : d.fault = none) {capacity : Nat}
    (hroom : (unlines 10 (shownLines d.disk (slotsOf fs r))).length ≤ capacity) :
    fat32ListRoot fs capacity d = .ok (unlines 10 (shownLines d.disk (slotsOf fs r))) d := by
  have hlist : ReadsTo (fat32ListRoot fs capacity) {.dirScan, .lookup} False d fun out =>
      out = unlines 10 (shownLines d.disk (slotsOf fs r)) := by
    unfold fat32ListRoot
    refine ReadsTo.guard (fun h => absurd h (by rw [hv.geometry.mounted]; decide)) fun _ => ?_
    refine ReadsTo.bind (scanRoot_spec hv) fun res _ _ _ hres => ?_
    rcases scanSlots_listing hroom with h | h
    · rw [hres, h]
      exact ReadsTo.pure rfl
    · rw [hres, h]
      exact ReadsTo.pure rfl
  obtain ⟨out, hrun, rfl⟩ := hlist.returns hd
  exact hrun

/-- The output of a listing that has room for it. -/
def Lists (fs : Fat32Fs) (d : Dev) (out : List UInt8) : Prop :=
  ∀ capacity, out.length ≤ capacity → fat32ListRoot fs capacity d = .ok out d

theorem lists_iff (hv : Volume fs sel r d.disk) (hd : d.fault = none) {out : List UInt8} :
    Lists fs d out ↔ out = unlines 10 (shownLines d.disk (slotsOf fs r)) := by
  constructor
  · intro h
    have hlist := h (max out.length (unlines 10 (shownLines d.disk (slotsOf fs r))).length) (le_max_left _ _)
    rw [listRoot_reliable hv hd (le_max_right _ _)] at hlist
    cases hlist
    rfl
  · rintro rfl capacity hroom
    exact listRoot_reliable hv hd hroom

/-! ## Lookups -/

/-- A lookup finds an entry exactly if a hit stands in front of the end mark. -/
theorem findEntry_isSome : (∃ s, findEntry w disk slots = some s) ↔ ∃ s ∈ beforeEnd disk slots, Hit w disk s := by
  induction slots with
  | nil => simp [findEntry, scanSlots, beforeEnd]
  | cons s slots ih =>
    rw [findEntry_cons, beforeEnd_cons]
    by_cases hmark : EndMark disk s
    · rw [if_pos (show entryMark (disk s.lba) s.offset = 0x00 from hmark), if_pos hmark]
      simp
    rw [if_neg (show ¬ entryMark (disk s.lba) s.offset = 0x00 from hmark), if_neg hmark, List.exists_mem_cons_iff]
    by_cases hhit : Hit w disk s
    · refine iff_of_true ?_ (.inl hhit)
      obtain ⟨⟨-, he5, hlong⟩, hfile, hname⟩ := hhit
      simp only [isFile, decide_eq_true_eq] at hfile
      rw [if_neg]
      · exact ⟨s, rfl⟩
      · simp [he5, hlong, hfile, hname]
    · rw [if_pos, ih]
      · simp only [hhit, false_or]
      · by_contra hno
        simp only [not_or, not_not] at hno
        exact hhit ⟨⟨hmark, hno.1.1, hno.1.2.1⟩, by simp [isFile, hno.1.2.2], hno.2⟩

theorem findEntry_before (h : findEntry w disk slots = some s) : s ∈ beforeEnd disk slots := by
  obtain ⟨hhit, xs, ys, rfl, hxs⟩ := findEntry_eq_some.mp h
  rw [beforeEnd_append fun u hu => (hxs u hu).1, beforeEnd_cons, if_neg (show ¬ EndMark disk s from hhit.1.1)]
  simp

/-- A volume whose files can all be opened: a file with bytes has a first cluster, and no chain is longer than 4 GiB. -/
structure RootFiles (fs : Fat32Fs) (r : List Nat) (disk : Nat → Sector) : Prop where
  volume : Volume fs allLive r disk
  start : ∀ s ∈ slotsOf fs r, LiveFile disk s → slotSize disk s = 0 ∨ 2 ≤ slotFirst disk s
  fits : ∀ s ∈ slotsOf fs r, LiveFile disk s → ∀ l, FileChain fs disk s l → l.length * clusterBytesOf fs ≤ 0xffffffff

/-- What a lookup finds can be opened. -/
theorem RootFiles.openable (h : RootFiles fs r disk) (hw : makeShortName name = some w)
    (hfound : findEntry w disk (slotsOf fs r) = some s) : ∃ l, Openable fs r disk name s l := by
  obtain ⟨hs, hlive, hfile, -⟩ := findEntry_some hfound
  obtain ⟨l, hchain, -⟩ := h.volume.fileChain allLive_selectsFiles hs hlive hfile
  exact ⟨l, ⟨w, hw, hfound⟩, hchain, h.start s hs ⟨hlive, hfile⟩, h.fits s hs ⟨hlive, hfile⟩ l hchain⟩

/-- A lookup that finds nothing: no file in front of the end mark has the name. -/
theorem RootFiles.no_hit (h : RootFiles fs r disk) (hw : makeShortName name = some w)
    (hnew : ¬ ∃ s l, Openable fs r disk name s l) : ∀ u ∈ beforeEnd disk (slotsOf fs r), ¬ Hit w disk u := by
  intro u hu hhit
  obtain ⟨s, hfound⟩ := findEntry_isSome.mpr ⟨u, hu, hhit⟩
  obtain ⟨l, hopen⟩ := h.openable hw hfound
  exact hnew ⟨s, l, hopen⟩

theorem RootFiles.open_iff (h : RootFiles fs r d.disk) (hd : d.fault = none) :
    (∃ file d', fat32OpenRoot fs name d = .ok file d') ↔
      ∃ w s, makeShortName name = some w ∧ findEntry w d.disk (slotsOf fs r) = some s := by
  constructor
  · rintro ⟨file, d', hrun⟩
    obtain ⟨-, s, l, hopen, -⟩ := (openRoot_reliable h.volume hd name).of_ok hrun
    obtain ⟨w, hw, hfound⟩ := hopen.found
    exact ⟨w, s, hw, hfound⟩
  · rintro ⟨w, s, hw, hfound⟩
    obtain ⟨l, hopen⟩ := h.openable hw hfound
    exact ⟨_, d, openRoot_returns h.volume allLive_selectsFiles hd hopen⟩

/-! ## The names of a listing -/

/-- The canonical form of a name. -/
def canonicalName (name : List UInt8) : List UInt8 := (stripSlash name).map asciiUpper

/-- The listed entries have 8.3 names. -/
def NamesValid (fs : Fat32Fs) (r : List Nat) (disk : Nat → Sector) : Prop :=
  ∀ s ∈ slotsOf fs r, Listed disk s → ∃ n : ShortName, entryName (disk s.lba) s.offset = n.bytes

theorem ShortName.text_chars (n : ShortName) {c : UInt8} (hc : c ∈ n.text) : c = 46 ∨ NameChar c := by
  unfold ShortName.text at hc
  rcases List.mem_append.mp hc with hbase | hext
  · exact .inr (n.base_chars c hbase)
  · split at hext
    · cases hext
    · rcases List.mem_cons.mp hext with rfl | hext
      · exact .inl rfl
      · exact .inr (n.ext_chars c hext)

theorem ShortName.newline_not_mem (n : ShortName) : (10 : UInt8) ∉ n.text := by
  intro hmem
  rcases n.text_chars hmem with h | h
  · exact absurd h (by decide)
  · exact absurd h.plain (by decide)

theorem ShortName.slash_not_mem (n : ShortName) : (47 : UInt8) ∉ n.text := by
  intro hmem
  rcases n.text_chars hmem with h | h
  · exact absurd h (by decide)
  · exact h.not_slash rfl

/-- The line of an entry with an 8.3 name: a subdirectory has a slash. -/
theorem entryLine_named {n : ShortName} (h : entryName (disk s.lba) s.offset = n.bytes) :
    entryLine disk s = n.text ++ if entryAttr (disk s.lba) s.offset &&& attrDirectory ≠ 0 then [47] else [] := by
  unfold entryLine
  rw [← shortNameLine_entry, h, shortNameLine_named, List.dropLast_concat]

/-- The line of a file is its name, and no other line is. -/
theorem entryLine_eq {n m : ShortName} (h : entryName (disk s.lba) s.offset = n.bytes) :
    entryLine disk s = m.text ↔ isFile (entryAttr (disk s.lba) s.offset) = true ∧ n.bytes = m.bytes := by
  rw [entryLine_named h, ShortName.bytes_inj]
  by_cases hdir : entryAttr (disk s.lba) s.offset &&& attrDirectory = 0
  · simp [isFile, hdir]
  · rw [if_pos hdir]
    refine iff_of_false (fun heq => m.slash_not_mem ?_) fun hno => hdir (of_decide_eq_true hno.1)
    rw [← heq]
    simp

/-- The name is in the listing, and not as a subdirectory. -/
def ListsFile (fs : Fat32Fs) (d : Dev) (name : List UInt8) : Prop :=
  makeShortName name ≠ none ∧ ∃ out, Lists fs d out ∧ IsLine 10 out (canonicalName name)

theorem listsFile_iff (hv : Volume fs sel r d.disk) (hnames : NamesValid fs r d.disk) (hd : d.fault = none) :
    ListsFile fs d name ↔ ∃ w, makeShortName name = some w ∧ ∃ s ∈ beforeEnd d.disk (slotsOf fs r),
      Hit w d.disk s ∧ entryAttr (d.disk s.lba) s.offset &&& attrVolumeId = 0 := by
  unfold ListsFile
  cases hw : makeShortName name with
  | none => simp
  | some w =>
    obtain ⟨m, hm, rfl⟩ := makeShortName_iff.mp hw
    have hlines : ∀ line ∈ shownLines d.disk (slotsOf fs r), (10 : UInt8) ∉ line := by
      intro line hline
      obtain ⟨s, hs, rfl⟩ := List.mem_map.mp hline
      obtain ⟨hs, hlisted⟩ := List.mem_filter.mp hs
      obtain ⟨n, hn⟩ := hnames s (mem_beforeEnd hs).1 (of_decide_eq_true hlisted)
      rw [entryLine_named hn, List.mem_append, not_or]
      refine ⟨n.newline_not_mem, ?_⟩
      split <;> decide
    have hline : (∃ out, Lists fs d out ∧ IsLine 10 out (canonicalName name)) ↔
        m.text ∈ shownLines d.disk (slotsOf fs r) := by
      simp only [lists_iff hv hd, exists_eq_left]
      rw [show canonicalName name = m.text from hm]
      exact isLine_iff hlines m.newline_not_mem
    rw [hline]
    simp only [ne_eq, reduceCtorEq, not_false_eq_true, true_and, Option.some.injEq, exists_eq_left']
    constructor
    · intro hmem
      obtain ⟨s, hs, htext⟩ := List.mem_map.mp hmem
      obtain ⟨hs, hlisted⟩ := List.mem_filter.mp hs
      have hlisted := of_decide_eq_true hlisted
      obtain ⟨n, hn⟩ := hnames s (mem_beforeEnd hs).1 hlisted
      obtain ⟨hfile, hbytes⟩ := (entryLine_eq hn).mp htext
      exact ⟨s, hs, ⟨hlisted.1, hfile, hn.trans hbytes⟩, hlisted.2⟩
    · rintro ⟨s, hs, ⟨hlive, hfile, hname⟩, hlabel⟩
      refine List.mem_map.mpr ⟨s, List.mem_filter.mpr ⟨hs, decide_eq_true ⟨hlive, hlabel⟩⟩, ?_⟩
      exact (entryLine_eq hname).mpr ⟨hfile, rfl⟩

/-! ## Opening what is listed -/

/-- A volume label or a part of a long name. -/
def NoFile (disk : Nat → Sector) (s : Slot) : Prop :=
  entryMark (disk s.lba) s.offset ≠ 0x00 ∧ entryMark (disk s.lba) s.offset ≠ 0xe5 ∧
    entryAttr (disk s.lba) s.offset &&& attrVolumeId ≠ 0

/-- Opening finds what is listed as a file. What is opened, written through its handle, or deleted is neither a label
nor a part of a long name. -/
structure OpensListed (fs : Fat32Fs) (r : List Nat) (d : Dev) (name : List UInt8) : Prop where
  agrees : (∃ file d', fat32OpenRoot fs name d = .ok file d') ↔ ListsFile fs d name
  opened : ∀ file d', fat32OpenRoot fs name d = .ok file d' → ¬ NoFile d.disk file.slot
  written : ∀ file d', fat32OpenRoot fs name d = .ok file d' → ∀ off buf, Admissible fs r d (.write file off buf) →
    ∀ t ∈ slotsOf fs r, NoFile d.disk t → SameEntry d.disk ((Call.write file off buf).run fs d).dev.disk t
  deleted : ∀ t ∈ slotsOf fs r, NoFile d.disk t → SameEntry d.disk ((Call.delete name).run fs d).dev.disk t

/-- A write through a handle changes no other entry. -/
theorem write_keepsEntry {file : Fat32File} {off : Nat} {buf : List UInt8} (hv : Volume fs allLive r d.disk)
    (hd : d.fault = none) (hadm : Admissible fs r d (.write file off buf)) (ht : t ∈ slotsOf fs r)
    (hne : t ≠ file.slot) : SameEntry d.disk ((Call.write file off buf).run fs d).dev.disk t := by
  obtain ⟨hcur, hfree⟩ := hadm
  obtain ⟨l, hchain⟩ := hcur.exists_chain hv
  have hwrite := write_reliable (t := ⟨file, d⟩) off buf hv hd hcur hchain (hfree l hchain)
  unfold Call.run
  simp only
  split
  · rename_i n t' hrun
    obtain ⟨-, -, -, l', hwritten⟩ := hwrite.of_ok hrun
    exact hwritten.touched.others t ht hne
  · rename_i e t' hrun
    obtain ⟨-, -, l', hrefused⟩ := hwrite.of_error hrun
    exact hrefused.touched.others t ht hne

/-- A delete changes no other entry than the one that a lookup finds. -/
theorem delete_keepsEntry (hv : Volume fs allLive r d.disk) (hd : d.fault = none) (ht : t ∈ slotsOf fs r)
    (hne : ∀ s l, Openable fs r d.disk name s l → t ≠ s) :
    SameEntry d.disk ((Call.delete name).run fs d).dev.disk t := by
  have hdelete := delete_reliable hv hd name
  unfold Call.run outcome
  simp only
  split
  · rename_i u d' hrun
    obtain ⟨-, s, l, hopen, hdeleted⟩ := hdelete.of_ok hrun
    exact hdeleted.others t ht (hne s l hopen)
  · rename_i e d' hrun
    obtain ⟨-, rfl⟩ := hdelete.of_error hrun
    exact SameEntry.of_eq rfl

theorem RootFiles.opensListed (h : RootFiles fs r d.disk) (hnames : NamesValid fs r d.disk) (hd : d.fault = none)
    (hfirst : ∀ w s, makeShortName name = some w → findEntry w d.disk (slotsOf fs r) = some s →
      entryAttr (d.disk s.lba) s.offset &&& attrVolumeId = 0) : OpensListed fs r d name := by
  have hfile {s : Slot} {l : List Nat} (hopen : Openable fs r d.disk name s l) : ¬ NoFile d.disk s := by
    obtain ⟨w, hw, hfound⟩ := hopen.found
    exact fun hno => hno.2.2 (hfirst w s hw hfound)
  have hopened {file : Fat32File} {d' : Dev} (hrun : fat32OpenRoot fs name d = .ok file d') :
      ¬ NoFile d.disk file.slot := by
    obtain ⟨-, s, l, hopen, -, rfl⟩ := (openRoot_reliable h.volume hd name).of_ok hrun
    exact hfile hopen
  refine ⟨?_, fun file d' => hopened, fun file d' hrun off buf hadm t ht hno => ?_, fun t ht hno => ?_⟩
  · rw [h.open_iff hd, listsFile_iff h.volume hnames hd]
    constructor
    · rintro ⟨w, s, hw, hfound⟩
      obtain ⟨-, hlive, hisFile, hname⟩ := findEntry_some hfound
      exact ⟨w, hw, s, findEntry_before hfound, ⟨hlive, hisFile, hname⟩, hfirst w s hw hfound⟩
    · rintro ⟨w, hw, s, hs, hhit, -⟩
      obtain ⟨s', hfound⟩ := findEntry_isSome.mpr ⟨s, hs, hhit⟩
      exact ⟨w, s', hw, hfound⟩
  · refine write_keepsEntry h.volume hd hadm ht ?_
    rintro rfl
    exact hopened hrun hno
  · refine delete_keepsEntry h.volume hd ht fun s l hopen => ?_
    rintro rfl
    exact hfile hopen hno

/-- A label that a lookup finds first is opened. -/
theorem RootFiles.opens_label (h : RootFiles fs r d.disk) (hd : d.fault = none) (hw : makeShortName name = some w)
    (hfound : findEntry w d.disk (slotsOf fs r) = some s)
    (hlabel : entryAttr (d.disk s.lba) s.offset &&& attrVolumeId ≠ 0) : ¬ OpensListed fs r d name := by
  intro hlisted
  obtain ⟨l, hopen⟩ := h.openable hw hfound
  have hlive := hopen.live
  exact hlisted.opened _ _ (openRoot_returns h.volume allLive_selectsFiles hd hopen) ⟨hlive.1, hlive.2.1, hlabel⟩

/-- On a reliable disk, opening a name and listing it agree exactly if no volume label is the first entry that a lookup
of the name finds. -/
theorem opensListed_iff (h : RootFiles fs r d.disk) (hnames : NamesValid fs r d.disk) (hd : d.fault = none)
    (name : List UInt8) : OpensListed fs r d name ↔
      ∀ w s, makeShortName name = some w → findEntry w d.disk (slotsOf fs r) = some s →
        entryAttr (d.disk s.lba) s.offset &&& attrVolumeId = 0 := by
  constructor
  · intro hlisted w s hw hfound
    by_contra hlabel
    exact h.opens_label hd hw hfound hlabel hlisted
  · exact h.opensListed hnames hd

/-! ## Samples -/

theorem sample_rootFiles : RootFiles sampleFs [2] sampleDisk := by
  have hall : ∀ s ∈ slotsOf sampleFs [2], Live sampleDisk s → s = ⟨3, 0⟩ := by decide
  refine ⟨sample_volume allLive, fun s hs hfile => ?_, fun s hs hfile l hchain => ?_⟩
  · obtain rfl := hall s hs hfile.1
    exact .inr (by decide)
  · obtain rfl := hall s hs hfile.1
    rw [sample_openable.chain.unique hchain]
    decide

/-- `A`, as a name of the directory. -/
def sampleShortName : ShortName :=
  ⟨[65], [], by decide, by decide, by decide, by simpa using ⟨by decide, by decide, by decide, by decide⟩, by simp⟩

theorem sample_namesValid : NamesValid sampleFs [2] sampleDisk := by
  intro s hs hlisted
  have hall : ∀ s ∈ slotsOf sampleFs [2], Live sampleDisk s → s = ⟨3, 0⟩ := by decide
  obtain rfl := hall s hs hlisted.1
  exact ⟨sampleShortName, by decide⟩

theorem opensListed_iff_sample : OpensListed sampleFs [2] ⟨sampleDisk, none⟩ [97] ↔
    ∀ w s, makeShortName [97] = some w → findEntry w sampleDisk (slotsOf sampleFs [2]) = some s →
      entryAttr (sampleDisk s.lba) s.offset &&& attrVolumeId = 0 :=
  opensListed_iff (d := ⟨sampleDisk, none⟩) sample_rootFiles sample_namesValid rfl [97]

/-- The root directory has a volume label and nothing else. -/
def labelDisk : Nat → Sector := fun lba =>
  if lba = 1 ∨ lba = 2 then Sector.zero.patch 8 (putLe32 clusterEoc)
  else if lba = 3 then
    Sector.zero.patch 0 (dirEntryBytes [65, 32, 32, 32, 32, 32, 32, 32, 32, 32, 32] attrVolumeId 0 0)
  else Sector.zero

theorem label_live : ∀ s ∈ slotsOf sampleFs [2], Live labelDisk s → s = ⟨3, 0⟩ := by decide

/-- A volume whose chains have one cluster each. -/
theorem volume_of_singles {c : Nat} (hm : Mounted fs) (hroot : fs.rootCluster = c)
    (hone : ∀ i a, heads fs sel [c] disk i = some a → InData fs a ∧ Eoc (nextOf fs disk a))
    (hinj : ∀ i k a, heads fs sel [c] disk i = some a → heads fs sel [c] disk k = some a → i = k) :
    Volume fs sel [c] disk := by
  have hchain {i : Option Slot} {a : Nat} (hi : heads fs sel [c] disk i = some a) :
      Chain (nextOf fs disk) Eoc a [a] := .step (hone i a hi).1.not_eoc (.done (hone i a hi).2)
  have hhead : heads fs sel [c] disk none = some c := by rw [heads_none, hroot]
  refine ⟨hm, by rw [hroot]; exact hchain hhead, fun {i a} hi => (hone i a hi).1.not_eoc, fun {i a} hi => ?_,
    fun {i k a b l m} hik hi hk hl hl' x hx hx' => ?_⟩
  · exact ⟨_, hchain hi, by simpa using (hone i a hi).1⟩
  · rw [hl.unique (hchain hi), List.mem_singleton] at hx
    rw [hl'.unique (hchain hk), List.mem_singleton] at hx'
    subst hx
    subst hx'
    exact hik (hinj i k x hi hk)

theorem label_heads {i : Option Slot} {a : Nat} (h : heads sampleFs sel [2] labelDisk i = some a) :
    i = none ∧ a = 2 := by
  rcases i with _ | s
  · exact ⟨rfl, (Option.some.inj h).symm⟩
  · obtain ⟨hs, hlive, -, h2, -⟩ := heads_some.mp h
    obtain rfl := label_live s hs hlive
    exact absurd h2 (by decide)

theorem label_volume : Volume sampleFs sel [2] labelDisk := by
  refine volume_of_singles sample_mounted rfl (fun i a hi => ?_) fun i k a hi hk => ?_
  · obtain ⟨-, rfl⟩ := label_heads hi
    exact ⟨by decide, by decide⟩
  · exact (label_heads hi).1.trans (label_heads hk).1.symm

theorem label_rootFiles : RootFiles sampleFs [2] labelDisk := by
  refine ⟨label_volume, fun s hs hfile => ?_, fun s hs hfile l hchain => ?_⟩
  · obtain rfl := label_live s hs hfile.1
    exact .inl (by decide)
  · obtain rfl := label_live s hs hfile.1
    rcases hchain with ⟨h2, -⟩ | ⟨-, rfl⟩
    · exact absurd h2 (by decide)
    · decide

/-- The label is opened under its name and is not listed. -/
theorem label_opened : RootFiles sampleFs [2] labelDisk ∧ NamesValid sampleFs [2] labelDisk ∧
    ¬ OpensListed sampleFs [2] ⟨labelDisk, none⟩ [97] := by
  refine ⟨label_rootFiles, fun s hs hlisted => ?_, ?_⟩
  · obtain rfl := label_live s hs hlisted.1
    exact absurd hlisted.2 (by decide)
  · have hfound : findEntry [65, 32, 32, 32, 32, 32, 32, 32, 32, 32, 32] labelDisk (slotsOf sampleFs [2]) =
        some ⟨3, 0⟩ := by decide
    exact RootFiles.opens_label (d := ⟨labelDisk, none⟩) label_rootFiles rfl (by decide) hfound (by decide)

end Armonios
