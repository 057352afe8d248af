import Armonios.Fat32.TableSpec

/-!
# What the directory functions do

A search of the root directory visits the slots of its chain in order (`scanSlots`), so a lookup has
a result that depends on the disk only: `fat32_open_root` succeeds on the entries that are `Openable`
and returns the handle `handleOf`. A patch of a directory entry changes its own 32 bytes
(`SlotUpd`).

* `openRoot_spec`, `findFreeDirEntry_spec`: the searches;
* `patchSlot_spec`, `SlotUpd`: the update of an entry and what it keeps;
* `Volume.of_slotUpd`: an update that keeps the head of the entry.
-/

namespace Armonios

variable {fs : Fat32Fs} {sel : UInt8 → Bool} {r : List Nat} {disk disk' : Nat → Sector} {d : Dev}
  {c : Nat} {s t : Slot} {σ α : Type} {visit : σ → Slot → Sector → Scan σ α}

/-! ## Searches -/

/-- A search over a list of slots. -/
def scanSlots (visit : σ → Slot → Sector → Scan σ α) (disk : Nat → Sector) :
    List Slot → σ → Scan σ α
  | [], st => .next st
  | s :: ss, st =>
    match visit st s (disk s.lba) with
    | .next st => scanSlots visit disk ss st
    | .exit a => .exit a

/-- Two searches one after the other. -/
def Scan.andThen (r : Scan σ α) (k : σ → Scan σ α) : Scan σ α :=
  match r with
  | .next st => k st
  | .exit a => .exit a

theorem scanSlots_append (ss ts : List Slot) (st : σ) :
    scanSlots visit disk (ss ++ ts) st = (scanSlots visit disk ss st).andThen (scanSlots visit disk ts) := by
  induction ss generalizing st with
  | nil => rfl
  | cons s ss ih =>
    simp only [List.cons_append, scanSlots]
    cases visit st s (disk s.lba) with
    | next st => exact ih st
    | exit a => rfl

theorem scanEntries_eq (lba : Nat) (offs : List Nat) (st : σ) :
    scanEntries visit lba (disk lba) offs st = scanSlots visit disk (offs.map (Slot.mk lba)) st := by
  induction offs generalizing st with
  | nil => rfl
  | cons off offs ih =>
    simp only [List.map_cons, scanEntries, scanSlots]
    cases visit st ⟨lba, off⟩ (disk lba) with
    | next st => exact ih st
    | exit a => rfl

theorem scanSectors_spec (hm : Mounted fs) (hc : InData fs c) {is : List Nat} {st : σ}
    (his : ∀ i ∈ is, i < fs.sectorsPerCluster) :
    ReadsTo (scanSectors fs visit c is st) {.dirScan} False d (fun res => res =
      scanSlots visit d.disk ((is.map (lbaOf fs c + ·)).flatMap fun lba => entryOffsets.map (Slot.mk lba))
        st) := by
  induction is generalizing st d with
  | nil => exact ReadsTo.pure rfl
  | cons i is ih =>
    have hi := his i (by simp)
    unfold scanSectors
    simp only [hm.clusterToLba hc hi]
    refine ReadsTo.bind (readSector_spec fun _ => hc.lba_lt hi) fun sec d1 h1 _ hs => ?_
    rw [hs, scanEntries_eq, List.map_cons, List.flatMap_cons, scanSlots_append]
    cases scanSlots visit d.disk (entryOffsets.map (Slot.mk (lbaOf fs c + i))) st with
    | next st =>
      refine (ih fun j hj => his j (by simp [hj])).mono (fun _ h => h) id fun res h => ?_
      rw [h, h1]
      rfl
    | exit a => exact ReadsTo.pure rfl

theorem scanClusters_spec (hm : Mounted fs) {l : List Nat} {a fuel : Nat} {st : σ}
    (hc : Chain (nextOf fs d.disk) Eoc a l) (hl : ∀ y ∈ l, InData fs y) (hfuel : l.length < fuel) :
    ReadsTo (scanClusters fs visit fuel a st) {.dirScan, .lookup} False d
      (fun res => res = scanSlots visit d.disk (slotsOf fs l) st) := by
  induction l generalizing a fuel st d with
  | nil =>
    obtain ⟨fuel, rfl⟩ : ∃ f, fuel = f + 1 := ⟨fuel - 1, by simp at hfuel; omega⟩
    have : ¬(2 ≤ a ∧ clusterIsEoc a = false) := by
      have := hc.stop_of_nil
      simp [clusterIsEoc, this]
    unfold scanClusters
    simp only [this, if_false]
    exact ReadsTo.pure rfl
  | cons b l ih =>
    obtain rfl := hc.head_eq
    obtain ⟨fuel, rfl⟩ : ∃ f, fuel = f + 1 := ⟨fuel - 1, by omega⟩
    have ha := hl a (by simp)
    unfold scanClusters
    simp only [ha.ge, ha.clusterIsEoc, and_self, if_true]
    refine ReadsTo.bind ((scanSectors_spec hm ha fun i hi => List.mem_range.mp hi).mono (by simp) id
      fun _ h => h) fun res d1 h1 _ hres => ?_
    have hsplit : slotsOf fs (a :: l) = ((List.range fs.sectorsPerCluster).map (lbaOf fs a + ·)).flatMap
        (fun lba => entryOffsets.map (Slot.mk lba)) ++ slotsOf fs l := by
      simp [slotsOf, chainLbas, cellLbas, List.flatMap_append]
    rw [hsplit, scanSlots_append, ← hres]
    cases res with
    | next st =>
      have hread := readFatEntry_spec .lookup d1 hm ha
        (by rw [h1]; exact next_ne_bad hc hl (by simp))
      refine ReadsTo.bind (hread.mono (by simp) id fun _ h => h) fun v d2 h2 _ hv => ?_
      have hc' : Chain (nextOf fs d2.disk) Eoc v l := by rw [hv, h2, h1]; exact hc.tail
      refine (ih hc' (fun y hy => hl y (by simp [hy])) (by simp at hfuel; omega)).mono
        (fun _ h => h) id fun res h => ?_
      rw [h, h2, h1]
      rfl
    | exit a => exact ReadsTo.pure rfl

theorem scanRoot_spec (hv : Volume fs sel r d.disk) {st : σ} :
    ReadsTo (scanRoot fs visit st) {.dirScan, .lookup} False d
      (fun res => res = scanSlots visit d.disk (slotsOf fs r) st) :=
  scanClusters_spec hv.geometry hv.root (fun _ h => hv.inData_root h)
    (chain_length_lt hv.root fun _ h => hv.inData_root h)

/-! ## Opening -/

/-- The entry that a lookup of `wanted` finds. -/
def findEntry (wanted : List UInt8) (disk : Nat → Sector) (slots : List Slot) : Option Slot :=
  match scanSlots (openVisit wanted) disk slots () with
  | .exit (some (s, _)) => some s
  | _ => none

theorem openVisit_hit {wanted : List UInt8} {u : Unit} {sec : Sector} {p : Slot × Sector}
    (h : openVisit wanted u s sec = .exit (some p)) :
    p = (s, sec) ∧ entryMark sec s.offset ≠ 0x00 ∧ entryMark sec s.offset ≠ 0xe5 ∧
      entryAttr sec s.offset ≠ attrLongName ∧ isFile (entryAttr sec s.offset) = true ∧
      entryName sec s.offset = wanted := by
  unfold openVisit at h
  split at h
  · cases h
  split at h
  · cases h
  split at h
  · cases h
  rename_i h1 h2 h3
  cases h
  simp only [not_or, not_not] at h2 h3
  exact ⟨rfl, h1, h2.1, h2.2.1, by simp [isFile, h2.2.2], h3⟩

theorem scanSlots_hit {wanted : List UInt8} {slots : List Slot} {p : Slot × Sector}
    (h : scanSlots (openVisit wanted) disk slots () = .exit (some p)) :
    p.1 ∈ slots ∧ p.2 = disk p.1.lba ∧ Live disk p.1 ∧
      isFile (entryAttr (disk p.1.lba) p.1.offset) = true ∧
      entryName (disk p.1.lba) p.1.offset = wanted := by
  induction slots with
  | nil => cases h
  | cons s ss ih =>
    simp only [scanSlots] at h
    split at h
    · obtain ⟨h1, h2⟩ := ih h
      exact ⟨List.mem_cons_of_mem _ h1, h2⟩
    · rename_i hv
      cases h
      obtain ⟨rfl, h1, h2, h3, h4, h5⟩ := openVisit_hit hv
      exact ⟨by simp, rfl, ⟨h1, h2, h3⟩, h4, h5⟩

theorem findEntry_some {wanted : List UInt8} {slots : List Slot}
    (h : findEntry wanted disk slots = some s) :
    s ∈ slots ∧ Live disk s ∧ isFile (entryAttr (disk s.lba) s.offset) = true ∧
      entryName (disk s.lba) s.offset = wanted := by
  unfold findEntry at h
  split at h
  · rename_i s' sec he
    cases h
    obtain ⟨h1, -, h3⟩ := scanSlots_hit he
    exact ⟨h1, h3⟩
  · cases h

/-- One round of a lookup. -/
theorem findEntry_cons (wanted : List UInt8) (disk : Nat → Sector) (s : Slot) (ss : List Slot) :
    findEntry wanted disk (s :: ss) =
      if entryMark (disk s.lba) s.offset = 0x00 then none
      else if (entryMark (disk s.lba) s.offset = 0xe5 ∨ entryAttr (disk s.lba) s.offset = attrLongName ∨
          entryAttr (disk s.lba) s.offset &&& attrDirectory ≠ 0) ∨
          entryName (disk s.lba) s.offset ≠ wanted then findEntry wanted disk ss
      else some s := by
  unfold findEntry
  simp only [scanSlots]
  by_cases h0 : entryMark (disk s.lba) s.offset = 0x00
  · simp only [openVisit, h0, if_true]
  by_cases h1 : entryMark (disk s.lba) s.offset = 0xe5 ∨ entryAttr (disk s.lba) s.offset = attrLongName ∨
      entryAttr (disk s.lba) s.offset &&& attrDirectory ≠ 0
  · simp only [openVisit, h0, h1, if_true, if_false, true_or]
  by_cases h2 : entryName (disk s.lba) s.offset = wanted
  · simp only [openVisit, h0, h1, h2, if_false, or_false, ne_eq, not_true_eq_false]
  · simp only [openVisit, h0, h1, h2, if_false, if_true, or_true, ne_eq, not_false_eq_true]

/-- An entry that a lookup of `wanted` takes. -/
def Hit (wanted : List UInt8) (disk : Nat → Sector) (s : Slot) : Prop :=
  Live disk s ∧ isFile (entryAttr (disk s.lba) s.offset) = true ∧
    entryName (disk s.lba) s.offset = wanted

/-- A lookup takes the first hit before the end mark. -/
theorem findEntry_eq_some {wanted : List UInt8} {slots : List Slot} :
    findEntry wanted disk slots = some s ↔ Hit wanted disk s ∧ ∃ xs ys, slots = xs ++ s :: ys ∧
      ∀ u ∈ xs, entryMark (disk u.lba) u.offset ≠ 0x00 ∧ ¬Hit wanted disk u := by
  induction slots with
  | nil => simp [findEntry, scanSlots]
  | cons t ts ih =>
    rw [findEntry_cons]
    constructor
    · intro h
      split at h
      · cases h
      rename_i h0
      split at h
      · rename_i hmiss
        obtain ⟨hhit, xs, ys, rfl, hxs⟩ := ih.mp h
        refine ⟨hhit, t :: xs, ys, rfl, List.forall_mem_cons.mpr ⟨⟨h0, fun ht => ?_⟩, hxs⟩⟩
        obtain ⟨⟨-, h2, h3⟩, h4, h5⟩ := ht
        simp only [isFile, decide_eq_true_eq] at h4
        simp [h2, h3, h4, h5] at hmiss
      · rename_i hmiss
        simp only [not_or, not_not] at hmiss
        cases h
        exact ⟨⟨⟨h0, hmiss.1.1, hmiss.1.2.1⟩, by simp [isFile, hmiss.1.2.2], hmiss.2⟩, [], ts, rfl, by simp⟩
    · rintro ⟨hhit, xs, ys, he, hxs⟩
      cases xs with
      | nil =>
        cases he
        obtain ⟨⟨h1, h2, h3⟩, h4, h5⟩ := hhit
        simp only [isFile, decide_eq_true_eq] at h4
        rw [if_neg h1, if_neg]
        simp [h2, h3, h4, h5]
      | cons u xs =>
        cases he
        obtain ⟨⟨h0, hmiss⟩, hxs⟩ := List.forall_mem_cons.mp hxs
        rw [if_neg h0, if_pos]
        · exact ih.mpr ⟨hhit, xs, ys, rfl, hxs⟩
        · by_contra hno
          simp only [not_or, not_not] at hno
          exact hmiss ⟨⟨h0, hno.1.1, hno.1.2.1⟩, by simp [isFile, hno.1.2.2], hno.2⟩

/-- A lookup depends on the marks, the attributes and the names only. -/
theorem findEntry_congr {wanted : List UInt8} {slots : List Slot}
    (h : ∀ s ∈ slots, entryMark (disk' s.lba) s.offset = entryMark (disk s.lba) s.offset ∧
      entryAttr (disk' s.lba) s.offset = entryAttr (disk s.lba) s.offset ∧
      entryName (disk' s.lba) s.offset = entryName (disk s.lba) s.offset) :
    findEntry wanted disk' slots = findEntry wanted disk slots := by
  induction slots with
  | nil => rfl
  | cons s ss ih =>
    obtain ⟨h1, h2, h3⟩ := h s (by simp)
    rw [findEntry_cons, findEntry_cons, h1, h2, h3, ih fun t ht => h t (by simp [ht])]

/-- The chain of a live entry; an entry without a first cluster has none. -/
def FileChain (fs : Fat32Fs) (disk : Nat → Sector) (s : Slot) (l : List Nat) : Prop :=
  (2 ≤ slotFirst disk s ∧ Chain (nextOf fs disk) Eoc (slotFirst disk s) l) ∨
    (slotFirst disk s < 2 ∧ l = [])

theorem FileChain.unique {l l' : List Nat} (h : FileChain fs disk s l)
    (h' : FileChain fs disk s l') : l' = l := by
  rcases h with ⟨h1, h2⟩ | ⟨h1, h2⟩ <;> rcases h' with ⟨k1, k2⟩ | ⟨k1, k2⟩
  · exact k2.unique h2
  · omega
  · omega
  · rw [h2, k2]

theorem FileChain.congr {l : List Nat} (h : FileChain fs disk s l)
    (hf : slotFirst disk' s = slotFirst disk s) (hn : ∀ x ∈ l, nextOf fs disk' x = nextOf fs disk x) :
    FileChain fs disk' s l := by
  unfold FileChain
  rw [hf]
  exact h.imp_left fun h => ⟨h.1, h.2.congr hn⟩

/-- The entry that `fat32_open_root` opens under a name, and its chain. -/
structure Openable (fs : Fat32Fs) (r : List Nat) (disk : Nat → Sector) (name : List UInt8) (s : Slot)
    (l : List Nat) : Prop where
  found : ∃ wanted, makeShortName name = some wanted ∧ findEntry wanted disk (slotsOf fs r) = some s
  chain : FileChain fs disk s l
  start : slotSize disk s = 0 ∨ 2 ≤ slotFirst disk s
  fits : l.length * clusterBytesOf fs ≤ 0xffffffff

/-- The handle of an entry. -/
def handleOf (fs : Fat32Fs) (disk : Nat → Sector) (s : Slot) (l : List Nat) : Fat32File where
  firstCluster := slotFirst disk s
  dirLba := s.lba
  dirOffset := s.offset
  capacity := l.length * clusterBytesOf fs
  size := slotSize disk s

@[simp] theorem handleOf_slot (fs : Fat32Fs) (disk : Nat → Sector) (s : Slot) (l : List Nat) :
    (handleOf fs disk s l).slot = s := rfl

theorem Openable.mem {name : List UInt8} {l : List Nat} (h : Openable fs r disk name s l) :
    s ∈ slotsOf fs r := by
  obtain ⟨w, -, hf⟩ := h.found
  exact (findEntry_some hf).1

theorem Openable.live {name : List UInt8} {l : List Nat} (h : Openable fs r disk name s l) :
    Live disk s := by
  obtain ⟨w, -, hf⟩ := h.found
  exact (findEntry_some hf).2.1

theorem Openable.isFile {name : List UInt8} {l : List Nat} (h : Openable fs r disk name s l) :
    isFile (entryAttr (disk s.lba) s.offset) = true := by
  obtain ⟨w, -, hf⟩ := h.found
  exact (findEntry_some hf).2.2.1

theorem Openable.unique {name : List UInt8} {l l' : List Nat} {s' : Slot}
    (h : Openable fs r disk name s l) (h' : Openable fs r disk name s' l') : s' = s ∧ l' = l := by
  obtain ⟨w, hw, hf⟩ := h.found
  obtain ⟨w', hw', hf'⟩ := h'.found
  rw [hw] at hw'
  cases hw'
  rw [hf] at hf'
  cases hf'
  exact ⟨rfl, h.chain.unique h'.chain⟩

/-- The volume selects at least the files. -/
abbrev SelectsFiles (sel : UInt8 → Bool) : Prop := ∀ a, isFile a = true → sel a = true

/-- A live file with a first cluster is a head of the volume. -/
theorem heads_of_file (hsel : SelectsFiles sel) (hs : s ∈ slotsOf fs r) (hl : Live disk s)
    (hf : isFile (entryAttr (disk s.lba) s.offset) = true) (h2 : 2 ≤ slotFirst disk s) :
    heads fs sel r disk (some s) = some (slotFirst disk s) :=
  heads_some.mpr ⟨hs, hl, hsel _ hf, h2, rfl⟩

/-- Every live file of a volume has a chain. -/
theorem Volume.fileChain (h : Volume fs sel r disk) (hsel : SelectsFiles sel) (hs : s ∈ slotsOf fs r)
    (hl : Live disk s) (hf : isFile (entryAttr (disk s.lba) s.offset) = true) :
    ∃ l, FileChain fs disk s l ∧ ∀ x ∈ l, InData fs x := by
  by_cases h2 : 2 ≤ slotFirst disk s
  · obtain ⟨l, hc, hok⟩ := h.family.chain (heads_of_file hsel hs hl hf h2)
    exact ⟨l, .inl ⟨h2, hc⟩, hok⟩
  · exact ⟨[], .inr ⟨by omega, rfl⟩, by simp⟩

theorem openEntry_spec (hm : Mounted fs) {l : List Nat} (hc : FileChain fs d.disk s l)
    (hl : ∀ x ∈ l, InData fs x) :
    ReadsTo (openEntry fs s (d.disk s.lba)) {.lookup}
      ((slotSize d.disk s ≠ 0 ∧ slotFirst d.disk s < 2) ∨ 0xffffffff < l.length * clusterBytesOf fs) d
      (fun file => file = handleOf fs d.disk s l ∧ (slotSize d.disk s = 0 ∨ 2 ≤ slotFirst d.disk s) ∧
        l.length * clusterBytesOf fs ≤ 0xffffffff) := by
  unfold openEntry
  refine ReadsTo.guard (fun h => .inl h) fun hs => ?_
  have hs' : slotSize d.disk s = 0 ∨ 2 ≤ slotFirst d.disk s := by
    by_contra h
    rw [not_or] at h
    exact hs ⟨h.1, Nat.lt_of_not_le h.2⟩
  by_cases h2 : 2 ≤ slotFirst d.disk s
  · rcases hc with ⟨-, hc⟩ | ⟨h, -⟩
    · rw [if_pos h2]
      refine ReadsTo.bind ((fileChainCapacity_spec hm hc hl h2).mono (fun _ h => h) .inr fun _ h => h)
        fun cap d1 h1 _ hcap => ReadsTo.pure ⟨?_, hs', by omega⟩
      rw [hcap.1]
      rfl
    · omega
  · rcases hc with ⟨h, -⟩ | ⟨-, rfl⟩
    · omega
    · rw [if_neg h2]
      refine ReadsTo.bind (ReadsTo.pure (P := fun cap => cap = 0) rfl) fun cap d1 _ _ hcap =>
        ReadsTo.pure ⟨?_, hs', by simp⟩
      rw [hcap]
      simp [handleOf, slotFirst, slotSize]

/-- The sites of `fat32_open_root`. -/
def openSites : Set Site := {.dirScan, .lookup}

theorem openRoot_spec (hv : Volume fs sel r d.disk) (hsel : SelectsFiles sel) (name : List UInt8) :
    ReadsTo (fat32OpenRoot fs name) openSites (¬∃ s l, Openable fs r d.disk name s l) d
      (fun file => ∃ s l, Openable fs r d.disk name s l ∧ (∀ x ∈ l, InData fs x) ∧
        file = handleOf fs d.disk s l) := by
  unfold fat32OpenRoot
  refine ReadsTo.guard (fun h => absurd h (by rw [hv.geometry.mounted]; decide)) fun _ => ?_
  cases hn : makeShortName name with
  | none =>
    refine ReadsTo.fail ?_
    rintro ⟨s, l, h⟩
    obtain ⟨w, hw, -⟩ := h.found
    rw [hn] at hw
    cases hw
  | some wanted =>
    refine ReadsTo.bind ((scanRoot_spec hv).mono (fun _ h => h) (fun h => h.elim) fun _ h => h)
      fun res d1 h1 _ hres => ?_
    have hnone : (∀ p, res ≠ .exit (some p)) → ¬∃ s l, Openable fs r d.disk name s l := by
      rintro hne ⟨s, l, h⟩
      obtain ⟨w, hw, hf⟩ := h.found
      rw [hn] at hw
      cases hw
      unfold findEntry at hf
      rw [← hres] at hf
      split at hf
      · exact hne _ rfl
      · cases hf
    rcases res with _ | (_ | ⟨s, sec⟩)
    · exact ReadsTo.fail (hnone (by simp))
    · exact ReadsTo.fail (hnone (by simp))
    · obtain ⟨hs, hsec, hlive, hfile, -⟩ := scanSlots_hit hres.symm
      simp only at hs hsec hlive hfile
      obtain ⟨l, hc, hl⟩ := hv.fileChain hsel hs hlive hfile
      have hfound : ∃ w, makeShortName name = some w ∧ findEntry w d.disk (slotsOf fs r) = some s :=
        ⟨wanted, hn, by rw [findEntry, ← hres]⟩
      simp only [hsec]
      rw [← h1] at hc ⊢
      refine (openEntry_spec hv.geometry hc hl).mono (by simp [openSites]) ?_ ?_
      · rw [h1] at hc ⊢
        rintro hbad ⟨s', l', h⟩
        have := h.found
        obtain ⟨w, hw, hf⟩ := hfound
        obtain ⟨w', hw', hf'⟩ := h.found
        rw [hw] at hw'
        cases hw'
        rw [hf] at hf'
        cases hf'
        have hl' : l' = l := by
          rcases h.chain with ⟨k1, k2⟩ | ⟨k1, k2⟩ <;> rcases hc with ⟨q1, q2⟩ | ⟨q1, q2⟩
          · exact k2.unique q2
          · omega
          · omega
          · rw [q2, k2]
        subst hl'
        have h1 := h.start
        have h2 := h.fits
        omega
      · rintro file ⟨he, hst, hfit⟩
        rw [h1] at hc he hst ⊢
        exact ⟨s, l, ⟨hfound, hc, hst, hfit⟩, hl, he⟩

/-! ## Free slots -/

/-- A slot that `fat32_create` may fill. -/
def FreeSlot (disk : Nat → Sector) (s : Slot) : Prop :=
  entryMark (disk s.lba) s.offset = 0x00 ∨ entryMark (disk s.lba) s.offset = 0xe5

/-- `s` is the first free slot. -/
def FirstFree (disk : Nat → Sector) (slots : List Slot) (s : Slot) : Prop :=
  FreeSlot disk s ∧ ∃ xs ys, slots = xs ++ s :: ys ∧ ∀ u ∈ xs, ¬FreeSlot disk u

theorem FirstFree.mem {slots : List Slot} (h : FirstFree disk slots s) : s ∈ slots := by
  obtain ⟨-, xs, ys, rfl, -⟩ := h
  simp

theorem scanSlots_free {slots : List Slot} {u : Unit}
    (h : scanSlots freeVisit disk slots u = .exit s) : FirstFree disk slots s := by
  induction slots generalizing u with
  | nil => cases h
  | cons t ts ih =>
    simp only [scanSlots, freeVisit] at h
    split at h
    · rename_i he
      split at he
      · cases he
      · rename_i hmark
        obtain ⟨hfree, xs, ys, rfl, hxs⟩ := ih h
        exact ⟨hfree, t :: xs, ys, rfl, List.forall_mem_cons.mpr ⟨hmark, hxs⟩⟩
    · rename_i he
      split at he
      · rename_i hmark
        cases he
        cases h
        exact ⟨hmark, [], ts, rfl, by simp⟩
      · cases he

theorem findFreeDirEntry_spec (hv : Volume fs sel r d.disk) :
    ReadsTo (findFreeDirEntry fs) openSites True d (FirstFree d.disk (slotsOf fs r)) := by
  unfold findFreeDirEntry
  refine ReadsTo.bind ((scanRoot_spec hv).mono (fun _ h => h) (fun h => h.elim) fun _ h => h)
    fun res d1 h1 _ hres => ?_
  cases res with
  | next st => exact ReadsTo.fail trivial
  | exit s => exact ReadsTo.pure (scanSlots_free hres.symm)

/-! ## Updating an entry -/

/-- Between two disks only the entry `s` of the root directory changed. -/
structure SlotUpd (fs : Fat32Fs) (r : List Nat) (s : Slot) (disk disk' : Nat → Sector) : Prop where
  other : ∀ lba, lba ≠ s.lba → disk' lba = disk lba
  entries : ∀ t ∈ slotsOf fs r, t ≠ s → SameEntry disk disk' t

/-- The bytes of a sector after the patches of an entry. -/
def editSector (off : Nat) (edits : List (Nat × List UInt8)) (sec : Sector) : Sector :=
  edits.foldl (fun s e => s.patch (off + e.1) e.2) sec

theorem editSector_out {off i : Nat} {edits : List (Nat × List UInt8)} {sec : Sector}
    (he : ∀ e ∈ edits, e.1 + e.2.length ≤ 32) (hi : i < off ∨ off + 32 ≤ i) :
    (editSector off edits sec).byte i = sec.byte i := by
  unfold editSector
  induction edits generalizing sec with
  | nil => rfl
  | cons e es ih =>
    rw [List.foldl_cons, ih fun e' h => he e' (by simp [h])]
    have := he e (by simp)
    exact sec.byte_patch_out (by omega)

theorem slotUpd_edit (hs : s ∈ slotsOf fs r) {edits : List (Nat × List UInt8)}
    (he : ∀ e ∈ edits, e.1 + e.2.length ≤ 32) :
    SlotUpd fs r s disk (putSector disk s.lba (editSector s.offset edits (disk s.lba))) := by
  refine ⟨fun lba h => putSector_ne _ _ h, fun t ht hne => ?_⟩
  by_cases hl : t.lba = s.lba
  · intro i hi
    rw [hl, putSector_same]
    have := slots_apart ht hs hne hl
    exact editSector_out he (by omega)
  · exact SameEntry.of_eq (putSector_ne _ _ hl)

theorem SlotUpd.next (h : SlotUpd fs r s disk disk') (hm : Mounted fs) (hs : s ∈ slotsOf fs r)
    {x : Nat} (hx : InData fs x) : nextOf fs disk' x = nextOf fs disk x := by
  have h1 := dataBase_le_of_mem (mem_slotsOf.mp hs).1
  have h2 := (hx.fatSector hm hm.fats_pos).2
  unfold nextOf fatAt
  rw [h.other _ (by omega)]

/-- The entries of the copies are outside the directory. -/
theorem SlotUpd.sameCopies (h : SlotUpd fs r s disk disk') (hs : s ∈ slotsOf fs r)
    (hc : SameCopies fs disk) : SameCopies fs disk' := by
  intro k hk i hi
  have h1 := dataBase_le_of_mem (mem_slotsOf.mp hs).1
  have hkm : (k + 1) * fs.sectorsPerFat ≤ fs.fatCount * fs.sectorsPerFat := Nat.mul_le_mul_right _ hk
  rw [Nat.add_mul, Nat.one_mul] at hkm
  unfold dataBase at h1
  rw [h.other _ (by omega), h.other _ (by omega)]
  exact hc k hk i hi

/-- The sites of a patch of an entry. -/
def slotSites (use : SlotUse) : Set Site := {.slotRead use, .slotWrite use}

theorem patchSlot_spec {use : SlotUse} {edits : List (Nat × List UInt8)} (hm : fs.mounted)
    (hw : fs.writable) (hl : s.lba < fs.totalSectors) :
    Wp (patchSlot fs use s edits) d
      (fun _ d' => d'.disk = putSector d.disk s.lba (editSector s.offset edits (d.disk s.lba)) ∧
        d'.armed = d.armed)
      (fun e d' => e = .fail ∧ d'.disk = d.disk ∧ Stopped (slotSites use) False d.armed d') := by
  unfold patchSlot
  refine (readSector_spec fun _ => hl).wp_bind (fun sec d1 h1 a1 hs => ?_) fun d' h1 s1 => ?_
  · refine wp_writeSector hw hm hl (fun d2 h2 a2 => ⟨?_, by rw [a2, a1]⟩) fun d2 h2 s2 => ?_
    · rw [h2, h1, hs]
      rfl
    · rw [a1] at s2
      exact ⟨rfl, by rw [h2, h1], s2.mono (by simp [slotSites]) id⟩
  · exact ⟨rfl, h1, s1.mono (by simp [slotSites]) id⟩

/-- An update of an entry that keeps its head keeps the volume. -/
theorem Volume.of_slotUpd (h : Volume fs sel r disk) (hs : s ∈ slotsOf fs r)
    (hu : SlotUpd fs r s disk disk')
    (hh : heads fs sel r disk' (some s) = heads fs sel r disk (some s)) : Volume fs sel r disk' := by
  have hn := fun x hx => hu.next h.geometry hs (x := x) hx
  have hheads : heads fs sel r disk' = heads fs sel r disk := by
    funext i
    rcases i with _ | t
    · rfl
    · by_cases ht : t = s
      · rw [ht, hh]
      · exact heads_congr fun hmem => hu.entries t hmem ht
  refine ⟨h.geometry, h.root.congr fun y hy => hn y (h.inData_root hy), ?_⟩
  rw [hheads]
  exact h.family.congr_next fun i a l x hi hl hx => hn x (h.family.ok_of_mem hi hl hx)

/-- An update of an entry that takes its head away. -/
theorem Volume.drop_slot (h : Volume fs sel r disk) (hs : s ∈ slotsOf fs r)
    (hu : SlotUpd fs r s disk disk') (hh : heads fs sel r disk' (some s) = none) :
    Volume fs sel r disk' := by
  have hn := fun x hx => hu.next h.geometry hs (x := x) hx
  have hsub : ∀ i a, heads fs sel r disk' i = some a → heads fs sel r disk i = some a := by
    rintro (_ | t) a ha
    · exact ha
    · by_cases ht : t = s
      · rw [ht, hh] at ha
        cases ha
      · rw [← heads_congr fun hmem => hu.entries t hmem ht]
        exact ha
  refine ⟨h.geometry, h.root.congr fun y hy => hn y (h.inData_root hy), ?_⟩
  exact (h.family.congr_next fun i a l x hi hl hx => hn x (h.family.ok_of_mem hi hl hx)).restrict hsub

end Armonios
