import Armonios.Fat32.DirOps
import Armonios.Fat32.Contents
import Armonios.Lib.Run

/-!
# Runs of the FAT32 driver

A run is any sequence of create, open, write, delete and rename calls on a reliable disk, with writes
through current handles and with a free cluster in the data area for each allocation. `Calls` is the
state of a run: the device and the clusters of deleted files that no later call has allocated.

* `callsStep_wellFormed`: one call keeps the chains disjoint, ended and in the data area and all FAT
  copies the same;
* `callsRun_wellFormed`: so does every run, and the clusters of a deleted file stay free until a
  create or a write takes them.
-/

namespace Armonios

variable {fs : Fat32Fs} {r : List Nat} {d : Dev}

/-- A call of the driver. A write has its handle with it. -/
inductive Call
  | create (name : List UInt8)
  | openRoot (name : List UInt8)
  | write (file : Fat32File) (offset : Nat) (buffer : List UInt8)
  | delete (name : List UInt8)
  | rename (oldName newName : List UInt8)

/-- What is left of a call: the device, whether it returned 0, the handle that a create filled or a
write changed. -/
structure Outcome where
  dev : Dev
  ok : Bool
  file : Option Fat32File

/-- The outcome of a call that returns no handle. -/
def outcome {α : Type} (res : EStateM.Result Err Dev α) : Outcome :=
  match res with
  | .ok _ d => ⟨d, true, none⟩
  | .error _ d => ⟨d, false, none⟩

def Call.run (fs : Fat32Fs) (d : Dev) : Call → Outcome
  | .create name =>
    match fat32Create fs name d with
    | .ok file d => ⟨d, true, some file⟩
    | .error _ d => ⟨d, false, none⟩
  | .openRoot name => outcome (fat32OpenRoot fs name d)
  | .write file offset buffer =>
    match fat32Write fs offset buffer ⟨file, d⟩ with
    | .ok _ t => ⟨t.dev, true, some t.file⟩
    | .error _ t => ⟨t.dev, false, some t.file⟩
  | .delete name => outcome (fat32Delete fs name d)
  | .rename oldName newName => outcome (fat32Rename fs oldName newName d)

/-- All live entries count, also those of subdirectories. -/
def allLive : UInt8 → Bool := fun _ => true

theorem allLive_selectsFiles : SelectsFiles allLive := fun _ _ => rfl

/-- A volume whose chains are disjoint, ended and in the data area, with all FAT copies the same. -/
structure WellFormed (fs : Fat32Fs) (r : List Nat) (disk : Nat → Sector) : Prop where
  volume : Volume fs allLive r disk
  copies : SameCopies fs disk

/-- The calls of a run: a write goes through a current handle, and a call that allocates finds enough
free clusters in the data area. -/
def Admissible (fs : Fat32Fs) (r : List Nat) (d : Dev) : Call → Prop
  | .create name => CreateAllocates fs r d name → FreeClusters fs d.disk 1
  | .write file offset buffer => Current fs allLive r d.disk file ∧
      ∀ l, FileChain fs d.disk file.slot l → buffer ≠ [] → offset ≤ file.size → offset ≤ file.capacity →
        FreeClusters fs d.disk (clustersFor fs (offset + buffer.length) - l.length)
  | _ => True

/-- The state of a run. -/
structure Calls where
  dev : Dev
  /-- the clusters of deleted files that have not been allocated again -/
  freed : Set Nat

/-- The clusters that a call freed: those of the file it deleted. -/
def freedBy (fs : Fat32Fs) (r : List Nat) (d : Dev) (c : Call) : Set Nat :=
  {x | ∃ name s l, c = .delete name ∧ (c.run fs d).ok = true ∧ Openable fs r d.disk name s l ∧ x ∈ l}

/-- The clusters that a call has allocated are on the chain of its handle. -/
def heldBy (fs : Fat32Fs) (out : Outcome) : Set Nat :=
  {x | ∃ file l, out.file = some file ∧ Chain (nextOf fs out.dev.disk) Eoc file.firstCluster l ∧ x ∈ l}

/-- One call. -/
def callsStep (fs : Fat32Fs) (r : List Nat) (st st' : Calls) : Prop :=
  ∃ c, Admissible fs r st.dev c ∧ st'.dev = (c.run fs st.dev).dev ∧
    st'.freed = (st.freed ∪ freedBy fs r st.dev c) \ heldBy fs (c.run fs st.dev)

/-- The invariant of a run. -/
structure CallsOk (fs : Fat32Fs) (r : List Nat) (st : Calls) : Prop where
  wellFormed : WellFormed fs r st.dev.disk
  reliable : st.dev.fault = none
  freed : ∀ x ∈ st.freed, InData fs x ∧ nextOf fs st.dev.disk x = 0

/-! ## One call -/

/-- What one call on a reliable disk does to a volume: the chains and the FAT copies stay as they
should be, and a free cluster stays free unless it is on the chain of the call's handle afterwards. -/
structure CallKeeps (fs : Fat32Fs) (r : List Nat) (d : Dev) (out : Outcome) : Prop where
  volume : Volume fs allLive r out.dev.disk
  copies : SameCopies fs d.disk → SameCopies fs out.dev.disk
  reliable : out.dev.fault = none
  free : ∀ x, InData fs x → nextOf fs d.disk x = 0 → x ∉ heldBy fs out → nextOf fs out.dev.disk x = 0

theorem callKeeps_same {d' : Dev} {ok : Bool} {file : Option Fat32File} (hv : Volume fs allLive r d.disk)
    (hd : d'.disk = d.disk) (ha : d'.armed = none) : CallKeeps fs r d ⟨d', ok, file⟩ := by
  refine ⟨?_, ?_, fault_none.mp ha, fun x _ h0 _ => ?_⟩
  · show Volume fs allLive r d'.disk
    rw [hd]
    exact hv
  · show _ → SameCopies fs d'.disk
    rw [hd]
    exact id
  · show nextOf fs d'.disk x = 0
    rw [hd]
    exact h0

/-- A call whose chains end up as `Touched`. -/
theorem callKeeps_touched {s : Slot} {l l' : List Nat} {t : OpenFile} {ok : Bool} (hd : t.dev.armed = none)
    (hcur : Current fs allLive r t.dev.disk t.file) (hslot : t.file.slot = s)
    (ht : Touched fs allLive r s l d.disk l' t.dev.disk)
    (hcop : SameCopies fs d.disk → SameCopies fs t.dev.disk) :
    CallKeeps fs r d ⟨t.dev, ok, some t.file⟩ := by
  refine ⟨ht.volume, hcop, fault_none.mp hd, fun x hx h0 hnot => ?_⟩
  show nextOf fs t.dev.disk x = 0
  rw [ht.next x hx]
  · exact h0
  · intro hxl
    rcases ht.chain with ⟨h2, hc⟩ | ⟨-, rfl⟩
    · refine hnot ⟨t.file, l', rfl, ?_, hxl⟩
      rw [hcur.first, hslot]
      exact hc
    · cases hxl

/-- The file of a current handle has a chain. -/
theorem Current.exists_chain {sel : UInt8 → Bool} {disk : Nat → Sector} {file : Fat32File}
    (hcur : Current fs sel r disk file) (hv : Volume fs sel r disk) :
    ∃ l, FileChain fs disk file.slot l := by
  by_cases h2 : 2 ≤ slotFirst disk file.slot
  · obtain ⟨l, hc, -⟩ := hv.family.chain
      (heads_some.mpr ⟨hcur.mem, hcur.live, hcur.selected, h2, rfl⟩)
    exact ⟨l, .inl ⟨h2, hc⟩⟩
  · exact ⟨[], .inr ⟨by omega, rfl⟩⟩

theorem callKeeps_write {file : Fat32File} {off : Nat} {buf : List UInt8} (hw : fs.writable)
    (hv : Volume fs allLive r d.disk) (hd : d.fault = none) (hadm : Admissible fs r d (.write file off buf)) :
    CallKeeps fs r d ((Call.write file off buf).run fs d) := by
  obtain ⟨hcur, hfree⟩ := hadm
  have hnone : d.armed = none := fault_none.mpr hd
  obtain ⟨l, hc⟩ := hcur.exists_chain hv
  have hspec := write_spec (t := ⟨file, d⟩) hw hv hcur hc (hfree l hc)
  unfold Call.run
  simp only
  split
  · rename_i n t hres
    obtain ⟨-, l', hwr⟩ := hspec.of_ok hres
    exact callKeeps_touched (by rw [hwr.armed]; exact hnone) hwr.current hwr.slot hwr.touched
      hwr.copies
  · rename_i e t hres
    obtain ⟨-, hslot, hfail⟩ := hspec.of_error hres
    simp only [hnone] at hfail
    rcases hfail with ⟨l', ht, hcur', -, hst⟩ | ⟨-, -, hst⟩ | ⟨-, hst⟩ | ⟨-, hst⟩
    · exact callKeeps_touched hst.refused.2 hcur' hslot ht hst.refused.1.1
    · exact hst.refused.1.elim
    · exact hst.refused.1.elim
    · exact hst.refused.1.elim

theorem callKeeps_create {name : List UInt8} (hw : fs.writable) (hv : Volume fs allLive r d.disk)
    (hd : d.fault = none) (hadm : Admissible fs r d (.create name)) :
    CallKeeps fs r d ((Call.create name).run fs d) := by
  have hnone : d.armed = none := fault_none.mpr hd
  have hspec := create_spec hw hv allLive_selectsFiles (takesOwn_of_free hv allLive_selectsFiles hadm)
  unfold Call.run
  simp only
  split
  · rename_i file d' hres
    obtain ⟨short, s, b, -, hcr, rfl, hcop, harm⟩ := hspec.of_ok hres
    refine ⟨hcr.volume, hcop, fault_none.mp (harm hnone).1, fun x hx h0 hnot => ?_⟩
    show nextOf fs d'.disk x = 0
    rw [hcr.next x hx]
    · exact h0
    · rintro rfl
      exact hnot ⟨_, [x], rfl, .step hcr.inData.not_eoc (.done hcr.last), by simp⟩
  · rename_i e d' hres
    obtain ⟨-, h⟩ := hspec.of_error hres
    rw [hnone] at h
    rcases h with ⟨hdisk, hst⟩ | ⟨-, hst⟩
    · exact callKeeps_same hv hdisk hst.refused.2
    · exact hst.refused.1.elim

theorem callKeeps_delete {name : List UInt8} (hw : fs.writable) (hv : Volume fs allLive r d.disk)
    (hd : d.fault = none) : CallKeeps fs r d ((Call.delete name).run fs d) := by
  have hnone : d.armed = none := fault_none.mpr hd
  have hspec := delete_spec hw hv allLive_selectsFiles name
  unfold Call.run outcome
  simp only
  split
  · rename_i u d' hres
    obtain ⟨s, l, -, hdel, hcop, harm⟩ := hspec.of_ok hres
    refine ⟨hdel.volume, hcop, fault_none.mp (by rw [harm, hnone]), fun x hx h0 _ => ?_⟩
    show nextOf fs d'.disk x = 0
    rw [hdel.next x hx, h0, ite_self]
  · rename_i e d' hres
    obtain ⟨-, h⟩ := hspec.of_error hres
    rw [hnone] at h
    rcases h with ⟨hdisk, hst⟩ | ⟨_, _, -, -, -, hst⟩ | ⟨_, _, -, -, -, hst⟩
    · exact callKeeps_same hv hdisk hst.refused.2
    · exact hst.refused.1.elim
    · exact hst.refused.1.elim

/-- A deleted file's chain is free afterwards. -/
theorem freedBy_free {c : Call} {x : Nat} (hw : fs.writable) (hv : Volume fs allLive r d.disk)
    (hx : x ∈ freedBy fs r d c) : InData fs x ∧ nextOf fs (c.run fs d).dev.disk x = 0 := by
  obtain ⟨name, s, l, rfl, hok, ho, hxl⟩ := hx
  have hspec := delete_spec hw hv allLive_selectsFiles name
  unfold Call.run outcome at hok ⊢
  simp only at hok ⊢
  split at hok
  · rename_i u d' hres
    obtain ⟨s', l', ho', hdel, -, -⟩ := hspec.of_ok hres
    obtain ⟨rfl, rfl⟩ := ho.unique ho'
    have hxd : InData fs x := by
      rcases ho.chain with ⟨h2, hc⟩ | ⟨-, rfl⟩
      · exact hv.family.ok_of_mem
          (heads_of_file allLive_selectsFiles ho.mem ho.live ho.isFile h2) hc hxl
      · cases hxl
    refine ⟨hxd, ?_⟩
    show nextOf fs d'.disk x = 0
    rw [hdel.next x hxd, if_pos hxl]
  · cases hok

theorem callKeeps_rename {oldName newName : List UInt8} (hw : fs.writable)
    (hv : Volume fs allLive r d.disk) (hd : d.fault = none) :
    CallKeeps fs r d ((Call.rename oldName newName).run fs d) := by
  have hnone : d.armed = none := fault_none.mpr hd
  have hspec := rename_spec hw hv allLive_selectsFiles oldName newName
  unfold Call.run outcome
  simp only
  split
  · rename_i u d' hres
    obtain ⟨short, s, l, -, -, hren, hcop, harm⟩ := hspec.of_ok hres
    refine ⟨hren.volume, hcop, fault_none.mp (harm hnone).1, fun x hx h0 _ => ?_⟩
    show nextOf fs d'.disk x = 0
    rw [hren.next x hx, h0]
  · rename_i e d' hres
    obtain ⟨-, hdisk, hst⟩ := hspec.of_error hres
    rw [hnone] at hst
    exact callKeeps_same hv hdisk hst.refused.2

theorem callKeeps_open {name : List UInt8} (hv : Volume fs allLive r d.disk) (hd : d.fault = none) :
    CallKeeps fs r d ((Call.openRoot name).run fs d) := by
  have hnone : d.armed = none := fault_none.mpr hd
  have hspec := openRoot_spec hv allLive_selectsFiles name
  unfold Call.run outcome
  simp only
  split
  · rename_i file d' hres
    obtain ⟨hdisk, harm, -⟩ := hspec.of_ok hres
    exact callKeeps_same hv hdisk (by rw [harm, hnone])
  · rename_i e d' hres
    obtain ⟨-, hdisk, hst⟩ := hspec.of_error hres
    rw [hnone] at hst
    exact callKeeps_same hv hdisk hst.refused.2

/-- Without a write callback no call changes the device, and no delete succeeds. -/
theorem call_readOnly {c : Call} (hw : fs.writable = false) (hc : ∀ name, c ≠ .openRoot name) :
    (c.run fs d).dev = d ∧ (c.run fs d).ok = false := by
  cases c with
  | create name =>
    have hspec : Wp (fat32Create fs name) d (fun _ _ => False) fun _ d' => d' = d := by
      unfold fat32Create
      refine wp_guard (fun _ => ?_) fun h => ?_
      · rfl
      · exact absurd (Or.inr hw) h
    unfold Call.run
    simp only
    split
    · exact (hspec.of_ok ‹_›).elim
    · exact ⟨hspec.of_error ‹_›, rfl⟩
  | openRoot name => exact absurd rfl (hc name)
  | write file off buf =>
    have hspec : Wp (fat32Write fs off buf) ⟨file, d⟩ (fun _ _ => False) fun _ t => t.dev = d :=
      wp_bind.mpr (wp_get.mpr (wp_guard (fun _ => rfl) fun h => absurd (Or.inr (Or.inl hw)) h))
    unfold Call.run
    simp only
    split
    · exact (hspec.of_ok ‹_›).elim
    · exact ⟨hspec.of_error ‹_›, rfl⟩
  | delete name =>
    have hspec : Wp (fat32Delete fs name) d (fun _ _ => False) fun _ d' => d' = d := by
      unfold fat32Delete
      refine wp_guard (fun _ => ?_) fun h => ?_
      · rfl
      · exact absurd (Or.inr (Or.inl hw)) h
    unfold Call.run outcome
    simp only
    split
    · exact (hspec.of_ok ‹_›).elim
    · exact ⟨hspec.of_error ‹_›, rfl⟩
  | rename oldName newName =>
    have hspec : Wp (fat32Rename fs oldName newName) d (fun _ _ => False) fun _ d' => d' = d := by
      unfold fat32Rename
      refine wp_guard (fun _ => ?_) fun h => ?_
      · rfl
      · exact absurd (Or.inr hw) h
    unfold Call.run outcome
    simp only
    split
    · exact (hspec.of_ok ‹_›).elim
    · exact ⟨hspec.of_error ‹_›, rfl⟩

theorem callKeeps {c : Call} (hv : Volume fs allLive r d.disk) (hd : d.fault = none)
    (hadm : Admissible fs r d c) : CallKeeps fs r d (c.run fs d) := by
  by_cases hopen : ∃ name, c = .openRoot name
  · obtain ⟨name, rfl⟩ := hopen
    exact callKeeps_open hv hd
  by_cases hw : fs.writable = true
  · cases c with
    | create name => exact callKeeps_create hw hv hd hadm
    | openRoot name => exact callKeeps_open hv hd
    | write file off buf => exact callKeeps_write hw hv hd hadm
    | delete name => exact callKeeps_delete hw hv hd
    | rename oldName newName => exact callKeeps_rename hw hv hd
  · have hro := (call_readOnly (d := d) (by simpa using hw) fun name h => hopen ⟨name, h⟩).1
    refine ⟨by rw [hro]; exact hv, by rw [hro]; exact id, by rw [hro]; exact hd, fun x _ h0 _ => by rw [hro]; exact h0⟩

/-! ## Runs -/

theorem callsStep_wellFormed {st st' : Calls} (h : CallsOk fs r st) (hstep : callsStep fs r st st') :
    CallsOk fs r st' := by
  obtain ⟨c, hadm, hdev, hfreed⟩ := hstep
  have hk := callKeeps h.wellFormed.volume h.reliable hadm
  refine ⟨by rw [hdev]; exact ⟨hk.volume, hk.copies h.wellFormed.copies⟩, by rw [hdev]; exact hk.reliable,
    fun x hx => ?_⟩
  rw [hfreed] at hx
  rw [hdev]
  obtain ⟨hx | hx, hnot⟩ := hx
  · obtain ⟨hxd, h0⟩ := h.freed x hx
    exact ⟨hxd, hk.free x hxd h0 hnot⟩
  · by_cases hw : fs.writable = true
    · exact freedBy_free hw h.wellFormed.volume hx
    · obtain ⟨name, s, l, rfl, hok, -⟩ := hx
      rw [(call_readOnly (by simpa using hw) fun name h => by cases h).2] at hok
      cases hok

/-- From a well-formed volume on a reliable disk, after any run of calls: the chains of the root
directory and of all live entries are disjoint, without a cycle (`Chain.nodup`), ended and in the data
area, all FAT copies are the same, and the clusters of deleted files are free until a call allocates
them. -/
theorem callsRun_wellFormed {st : Calls} (hwf : WellFormed fs r d.disk) (hd : d.fault = none)
    (hrun : Run (callsStep fs r) ⟨d, ∅⟩ st) :
    WellFormed fs r st.dev.disk ∧ ∀ x ∈ st.freed, nextOf fs st.dev.disk x = 0 := by
  have hstart : CallsOk fs r ⟨d, ∅⟩ := ⟨hwf, hd, fun x hx => hx.elim⟩
  have h := Run.invariant (CallsOk fs r) (fun _ _ => callsStep_wellFormed) hstart hrun
  exact ⟨h.wellFormed, fun x hx => (h.freed x hx).2⟩

theorem sample_sameCopies : SameCopies sampleFs sampleDisk := by
  intro k hk i hi
  have hk' : k = 0 ∨ k = 1 := by simp only [sampleFs] at hk; omega
  have hi' : i = 0 := by simp only [sampleFs] at hi; omega
  subst hi'
  rcases hk' with rfl | rfl <;> rfl

/-- Deleting the file of the small volume. -/
theorem callsRun_wellFormed_sample : ∃ st : Calls, WellFormed sampleFs [2] st.dev.disk ∧ 3 ∈ st.freed ∧
    nextOf sampleFs st.dev.disk 3 = 0 := by
  let d : Dev := ⟨sampleDisk, none⟩
  let c : Call := .delete [97]
  let st : Calls := ⟨(c.run sampleFs d).dev, (∅ ∪ freedBy sampleFs [2] d c) \ heldBy sampleFs (c.run sampleFs d)⟩
  have hok : (c.run sampleFs d).ok = true := by decide +kernel
  have hfile : (c.run sampleFs d).file = none := by decide +kernel
  have hfreed : 3 ∈ st.freed := by
    refine ⟨.inr ⟨[97], ⟨3, 0⟩, [3], rfl, hok, sample_openable, by simp⟩, ?_⟩
    rintro ⟨file, l, hf, -⟩
    rw [hfile] at hf
    cases hf
  have h := callsRun_wellFormed (d := d) ⟨sample_volume allLive, sample_sameCopies⟩ rfl
    (Relation.ReflTransGen.single (b := st) ⟨c, trivial, rfl, rfl⟩)
  exact ⟨st, h.1, hfreed, h.2 3 hfreed⟩

end Armonios
