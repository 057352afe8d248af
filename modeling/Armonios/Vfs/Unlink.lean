import Armonios.Vfs.Handle
import Armonios.Fat32.Faults

/-!
# Unlinking through the VFS

After `vfs_unlink` a path should be gone: opening it fails until it is created again, and nobody who
had it open reaches the clusters or the directory entry of another file (`UnlinkHolds`).

`vfs_unlink` deletes the file on the disk and leaves its VFS nodes with their handles. So it is
right only for a path that has no node and a file that no node is mounted for (`UnlinkMeets`), and
then it stays right as long as every write goes through a handle that agrees with the disk.

* `vfsRun_unlinkHolds`: in every run of such calls.
-/

namespace Armonios

variable {τ ρ : Type} {fs : Fat32Fs} {other : Callbacks τ ρ} {r : List Nat} {v v' : FatVfs τ ρ}

/-- The nodes for the file of a path: those under the path and those whose handle is on its
directory entry. -/
def nodesOf (fs : Fat32Fs) (r : List Nat) (v : FatVfs τ ρ) (path : Path) : Set Nat :=
  {k | ∃ node, v.nodes[k]? = some node ∧ (node.path = path ∨ ∃ i file name s l, node.context = .fat i ∧
    v.world.files[i]? = some file ∧ vfsFat32RootName path = some name ∧
    Openable fs r v.world.dev.disk name s l ∧ file.slot = s)}

/-- The call made a file with the short name `w`. -/
def Creates (fs : Fat32Fs) (other : Callbacks τ ρ) (r : List Nat) (v : FatVfs τ ρ) (op : VfsOp)
    (w : List UInt8) : Prop :=
  (∃ path flags name, op = .openFlags path flags ∧ flags &&& vfsOCreat ≠ 0 ∧
    vfsFat32RootName path = some name ∧ makeShortName name = some w ∧
    ∃ s l, Openable fs r (op.next fs other v).world.dev.disk name s l) ∨
  (∃ oldPath path name, op = .rename oldPath path ∧ op.ok fs other v = true ∧
    vfsFat32RootName path = some name ∧ makeShortName name = some w)

/-- The state of a run: the VFS, the paths that were unlinked and not created again, and the nodes
that were there for a path when it was unlinked. -/
structure VfsRun (τ ρ : Type) where
  vfs : FatVfs τ ρ
  unlinked : Set Path
  stale : Set Nat

/-- The paths that a call unlinks. -/
def unlinkedBy (fs : Fat32Fs) (other : Callbacks τ ρ) (v : FatVfs τ ρ) (op : VfsOp) : Set Path :=
  {p | op = .unlink p ∧ op.ok fs other v = true}

/-- The paths whose file a call makes. -/
def createdBy (fs : Fat32Fs) (other : Callbacks τ ρ) (r : List Nat) (v : FatVfs τ ρ) (op : VfsOp) : Set Path :=
  {p | ∃ name w, vfsFat32RootName p = some name ∧ makeShortName name = some w ∧ Creates fs other r v op w}

/-- One call that satisfies `cond`. -/
def vfsStep (fs : Fat32Fs) (other : Callbacks τ ρ) (r : List Nat) (cond : FatVfs τ ρ → VfsOp → Prop)
    (st st' : VfsRun τ ρ) : Prop :=
  ∃ op, Supplied fs r st.vfs op ∧ cond st.vfs op ∧ st'.vfs = op.next fs other st.vfs ∧
    st'.unlinked = (st.unlinked ∪ unlinkedBy fs other st.vfs op) \ createdBy fs other r st.vfs op ∧
    st'.stale = st.stale ∪ {k | ∃ p ∈ unlinkedBy fs other st.vfs op, k ∈ nodesOf fs r st.vfs p}

/-- A handle cannot reach a file that is not its own: its directory slot is not in use again, and no
cluster on its walk is on the walk of a live entry. -/
def Harmless (fs : Fat32Fs) (r : List Nat) (disk : Nat → Sector) (file : Fat32File) : Prop :=
  ¬Live disk file.slot ∧ ∀ t ∈ slotsOf fs r, Live disk t → ∀ x, OnFile fs disk t x →
    ¬Reaches (nextOf fs disk) WalkEnd file.firstCluster x

/-- What unlinking should give (module doc). -/
structure UnlinkHolds (fs : Fat32Fs) (r : List Nat) (st : VfsRun τ ρ) : Prop where
  gone : ∀ p ∈ st.unlinked, ∀ flags : UInt32, flags &&& vfsOCreat = 0 →
    ∃ v', vfsOpenFlags fs p flags st.vfs = .error .fail v'
  apart : ∀ k ∈ st.stale, ∀ node i file, st.vfs.nodes[k]? = some node → node.context = .fat i →
    st.vfs.world.files[i]? = some file → Harmless fs r st.vfs.world.dev.disk file

/-- The condition on a call: an unlink finds no node for its file, and a write goes through a handle
that agrees with the disk. -/
def UnlinkMeets (fs : Fat32Fs) (r : List Nat) (v : FatVfs τ ρ) (op : VfsOp) : Prop :=
  (∀ p, op = .unlink p → nodesOf fs r v p = ∅) ∧
    ∀ i off buf file, op.fatWrite v = some (i, off, buf) → v.world.files[i]? = some file →
      ∃ l, FreshHandle fs r v.world.dev.disk file l

/-! ## The invariant -/

/-- A path is gone: it has no node and the directory has no file of its name. -/
def Gone (fs : Fat32Fs) (r : List Nat) (v : FatVfs τ ρ) (p : Path) : Prop :=
  ∃ name w, vfsFat32RootName p = some name ∧ makeShortName name = some w ∧ vfsFind v.nodes p = none ∧
    ∀ s ∈ slotsOf fs r, ¬Hit w v.world.dev.disk s

structure UnlinkInv (fs : Fat32Fs) (r : List Nat) (st : VfsRun τ ρ) : Prop where
  fat : FatOk fs r st.vfs.world.dev
  gone : ∀ p ∈ st.unlinked, Gone fs r st.vfs p
  stale : st.stale = ∅

/-- Opening a path that is gone fails. -/
theorem Gone.open_fails {p : Path} {flags : UInt32} (h : Gone fs r v p) (hok : FatOk fs r v.world.dev)
    (hc : flags &&& vfsOCreat = 0) : ∃ v', vfsOpenFlags fs p flags v = .error .fail v' := by
  obtain ⟨name, w, hname, hw, hfind, hhit⟩ := h
  have hno : ¬∃ s l, Openable fs r v.world.dev.disk name s l := by
    rintro ⟨s, l, ho⟩
    exact hhit s ho.mem (ho.hit hw)
  have hspec : Wp (vfsOpenFlags fs p flags) v (fun _ _ => False) fun e _ => e = .fail := by
    unfold vfsOpenFlags
    refine wp_guard (fun _ => rfl) fun _ => wp_bind.mpr (wp_get.mpr ?_)
    simp only [hfind]
    refine wp_bind.mpr ?_
    unfold vfsOpenDynamicFat32Node
    simp only [hname]
    refine wp_guard (fun _ => rfl) fun _ => wp_bind.mpr (wp_onPart.mpr (wp_onPart.mpr ?_))
    unfold lookupOrCreate
    refine wp_bind.mpr (wp_attempt.mpr (Wp.mono (openRoot_reliable hok.volume hok.reliable name) ?_ ?_))
    · intro file d h
      obtain ⟨-, s, l, ho, -⟩ := h
      exact (hno ⟨s, l, ho⟩).elim
    · intro e d h
      obtain ⟨rfl, -, -⟩ := h
      show Wp (if flags &&& vfsOCreat = 0 then _ else _) d _ _
      exact wp_guard (fun _ => rfl) fun h => absurd hc h
  unfold Wp at hspec
  split at hspec
  · exact hspec.elim
  · rename_i e v' he
    rw [hspec] at he
    exact ⟨v', he⟩

theorem UnlinkInv.holds {st : VfsRun τ ρ} (h : UnlinkInv fs r st) : UnlinkHolds fs r st := by
  refine ⟨fun p hp flags hc => (h.gone p hp).open_fails h.fat hc, fun k hk => ?_⟩
  rw [h.stale] at hk
  exact hk.elim

/-- A path stays gone while no file of its name appears and no node is mounted under it. -/
theorem Gone.keep {p : Path} (h : Gone fs r v p)
    (hhit : ∀ name w, vfsFat32RootName p = some name → makeShortName name = some w →
      ∀ s ∈ slotsOf fs r, Hit w v'.world.dev.disk s → Hit w v.world.dev.disk s)
    (hfind : vfsFind v.nodes p = none → vfsFind v'.nodes p = none) : Gone fs r v' p := by
  obtain ⟨name, w, hname, hw, hf, hh⟩ := h
  exact ⟨name, w, hname, hw, hfind hf, fun s hs hit => hh s hs (hhit name w hname hw s hs hit)⟩

theorem Gone.same {p : Path} (h : Gone fs r v p) (hs : SameFat v v') : Gone fs r v' p := by
  refine h.keep (fun _ _ _ _ s _ hit => ?_) fun hf => ?_
  · rw [hs.dev] at hit
    exact hit
  · rw [hs.nodes]
    exact hf

theorem vfsFind_append {κ : Type} {nodes : List (VfsNode κ)} {node : VfsNode κ} {p : Path}
    (h : vfsFind nodes p = none) (hne : node.path ≠ p) : vfsFind (nodes ++ [node]) p = none := by
  unfold vfsFind at h ⊢
  split
  · rfl
  · rename_i hp
    rw [if_neg hp, List.findIdx?_eq_none_iff] at h
    rw [List.findIdx?_eq_none_iff]
    intro x hx
    rcases List.mem_append.mp hx with hx | hx
    · exact h x hx
    · rw [List.mem_singleton.mp hx]
      simpa using hne

theorem vfsFind_none_of {κ : Type} {nodes : List (VfsNode κ)} {p : Path}
    (h : ∀ (k : Nat) (node : VfsNode κ), nodes[k]? = some node → node.path ≠ p) :
    vfsFind nodes p = none := by
  unfold vfsFind
  split
  · rfl
  · rw [List.findIdx?_eq_none_iff]
    intro x hx
    obtain ⟨k, hk⟩ := List.getElem?_of_mem hx
    simpa using h k x hk

/-- A mount under a path of the file's own name does not bring back a path that is gone. -/
theorem Gone.mounts {p path name n : Path} (h : Gone fs r v p) (hpath : vfsFat32RootName path = some n)
    (hname : makeShortName n = makeShortName name) (hm : Mounts fs r path name v v') : Gone fs r v' p := by
  obtain ⟨s, l, ho, hnodes, -⟩ := hm.mounted
  obtain ⟨np, w, hnp, hw, -, hh⟩ := id h
  refine h.keep (fun _ _ _ _ s _ hit => ?_) fun hf => ?_
  · rw [hm.dev] at hit
    exact hit
  · rw [hnodes]
    refine vfsFind_append hf fun he => ?_
    have he : path = p := he
    subst he
    rw [hpath] at hnp
    cases hnp
    exact hh s ho.mem (ho.hit (by rw [← hname]; exact hw))

/-! ## One call -/

/-- What one call keeps: a path that is gone stays gone unless its file is made again, and a path that
is unlinked is gone. -/
structure KeepsGone (fs : Fat32Fs) (other : Callbacks τ ρ) (r : List Nat) (v : FatVfs τ ρ) (op : VfsOp) :
    Prop where
  fat : FatOk fs r (op.next fs other v).world.dev
  gone : ∀ p, p ∉ createdBy fs other r v op → Gone fs r v p → Gone fs r (op.next fs other v) p
  unlinked : ∀ p ∈ unlinkedBy fs other v op, Gone fs r (op.next fs other v) p

theorem keepsGone_same {op : VfsOp} (hok : FatOk fs r v.world.dev)
    (hno : ∀ p, p ∉ unlinkedBy fs other v op) (hs : SameFat v (op.next fs other v)) :
    KeepsGone fs other r v op := by
  refine ⟨by rw [hs.dev]; exact hok, fun p _ hp => hp.same hs, fun p hp => absurd hp (hno p)⟩

theorem keepsGone_unlink {q : Path} (hok : FatOk fs r v.world.dev) (hnodes : nodesOf fs r v q = ∅) :
    KeepsGone fs other r v (.unlink q) := by
  rcases unlink_effect other q hok with ⟨hret, hs⟩ | ⟨-, name, s, l, d, hname, ho, hdel, hfat, hv'⟩
  · refine keepsGone_same hok (fun p hp => ?_) hs
    rw [hp.2] at hret
    cases hret
  have hdev : ((VfsOp.unlink q).next fs other v).world.dev = d := by rw [hv']; rfl
  have hsame : ((VfsOp.unlink q).next fs other v).nodes = v.nodes := by rw [hv']; rfl
  have hback : ∀ w, ∀ t ∈ slotsOf fs r, Hit w d.disk t → t ≠ s ∧ Hit w v.world.dev.disk t := by
    intro w t ht hit
    have hts : t ≠ s := by
      rintro rfl
      exact hit.1.2.1 hdel.mark
    exact ⟨hts, (hdel.others t ht hts).hit.mp hit⟩
  refine ⟨by rw [hdev]; exact hfat, fun p _ hp => ?_, fun p hp => ?_⟩
  · refine hp.keep (fun _ w _ _ t ht hit => ?_) fun hf => by rw [hsame]; exact hf
    rw [hdev] at hit
    exact (hback w t ht hit).2
  · cases hp.1
    obtain ⟨w, hw, -⟩ := ho.found
    refine ⟨name, w, hname, hw, vfsFind_none_of fun k node hk he => ?_, fun t ht hit => ?_⟩
    · have hmem : k ∈ nodesOf fs r v q := ⟨node, by rw [← hsame]; exact hk, .inl he⟩
      rw [hnodes] at hmem
      exact hmem
    · rw [hdev] at hit
      obtain ⟨hts, hit⟩ := hback w t ht hit
      exact hts (hok.tidy.unique ht ho.mem hit (ho.hit hw))

/-- A path that is gone is gone on the disk of an open that has not made its file. -/
theorem Gone.opened {p path name : Path} {flags : UInt32} {d : Dev} (h : Gone fs r v p)
    (hok : FatOk fs r d)
    (hd : d = v.world.dev ∨ (flags &&& vfsOCreat ≠ 0 ∧ NewFile fs r name v.world.dev d))
    (hdev : ((VfsOp.openFlags path flags).next fs other v).world.dev = d)
    (hname : vfsFat32RootName path = some name)
    (hnot : p ∉ createdBy fs other r v (.openFlags path flags)) : Gone fs r (withDev v d) p := by
  refine h.keep (fun np w hnp hw s hs hit => ?_) id
  have hit : Hit w d.disk s := hit
  rcases hd with rfl | ⟨hc, ⟨w', s', b, hw', hcr⟩, -⟩
  · exact hit
  by_cases hss : s = s'
  · subst hss
    have hww : w' = w := by rw [← hcr.name]; exact hit.2.2
    subst hww
    obtain ⟨l, hl, -⟩ := hok.volume.fileChain allLive_selectsFiles hs hit.1 hit.2.1
    have hmade : Creates fs other r v (.openFlags path flags) w' := by
      refine .inl ⟨path, flags, name, rfl, hc, hname, hw', s, l, ?_⟩
      rw [hdev]
      exact hok.tidy.openable hs hw' hit hl
    exact absurd ⟨np, w', hnp, hw, hmade⟩ hnot
  · exact (hcr.others s hs hss).hit.mp hit

theorem keepsGone_open {path : Path} {flags : UInt32} (hok : FatOk fs r v.world.dev)
    (hsup : Supplied fs r v (.openFlags path flags)) : KeepsGone fs other r v (.openFlags path flags) := by
  have hno : ∀ p, p ∉ unlinkedBy fs other v (.openFlags path flags) := fun p hp => by cases hp.1
  rcases openFlags_effect other path flags hok hsup with
    hs | ⟨name, d, hname, -, hfat, hd, hrest⟩
  · exact keepsGone_same hok hno hs
  have hdev : ((VfsOp.openFlags path flags).next fs other v).world.dev = d := by
    rcases hrest with hs | ⟨v₁, hm, hs⟩
    · exact hs.dev
    · rw [hs.dev, hm.dev]
      rfl
  refine ⟨by rw [hdev]; exact hfat, fun p hnot hp => ?_, fun p hp => absurd hp (hno p)⟩
  have hgone := hp.opened hfat hd hdev hname hnot
  rcases hrest with hs | ⟨v₁, hm, hs⟩
  · exact hgone.same hs
  · exact (hgone.mounts hname rfl hm).same hs

theorem keepsGone_rename {oldPath newPath : Path} (hok : FatOk fs r v.world.dev) :
    KeepsGone fs other r v (.rename oldPath newPath) := by
  have hno : ∀ p, p ∉ unlinkedBy fs other v (.rename oldPath newPath) := fun p hp => by cases hp.1
  rcases rename_effect other oldPath newPath hok with
    ⟨-, hs⟩ | ⟨hret, newName, w, s, d, hname, hw, hren, hfat, hv'⟩
  · exact keepsGone_same hok hno hs
  have hdev : ((VfsOp.rename oldPath newPath).next fs other v).world.dev = d := by rw [hv']; rfl
  refine ⟨by rw [hdev]; exact hfat, fun p hnot hp => ?_, fun p hp => absurd hp (hno p)⟩
  refine hp.keep (fun np wp hnp hwp t ht hit => ?_) fun hf => by rw [hv']; exact hf
  rw [hdev] at hit
  by_cases hts : t = s
  · subst hts
    have hww : w = wp := by rw [← hren.name]; exact hit.2.2
    subst hww
    exact absurd ⟨np, w, hnp, hwp, .inr ⟨oldPath, newPath, newName, rfl, hret, hname, hw⟩⟩ hnot
  · exact (hren.upd.entries t ht hts).hit.mp hit

theorem keepsGone_mount {path name : Path} (hok : FatOk fs r v.world.dev)
    (hsup : Supplied fs r v (.mountFile path name)) : KeepsGone fs other r v (.mountFile path name) := by
  have hno : ∀ p, p ∉ unlinkedBy fs other v (.mountFile path name) := fun p hp => by cases hp.1
  obtain ⟨n, hn, hnn⟩ := hsup
  rcases mountFile_effect other path name hok with hs | hm
  · exact keepsGone_same hok hno hs
  · exact ⟨by rw [hm.dev]; exact hok, fun p _ hp => hp.mounts hn hnn hm, fun p hp => absurd hp (hno p)⟩

theorem keepsGone_write {op : VfsOp} (hok : FatOk fs r v.world.dev)
    (hno : ∀ p, p ∉ unlinkedBy fs other v op)
    (heff : WriteEffect fs op v (op.ok fs other v) (op.next fs other v))
    (hfresh : ∀ i off buf file, op.fatWrite v = some (i, off, buf) → v.world.files[i]? = some file →
      ∃ l, FreshHandle fs r v.world.dev.disk file l ∧
        FreeClusters fs v.world.dev.disk (clustersFor fs (off + buf.length) - l.length)) :
    KeepsGone fs other r v op := by
  rcases heff with ⟨-, hs⟩ | ⟨i, off, buf, hw, ⟨-, hs⟩ | ⟨file, ok, -, hwr⟩⟩
  · exact keepsGone_same hok hno hs
  · exact keepsGone_same hok hno hs
  obtain ⟨t, hran, -, hdev⟩ := hwr.ran
  obtain ⟨l, hf, hfree⟩ := hfresh i off buf file hw hwr.handle
  obtain ⟨l', hfw⟩ := freshWrite (t := ⟨file, v.world.dev⟩) hok hf hfree hran
  refine ⟨by rw [hdev]; exact hfw.fat, fun p _ hp => ?_, fun p hp => absurd hp (hno p)⟩
  refine hp.keep (fun _ w _ _ s hs hit => ?_) fun hf => by rw [hwr.nodes]; exact hf
  rw [hdev] at hit
  exact (hfw.touched.hit hs).mp hit

theorem keepsGone {op : VfsOp} (hok : FatOk fs r v.world.dev) (hsup : Supplied fs r v op)
    (hmeets : UnlinkMeets fs r v op) : KeepsGone fs other r v op := by
  have hquiet : op.readOnly = true → KeepsGone fs other r v op := fun hro => by
    refine keepsGone_same hok (fun p hp => ?_) (readOnly_same hro hok.reliable)
    rw [hp.1] at hro
    cases hro
  cases op with
  | unlink q => exact keepsGone_unlink hok (hmeets.1 q rfl)
  | openFlags path flags => exact keepsGone_open hok hsup
  | rename oldPath newPath => exact keepsGone_rename hok
  | mountFile path name => exact keepsGone_mount hok hsup
  | write path off buf =>
    refine keepsGone_write hok (fun p hp => by cases hp.1) (write_effect path off buf hok.reliable) ?_
    intro i o b file hw hf
    obtain ⟨l, hl⟩ := hmeets.2 i o b file hw hf
    exact ⟨l, hl, hsup i o b file l hw hf hl⟩
  | writeFd fd buf =>
    refine keepsGone_write hok (fun p hp => by cases hp.1) (writeFd_effect fd buf hok.reliable) ?_
    intro i o b file hw hf
    obtain ⟨l, hl⟩ := hmeets.2 i o b file hw hf
    exact ⟨l, hl, hsup i o b file l hw hf hl⟩
  | read path off cap => exact hquiet rfl
  | stat path => exact hquiet rfl
  | readFd fd cap => exact hquiet rfl
  | seek fd off => exact hquiet rfl
  | close fd => exact hquiet rfl

/-! ## Runs -/

theorem vfsStep_unlinkInv {st st' : VfsRun τ ρ} (h : UnlinkInv fs r st)
    (hstep : vfsStep fs other r (UnlinkMeets fs r) st st') : UnlinkInv fs r st' := by
  obtain ⟨op, hsup, hmeets, hvfs, hun, hst⟩ := hstep
  have hk : KeepsGone fs other r st.vfs op := keepsGone h.fat hsup hmeets
  refine ⟨by rw [hvfs]; exact hk.fat, fun p hp => ?_, ?_⟩
  · rw [hun] at hp
    rw [hvfs]
    obtain ⟨hp | hp, hnot⟩ := hp
    · exact hk.gone p hnot (h.gone p hp)
    · exact hk.unlinked p hp
  · rw [hst, h.stale, Set.empty_union, Set.eq_empty_iff_forall_notMem]
    intro k hk
    obtain ⟨p, ⟨hp, -⟩, hk⟩ := hk
    rw [hmeets.1 p hp] at hk
    exact hk

/-- From a reliable device with a well-formed volume and a tidy directory: in every run of VFS calls
that find their free clusters and in which every unlink finds no node for its file and every write
goes through a handle that agrees with the disk, unlinked paths are gone. -/
theorem vfsRun_unlinkHolds {st : VfsRun τ ρ} (hok : FatOk fs r v.world.dev)
    (hrun : Run (vfsStep fs other r (UnlinkMeets fs r)) ⟨v, ∅, ∅⟩ st) : UnlinkHolds fs r st := by
  have hstart : UnlinkInv fs r (⟨v, ∅, ∅⟩ : VfsRun τ ρ) := ⟨hok, fun p hp => hp.elim, rfl⟩
  exact (Run.invariant (UnlinkInv fs r) (fun _ _ => vfsStep_unlinkInv) hstart hrun).holds

/-- A call from a state of a run, with what it unlinks and creates. -/
def VfsRun.after (fs : Fat32Fs) (other : Callbacks τ ρ) (r : List Nat) (st : VfsRun τ ρ) (op : VfsOp) :
    VfsRun τ ρ where
  vfs := op.next fs other st.vfs
  unlinked := (st.unlinked ∪ unlinkedBy fs other st.vfs op) \ createdBy fs other r st.vfs op
  stale := st.stale ∪ {k | ∃ p ∈ unlinkedBy fs other st.vfs op, k ∈ nodesOf fs r st.vfs p}

@[simp] theorem VfsRun.after_vfs (st : VfsRun τ ρ) (op : VfsOp) :
    (st.after fs other r op).vfs = op.next fs other st.vfs := rfl

theorem mem_after_unlink {st : VfsRun τ ρ} {p : Path} (hret : (VfsOp.unlink p).ok fs other st.vfs = true) :
    p ∈ (st.after fs other r (.unlink p)).unlinked := by
  refine ⟨.inr ⟨rfl, hret⟩, ?_⟩
  rintro ⟨name, w, -, -, ⟨_, _, _, h, -⟩ | ⟨_, _, _, h, -⟩⟩ <;> cases h

theorem supplied_unlink {p : Path} : Supplied fs r v (.unlink p) := by
  intro i off buf file l h
  cases h

/-- Unlinking the file of the small volume before anybody opens it. -/
theorem vfsRun_unlinkHolds_sample : ∃ v', vfsOpenFlags sampleFs samplePath 0
    ((VfsOp.unlink samplePath).next sampleFs noOther sampleVfs) = .error .fail v' := by
  let st : VfsRun Unit Unit := ⟨sampleVfs, ∅, ∅⟩
  have hmeets : UnlinkMeets sampleFs [2] sampleVfs (.unlink samplePath) := by
    refine ⟨fun p _ => ?_, fun i off buf file h => by cases h⟩
    rw [Set.eq_empty_iff_forall_notMem]
    rintro k ⟨node, hk, -⟩
    cases hk
  have hstep : vfsStep sampleFs noOther [2] (UnlinkMeets sampleFs [2]) st
      (st.after sampleFs noOther [2] (.unlink samplePath)) :=
    ⟨.unlink samplePath, supplied_unlink, hmeets, rfl, rfl, rfl⟩
  have h := vfsRun_unlinkHolds sample_fatOk (Relation.ReflTransGen.single hstep)
  have hret : (VfsOp.unlink samplePath).ok sampleFs noOther sampleVfs = true := by decide +kernel
  obtain ⟨v', hv'⟩ := h.gone samplePath (mem_after_unlink hret) 0 (by decide)
  rw [VfsRun.after_vfs] at hv'
  exact ⟨v', hv'⟩

/-- Opening the file, unlinking it and opening it again: the node is still there. -/
theorem unlink_leaves_node : ¬∀ st : VfsRun Unit Unit,
    Run (vfsStep sampleFs noOther [2] fun _ _ => True) ⟨sampleVfs, ∅, ∅⟩ st → UnlinkHolds sampleFs [2] st := by
  intro hall
  let st₀ : VfsRun Unit Unit := ⟨sampleVfs, ∅, ∅⟩
  let st₁ := st₀.after sampleFs noOther [2] (.openFlags samplePath 0)
  let st₂ := st₁.after sampleFs noOther [2] (.unlink samplePath)
  have hopen : vfsStep sampleFs noOther [2] (fun _ _ => True) st₀ st₁ :=
    ⟨.openFlags samplePath 0, fun name _ _ h => absurd rfl h, trivial, rfl, rfl, rfl⟩
  have hunlink : vfsStep sampleFs noOther [2] (fun _ _ => True) st₁ st₂ :=
    ⟨.unlink samplePath, supplied_unlink, trivial, rfl, rfl, rfl⟩
  have h := hall st₂ ((Relation.ReflTransGen.single hopen).tail hunlink)
  have hret : (VfsOp.unlink samplePath).ok sampleFs noOther st₁.vfs = true := by decide +kernel
  obtain ⟨v', hv'⟩ := h.gone samplePath (mem_after_unlink hret) 0 (by decide)
  have hagain : isOk (vfsOpenFlags sampleFs samplePath 0) st₂.vfs = true := by decide +kernel
  unfold isOk at hagain
  rw [hv'] at hagain
  cases hagain

end Armonios
