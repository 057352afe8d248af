import Armonios.Vfs.Fat
import Armonios.Fat32.Reliable

/-!
# What the VFS calls do to the FAT files

A VFS call can leave the nodes, the handles and the volume alone (`SameFat`), write through one
handle (`FatWrote`), mount a file that it may have created (`Opened`), or delete or rename a file.

* `readOnly_same`: the calls that only read;
* `writeNode_effect`: the writes;
* `openFlags_effect`, `mountVfsFile_effect`;
* `unlink_effect`, `vfsRename_effect`.
-/

namespace Armonios

variable {τ ρ α : Type} {fs : Fat32Fs} {other : Callbacks τ ρ} {r : List Nat} {v v' v'' : FatVfs τ ρ}

/-- The FAT part of the state is the same: nodes, handles, device. -/
structure SameFat (v v' : FatVfs τ ρ) : Prop where
  nodes : v'.nodes = v.nodes
  files : v'.world.files = v.world.files
  dev : v'.world.dev = v.world.dev

theorem SameFat.refl (v : FatVfs τ ρ) : SameFat v v := ⟨rfl, rfl, rfl⟩

theorem SameFat.trans (h : SameFat v v') (h' : SameFat v' v'') : SameFat v v'' :=
  ⟨h'.nodes.trans h.nodes, h'.files.trans h.files, h'.dev.trans h.dev⟩

/-- A program that leaves the FAT part alone, whether it returns or not. -/
def Silent (m : FatVfsM τ ρ α) : Prop :=
  ∀ v, v.world.dev.fault = none → Wp m v (fun _ v' => SameFat v v') fun _ v' => SameFat v v'

section Silent

variable {β : Type} {m : FatVfsM τ ρ α} {f : α → FatVfsM τ ρ β}

theorem Silent.pure (a : α) : Silent (pure a : FatVfsM τ ρ α) := fun v _ => .refl v

theorem Silent.error (e : Err) : Silent (throw e : FatVfsM τ ρ α) := fun v _ => .refl v

theorem Silent.bind (h : Silent m) (hf : ∀ a, Silent (f a)) : Silent (m >>= f) := by
  intro v hv
  refine wp_bind.mpr (Wp.mono (h v hv) (fun a v' h' => ?_) fun _ _ h' => h')
  have hv' : v'.world.dev.fault = none := by rw [h'.dev]; exact hv
  exact Wp.mono (hf a v' hv') (fun _ _ h'' => h'.trans h'') fun _ _ h'' => h'.trans h''

theorem Silent.guard {c : Prop} [Decidable c] {e : Err} {k : Unit → FatVfsM τ ρ α} (h : Silent (k ())) :
    Silent (if c then throw e >>= k else k ()) :=
  fun v hv => wp_guard (fun _ => .refl v) fun _ => h v hv

theorem Silent.get_bind {f : FatVfs τ ρ → FatVfsM τ ρ α} (h : ∀ w, Silent (f w)) :
    Silent (get >>= f) := fun v hv => wp_bind.mpr (wp_get.mpr (h v v hv))

/-- A change of the descriptors. -/
theorem Silent.descriptors (g : Vfs (FatCtx τ) (FatWorld ρ) → Vector (Option VfsOpenFile) vfsMaxOpenFiles) :
    Silent (modify fun v => { v with openFiles := g v } : FatVfsM τ ρ Unit) :=
  fun _ _ => wp_modify.mpr ⟨rfl, rfl, rfl⟩

/-! ## The callbacks -/

theorem wp_onFatFile {i : Nat} {m : FileIo α} {w : FatWorld ρ} {file : Fat32File}
    {Q : α → FatWorld ρ → Prop} {E : Err → FatWorld ρ → Prop} (hi : w.files[i]? = some file) :
    Wp (onFatFile i m) w Q E ↔ Wp m ⟨file, w.dev⟩
      (fun a t => Q a { w with files := w.files.set i t.file, dev := t.dev })
      (fun e t => E e { w with files := w.files.set i t.file, dev := t.dev }) := by
  have h : onFatFile i m w = onPart (fun w => ⟨file, w.dev⟩)
      (fun w t => { w with files := w.files.set i t.file, dev := t.dev }) m w := by
    unfold onFatFile
    rw [hi]
  unfold Wp
  rw [h]
  exact wp_onPart (m := m)

theorem wp_onFatFile_none {i : Nat} {m : FileIo α} {w : FatWorld ρ} {Q : α → FatWorld ρ → Prop}
    {E : Err → FatWorld ρ → Prop} (hi : w.files[i]? = none) (h : E .fail w) :
    Wp (onFatFile i m) w Q E := by
  unfold Wp onFatFile
  rw [hi]
  exact h

theorem set_same {files : List Fat32File} {i : Nat} {file : Fat32File} (h : files[i]? = some file) :
    files.set i file = files := by
  obtain ⟨hi, rfl⟩ := List.getElem?_eq_some_iff.mp h
  exact List.set_getElem_self hi

theorem silent_onRest (m : EStateM Err ρ α) : Silent (onWorld (onRest m) : FatVfsM τ ρ α) := by
  intro v _
  refine wp_onPart.mpr (wp_onPart.mpr ?_)
  unfold Wp
  split
  · exact ⟨rfl, rfl, rfl⟩
  · exact ⟨rfl, rfl, rfl⟩

/-- A program on a handle that leaves the handle and the device alone. -/
theorem silent_onFatFile {i : Nat} {m : FileIo α}
    (h : ∀ t : OpenFile, t.dev.fault = none → Wp m t (fun _ t' => t' = t) fun _ t' => t' = t) :
    Silent (onWorld (onFatFile i m) : FatVfsM τ ρ α) := by
  intro v hv
  refine wp_onPart.mpr ?_
  cases hi : v.world.files[i]? with
  | none => exact wp_onFatFile_none hi ⟨rfl, rfl, rfl⟩
  | some file =>
    refine (wp_onFatFile hi).mpr (Wp.mono (h ⟨file, v.world.dev⟩ hv) ?_ ?_)
    · intro a t ht
      rw [ht]
      exact ⟨rfl, set_same hi, rfl⟩
    · intro e t ht
      rw [ht]
      exact ⟨rfl, set_same hi, rfl⟩

theorem silent_read (ctx : FatCtx τ) (off cap : Nat) :
    Silent (onWorld ((fatCallbacks fs other).read ctx off cap) : FatVfsM τ ρ _) := by
  cases ctx with
  | other ctx => exact silent_onRest _
  | fat i =>
    refine silent_onFatFile fun t ht => wp_bind.mpr (wp_get.mpr (wp_onPart.mpr ?_))
    refine Wp.mono (fat32Read_quiet t.file off cap t.dev ht) ?_ ?_
    · intro bs d h
      rw [h]
    · intro e d h
      rw [h]

theorem silent_stat (ctx : FatCtx τ) :
    Silent (onWorld ((fatCallbacks fs other).stat ctx) : FatVfsM τ ρ _) := by
  cases ctx with
  | other ctx => exact silent_onRest _
  | fat i => exact silent_onFatFile fun t ht => wp_bind.mpr (wp_get.mpr (wp_pure.mpr rfl))

theorem silent_nodeSize (node : VfsNode (FatCtx τ)) : Silent (vfsNodeSize (fatCallbacks fs other) node) := by
  unfold vfsNodeSize
  split
  · exact silent_stat _
  · exact Silent.pure _

theorem silent_nodeOf (path : Path) : Silent (vfsNodeOf path : FatVfsM τ ρ _) := by
  refine Silent.get_bind fun w => ?_
  simp only
  split
  · exact Silent.pure _
  · exact Silent.error _

theorem silent_fdNode (fd : Int) : Silent (vfsFdNode fd : FatVfsM τ ρ _) := by
  refine Silent.get_bind fun w => ?_
  split
  · exact Silent.error _
  · split
    · exact Silent.error _
    · exact Silent.pure _

theorem silent_readNode (node : VfsNode (FatCtx τ)) (off cap : Nat) :
    Silent (readNode (fatCallbacks fs other) node off cap) := by
  unfold readNode
  refine Silent.guard ?_
  refine Silent.bind (silent_nodeSize node) fun size => ?_
  refine Silent.guard ?_
  refine Silent.bind (silent_read _ _ _) fun bytes => ?_
  refine Silent.guard ?_
  exact Silent.pure _

theorem silent_openNode (index : Nat) (mode : UInt32) : Silent (vfsOpenNode index mode : FatVfsM τ ρ _) := by
  intro v _
  unfold vfsOpenNode
  refine wp_bind.mpr (wp_get.mpr ?_)
  split
  · exact .refl v
  · refine wp_guard (fun _ => .refl v) fun _ => ?_
    split
    · exact .refl v
    · exact wp_bind.mpr (wp_set.mpr (wp_pure.mpr ⟨rfl, rfl, rfl⟩))

end Silent

/-! ## The calls -/

/-- A call of the VFS; `mountFile` is `fat32_mount_vfs_file`, which the kernel calls at boot. -/
inductive VfsOp
  | openFlags (path : Path) (flags : UInt32)
  | read (path : Path) (offset capacity : Nat)
  | write (path : Path) (offset : Nat) (buffer : List UInt8)
  | stat (path : Path)
  | readFd (fd : Int) (capacity : Nat)
  | writeFd (fd : Int) (buffer : List UInt8)
  | seek (fd : Int) (offset : Nat)
  | close (fd : Int)
  | unlink (path : Path)
  | rename (oldPath newPath : Path)
  | mountFile (path name : Path)

/-- A call without its value. -/
def VfsOp.exec (fs : Fat32Fs) (other : Callbacks τ ρ) : VfsOp → FatVfsM τ ρ Unit
  | .openFlags path flags => (fun _ => ()) <$> vfsOpenFlags fs path flags
  | .read path off cap => (fun _ => ()) <$> vfsRead (fatCallbacks fs other) path off cap
  | .write path off buf => (fun _ => ()) <$> vfsWrite (fatCallbacks fs other) path off buf
  | .stat path => (fun _ => ()) <$> vfsStat (fatCallbacks fs other) path
  | .readFd fd cap => (fun _ => ()) <$> vfsReadFd (fatCallbacks fs other) fd cap
  | .writeFd fd buf => (fun _ => ()) <$> vfsWriteFd (fatCallbacks fs other) fd buf
  | .seek fd off => vfsSeek (fatCallbacks fs other) fd off
  | .close fd => vfsClose fd
  | .unlink path => vfsUnlink fs path
  | .rename oldPath newPath => vfsRename fs oldPath newPath
  | .mountFile path name => fat32MountVfsFile fs path name

/-- The state after a call. -/
def VfsOp.next (fs : Fat32Fs) (other : Callbacks τ ρ) (op : VfsOp) (v : FatVfs τ ρ) : FatVfs τ ρ :=
  match op.exec fs other v with
  | .ok _ v' => v'
  | .error _ v' => v'

/-- Whether a call returned 0 (or a descriptor). -/
def VfsOp.ok (fs : Fat32Fs) (other : Callbacks τ ρ) (op : VfsOp) (v : FatVfs τ ρ) : Bool :=
  isOk (op.exec fs other) v

theorem VfsOp.next_of_wp {op : VfsOp} {P : Bool → FatVfs τ ρ → Prop}
    (h : Wp (op.exec fs other) v (fun _ v' => P true v') fun _ v' => P false v') :
    P (op.ok fs other v) (op.next fs other v) := by
  unfold Wp at h
  unfold VfsOp.ok isOk VfsOp.next
  split at h <;> rename_i heq <;> rw [heq] <;> exact h

/-- The FAT write that a call makes: the handle, the offset and the buffer. -/
def VfsOp.fatWrite (v : FatVfs τ ρ) (op : VfsOp) : Option (Nat × Nat × List UInt8) := do
  let (node, off, buf) ← match op with
    | .write path off buf => do
      let node ← vfsFind v.nodes path >>= (v.nodes[·]?)
      some (node, off, buf)
    | .writeFd fd buf => do
      let file ← vfsFdAt v fd
      let node ← v.nodes[file.node]?
      if file.flags = vfsORdonly then none else some (node, file.offset, buf)
    | _ => none
  match node.context with
  | .fat i => if node.write then some (i, off, buf) else none
  | .other _ => none

/-- The calls that only read. -/
def VfsOp.readOnly : VfsOp → Bool
  | .read _ _ _ => true
  | .stat _ => true
  | .readFd _ _ => true
  | .seek _ _ => true
  | .close _ => true
  | _ => false

theorem silent_readOnly {op : VfsOp} (h : op.readOnly = true) : Silent (op.exec fs other) := by
  have hmap : ∀ {α : Type} {m : FatVfsM τ ρ α}, Silent m → Silent ((fun _ => ()) <$> m) :=
    fun h v hv => wp_map.mpr (h v hv)
  cases op with
  | read path off cap => exact hmap (Silent.bind (silent_nodeOf path) fun node => silent_readNode node off cap)
  | stat path => exact hmap (Silent.bind (silent_nodeOf path) fun node => silent_nodeSize node)
  | readFd fd cap =>
    refine hmap (Silent.bind (silent_fdNode fd) fun p => ?_)
    refine Silent.guard ?_
    refine Silent.bind (silent_readNode _ _ _) fun bytes => ?_
    exact Silent.bind (Silent.descriptors _) fun _ => Silent.pure _
  | seek fd off =>
    refine Silent.bind (silent_fdNode fd) fun p => Silent.bind (silent_nodeSize _) fun size => ?_
    refine Silent.guard ?_
    exact Silent.descriptors _
  | close fd =>
    refine Silent.get_bind fun w => ?_
    split
    · exact Silent.error _
    · exact Silent.descriptors _
  | openFlags => cases h
  | write => cases h
  | writeFd => cases h
  | unlink => cases h
  | rename => cases h
  | mountFile => cases h

theorem readOnly_same {op : VfsOp} (h : op.readOnly = true) (hd : v.world.dev.fault = none) :
    SameFat v (op.next fs other v) :=
  VfsOp.next_of_wp (P := fun _ v' => SameFat v v') (silent_readOnly h v hd)

/-! ## Writes -/

/-- The write `off`, `buf` ran through the handle `i`, and `ok` says whether it returned 0. -/
structure FatWrote (fs : Fat32Fs) (i off : Nat) (buf : List UInt8) (file : Fat32File) (ok : Bool)
    (v v' : FatVfs τ ρ) : Prop where
  handle : v.world.files[i]? = some file
  nodes : v'.nodes = v.nodes
  ran : ∃ t, Ran (fat32Write fs off buf) ⟨file, v.world.dev⟩ ok t ∧
    v'.world.files = v.world.files.set i t.file ∧ v'.world.dev = t.dev

theorem FatWrote.of_same {i off : Nat} {buf : List UInt8} {file : Fat32File} {ok : Bool}
    (h : FatWrote fs i off buf file ok v' v'') (hs : SameFat v v') : FatWrote fs i off buf file ok v v'' := by
  obtain ⟨h1, h2, h3⟩ := h
  rw [hs.files] at h1
  rw [hs.files, hs.dev] at h3
  exact ⟨h1, h2.trans hs.nodes, h3⟩

theorem FatWrote.to_same {i off : Nat} {buf : List UInt8} {file : Fat32File} {ok : Bool}
    (h : FatWrote fs i off buf file ok v v') (hs : SameFat v' v'') : FatWrote fs i off buf file ok v v'' := by
  obtain ⟨h1, h2, h3⟩ := h
  rw [← hs.files, ← hs.dev] at h3
  exact ⟨h1, hs.nodes.trans h2, h3⟩

theorem writeNode_effect (node : VfsNode (FatCtx τ)) (off : Nat) (buf : List UInt8)
    (hd : v.world.dev.fault = none) :
    Wp (writeNode (fatCallbacks fs other) node off buf) v
      (fun _ v' => ((∃ ctx, node.context = .other ctx) ∧ SameFat v v') ∨
        ∃ i file, node.context = .fat i ∧ node.write = true ∧ FatWrote fs i off buf file true v v')
      (fun _ v' => SameFat v v' ∨
        ∃ i file ok, node.context = .fat i ∧ node.write = true ∧ FatWrote fs i off buf file ok v v') := by
  unfold writeNode
  refine wp_guard (fun _ => .inl (.refl v)) fun hw => ?_
  have hw : node.write = true := by simpa using hw
  refine wp_bind.mpr (Wp.mono (silent_nodeSize node v hd) (fun size v1 h1 => ?_) fun _ _ h1 => .inl h1)
  refine wp_guard (fun _ => .inl h1) fun _ => ?_
  cases hctx : node.context with
  | other ctx =>
    have hd1 : v1.world.dev.fault = none := by rw [h1.dev]; exact hd
    refine wp_bind.mpr (Wp.mono (silent_onRest _ v1 hd1) (fun n v2 h2 => ?_) fun _ _ h2 => .inl (h1.trans h2))
    exact wp_guard (fun _ => .inl (h1.trans h2)) fun _ => .inl ⟨⟨ctx, rfl⟩, h1.trans h2⟩
  | fat i =>
    refine wp_bind.mpr (wp_onPart.mpr ?_)
    cases hi : v1.world.files[i]? with
    | none => exact wp_onFatFile_none hi (.inl h1)
    | some file =>
      refine (wp_onFatFile hi).mpr (Wp.mono wp_ran (fun n t hran => ?_) fun e t hran => ?_)
      · have hwrote : ∀ {v2 : FatVfs τ ρ}, v2.nodes = v1.nodes →
            v2.world.files = v1.world.files.set i t.file → v2.world.dev = t.dev →
            FatWrote fs i off buf file true v v2 := fun h2 h3 h4 =>
          FatWrote.of_same ⟨hi, h2, t, hran, h3, h4⟩ h1
        exact wp_guard (fun _ => .inr ⟨i, file, true, rfl, hw, hwrote rfl rfl rfl⟩) fun _ =>
          .inr ⟨i, file, rfl, hw, hwrote rfl rfl rfl⟩
      · exact .inr ⟨i, file, false, rfl, hw, FatWrote.of_same ⟨hi, rfl, t, hran, rfl, rfl⟩ h1⟩

/-- What `write` or `writeFd` does: nothing to the FAT files, or the FAT write of the call. -/
def WriteEffect (fs : Fat32Fs) (op : VfsOp) (v : FatVfs τ ρ) (ok : Bool) (v' : FatVfs τ ρ) : Prop :=
  (op.fatWrite v = none ∧ SameFat v v') ∨
    ∃ i off buf, op.fatWrite v = some (i, off, buf) ∧
      ((ok = false ∧ SameFat v v') ∨ ∃ file ok', (ok = true → ok' = true) ∧ FatWrote fs i off buf file ok' v v')

theorem writeEffect_of_node {op : VfsOp} (node : VfsNode (FatCtx τ)) (off : Nat) (buf : List UInt8)
    (hd : v.world.dev.fault = none)
    (hop : op.fatWrite v = match node.context with
      | .fat i => if node.write then some (i, off, buf) else none
      | .other _ => none) :
    Wp (writeNode (fatCallbacks fs other) node off buf) v (fun _ v' => WriteEffect fs op v true v')
      fun _ v' => WriteEffect fs op v false v' := by
  refine Wp.mono (writeNode_effect node off buf hd) ?_ ?_
  · rintro _ v' (⟨⟨ctx, hctx⟩, hs⟩ | ⟨i, file, hctx, hw, hwr⟩)
    · rw [hctx] at hop
      exact .inl ⟨hop, hs⟩
    · rw [hctx] at hop
      simp only [hw, if_true] at hop
      exact .inr ⟨i, off, buf, hop, .inr ⟨file, true, id, hwr⟩⟩
  · rintro _ v' (hs | ⟨i, file, ok, hctx, hw, hwr⟩)
    · cases hf : op.fatWrite v with
      | none => exact .inl ⟨hf, hs⟩
      | some p => exact .inr ⟨p.1, p.2.1, p.2.2, hf, .inl ⟨rfl, hs⟩⟩
    · rw [hctx] at hop
      simp only [hw, if_true] at hop
      exact .inr ⟨i, off, buf, hop, .inr ⟨file, ok, by simp, hwr⟩⟩

theorem write_effect (path : Path) (off : Nat) (buf : List UInt8) (hd : v.world.dev.fault = none) :
    WriteEffect fs (.write path off buf) v ((VfsOp.write path off buf).ok fs other v)
      ((VfsOp.write path off buf).next fs other v) := by
  refine VfsOp.next_of_wp (P := WriteEffect fs (.write path off buf) v) (wp_map.mpr ?_)
  refine wp_bind.mpr (wp_bind.mpr (wp_get.mpr ?_))
  simp only
  cases hn : vfsFind v.nodes path >>= (v.nodes[·]?) with
  | none => exact .inl ⟨by simp [VfsOp.fatWrite, hn], .refl v⟩
  | some node => exact writeEffect_of_node node off buf hd (by simp [VfsOp.fatWrite, hn])

theorem writeFd_effect (fd : Int) (buf : List UInt8) (hd : v.world.dev.fault = none) :
    WriteEffect fs (.writeFd fd buf) v ((VfsOp.writeFd fd buf).ok fs other v)
      ((VfsOp.writeFd fd buf).next fs other v) := by
  have hsame : ∀ {ok : Bool} {v' : FatVfs τ ρ} (g : Vector (Option VfsOpenFile) vfsMaxOpenFiles),
      WriteEffect fs (.writeFd fd buf) v ok v' →
        WriteEffect fs (.writeFd fd buf) v ok { v' with openFiles := g } := by
    rintro ok v' g (⟨hf, hs⟩ | ⟨i, off, b, hf, ⟨hok, hs⟩ | ⟨file, ok', hok, hwr⟩⟩)
    · exact .inl ⟨hf, hs.trans ⟨rfl, rfl, rfl⟩⟩
    · exact .inr ⟨i, off, b, hf, .inl ⟨hok, hs.trans ⟨rfl, rfl, rfl⟩⟩⟩
    · exact .inr ⟨i, off, b, hf, .inr ⟨file, ok', hok, hwr.to_same ⟨rfl, rfl, rfl⟩⟩⟩
  refine VfsOp.next_of_wp (P := WriteEffect fs (.writeFd fd buf) v) (wp_map.mpr ?_)
  refine wp_bind.mpr (wp_bind.mpr (wp_get.mpr ?_))
  cases hfile : vfsFdAt v fd with
  | none => exact .inl ⟨by simp [VfsOp.fatWrite, hfile], .refl v⟩
  | some file =>
    simp only
    cases hn : v.nodes[file.node]? with
    | none => exact .inl ⟨by simp [VfsOp.fatWrite, hfile, hn], .refl v⟩
    | some node =>
      refine wp_pure.mpr ?_
      simp only
      refine wp_guard (fun hro => .inl ⟨by simp [VfsOp.fatWrite, hfile, hn, hro], .refl v⟩) fun hro => ?_
      refine wp_bind.mpr (Wp.mono (writeEffect_of_node node file.offset buf hd
        (by simp [VfsOp.fatWrite, hfile, hn, hro])) ?_ fun _ _ h => h)
      intro n v' h
      exact wp_bind.mpr (wp_modify.mpr (wp_pure.mpr (hsame _ h)))

/-! ## Opening, deleting, renaming -/

/-- A reliable device with a well-formed volume and a tidy directory. -/
structure FatOk (fs : Fat32Fs) (r : List Nat) (d : Dev) : Prop where
  volume : Volume fs allLive r d.disk
  tidy : Tidy fs r d.disk
  reliable : d.fault = none

/-- The state with another device. -/
def withDev (v : FatVfs τ ρ) (d : Dev) : FatVfs τ ρ := { v with world := { v.world with dev := d } }

/-- A new file: there was none of the name. -/
def NewFile (fs : Fat32Fs) (r : List Nat) (name : Path) (d d' : Dev) : Prop :=
  (∃ w s b, makeShortName name = some w ∧ Created fs allLive r w s b d.disk d'.disk) ∧
    ¬∃ s l, Openable fs r d.disk name s l

/-- The file `name` was mounted under `path`. -/
structure Mounts (fs : Fat32Fs) (r : List Nat) (path name : Path) (v v' : FatVfs τ ρ) : Prop where
  fresh : vfsFind v.nodes path = none
  dev : v'.world.dev = v.world.dev
  mounted : ∃ s l, Openable fs r v.world.dev.disk name s l ∧
    v'.nodes = v.nodes ++ [fatNode path (handleOf fs v.world.dev.disk s l) v.world.files.length] ∧
    v'.world.files = v.world.files ++ [handleOf fs v.world.dev.disk s l]

theorem lookupOrCreate_effect {d : Dev} {name : Path} {flags : UInt32} (hok : FatOk fs r d)
    (hfree : flags &&& vfsOCreat ≠ 0 → CreateAllocates fs r d name → FreeClusters fs d.disk 1) :
    Wp (lookupOrCreate fs name flags) d
      (fun _ d' => FatOk fs r d' ∧ (d' = d ∨ (flags &&& vfsOCreat ≠ 0 ∧ NewFile fs r name d d')))
      (fun e d' => e = .fail ∧ d' = d ∧
        (flags &&& vfsOCreat = 0 → ¬∃ s l, Openable fs r d.disk name s l)) := by
  unfold lookupOrCreate
  refine wp_bind.mpr (wp_attempt.mpr (Wp.mono (openRoot_reliable hok.volume hok.reliable name) ?_ ?_))
  · intro file d' h
    exact ⟨by rw [h.1]; exact hok, .inl h.1⟩
  · intro e d' h
    obtain ⟨rfl, rfl, hno⟩ := h
    show Wp (if flags &&& vfsOCreat = 0 then _ else _) d' _ _
    refine wp_guard (fun _ => ⟨rfl, rfl, fun _ => hno⟩) fun hc => ?_
    refine wp_bind.mpr (Wp.mono (create_reliable hok.volume hok.reliable (hfree hc)) ?_ ?_)
    · intro file d' h
      obtain ⟨hd', ⟨w, s, b, hw, hcr⟩, -⟩ := h
      exact ⟨⟨hcr.volume, hok.tidy.created hok.volume hw hno hcr, hd'⟩, .inr ⟨hc, ⟨w, s, b, hw, hcr⟩, hno⟩⟩
    · intro e d' h
      exact ⟨h.1, h.2, fun h0 => absurd h0 hc⟩

theorem mountVfsFile_effect (path name : Path) (hok : FatOk fs r v.world.dev) :
    Wp (fat32MountVfsFile fs path name) v (fun _ v' => Mounts fs r path name v v')
      fun e v' => e = .fail ∧ SameFat v v' := by
  unfold fat32MountVfsFile
  refine wp_bind.mpr (wp_get.mpr (wp_guard (fun _ => ⟨rfl, .refl v⟩) fun _ => ?_))
  refine wp_bind.mpr (wp_onPart.mpr (wp_onPart.mpr ?_))
  refine Wp.mono (openRoot_reliable hok.volume hok.reliable name) ?_ ?_
  · intro file d h
    obtain ⟨rfl, s, l, ho, -, rfl⟩ := h
    refine wp_bind.mpr (wp_bind.mpr (wp_get.mpr (wp_guard (fun _ => ⟨rfl, rfl, rfl, rfl⟩) fun hg => ?_)))
    simp only [not_or, Bool.not_eq_false] at hg
    refine wp_modify.mpr (wp_modify.mpr ⟨?_, rfl, s, l, ho, rfl, rfl⟩)
    have hm := hg.2.2
    simp only [vfsAllMountable, vfsNodeMountable, Bool.and_eq_true, Option.isNone_iff_eq_none, fatNode] at hm
    exact hm.1.1.2
  · intro e d h
    obtain ⟨rfl, rfl, -⟩ := h
    exact ⟨rfl, rfl, rfl, rfl⟩

/-- What an open does: nothing to the FAT files; or it goes to the disk, where it may create the file,
and may mount it. -/
def OpenEffect (fs : Fat32Fs) (r : List Nat) (path : Path) (flags : UInt32) (v v' : FatVfs τ ρ) : Prop :=
  SameFat v v' ∨ ∃ name d, vfsFat32RootName path = some name ∧ vfsFind v.nodes path = none ∧ FatOk fs r d ∧
    (d = v.world.dev ∨ (flags &&& vfsOCreat ≠ 0 ∧ NewFile fs r name v.world.dev d)) ∧
    (SameFat (withDev v d) v' ∨ ∃ v₁, Mounts fs r path name (withDev v d) v₁ ∧ SameFat v₁ v')

theorem openFlags_effect (other : Callbacks τ ρ) (path : Path) (flags : UInt32) (hok : FatOk fs r v.world.dev)
    (hfree : ∀ name, vfsFat32RootName path = some name → vfsFind v.nodes path = none →
      flags &&& vfsOCreat ≠ 0 → CreateAllocates fs r v.world.dev name → FreeClusters fs v.world.dev.disk 1) :
    OpenEffect fs r path flags v ((VfsOp.openFlags path flags).next fs other v) := by
  refine VfsOp.next_of_wp (P := fun _ v' => OpenEffect fs r path flags v v') (wp_map.mpr ?_)
  unfold vfsOpenFlags
  refine wp_guard (fun _ => .inl (.refl v)) fun _ => wp_bind.mpr (wp_get.mpr ?_)
  cases hfind : vfsFind v.nodes path with
  | some index =>
    exact Wp.mono (silent_openNode index _ v hok.reliable) (fun _ _ h => .inl h) fun _ _ h => .inl h
  | none =>
    refine wp_bind.mpr ?_
    unfold vfsOpenDynamicFat32Node
    cases hname : vfsFat32RootName path with
    | none => exact .inl (.refl v)
    | some name =>
      refine wp_guard (fun _ => .inl (.refl v)) fun _ => wp_bind.mpr (wp_onPart.mpr (wp_onPart.mpr ?_))
      refine Wp.mono (lookupOrCreate_effect hok fun hc => hfree name hname hfind hc) ?_ ?_
      · intro _ d h
        obtain ⟨hokd, hd⟩ := h
        have hopen : ∀ {v' : FatVfs τ ρ}, (SameFat (withDev v d) v' ∨
            ∃ v₁, Mounts fs r path name (withDev v d) v₁ ∧ SameFat v₁ v') → OpenEffect fs r path flags v v' :=
          fun h => .inr ⟨name, d, hname, hfind, hokd, hd, h⟩
        refine wp_bind.mpr (Wp.mono (mountVfsFile_effect (v := withDev v d) path name hokd) ?_ ?_)
        · intro _ v₁ hm
          refine wp_bind.mpr (wp_get.mpr ?_)
          have hd₁ : v₁.world.dev.fault = none := by
            rw [hm.dev]
            exact hokd.reliable
          split
          · exact hopen (.inr ⟨v₁, hm, .refl v₁⟩)
          · refine wp_pure.mpr (Wp.mono (silent_openNode _ _ v₁ hd₁) ?_ ?_)
            · intro _ v' h
              exact hopen (.inr ⟨v₁, hm, h⟩)
            · intro _ v' h
              exact hopen (.inr ⟨v₁, hm, h⟩)
        · intro e v' h
          exact hopen (.inl h.2)
      · intro e d h
        obtain ⟨-, rfl, -⟩ := h
        exact .inl ⟨rfl, rfl, rfl⟩

theorem mountFile_effect (other : Callbacks τ ρ) (path name : Path) (hok : FatOk fs r v.world.dev) :
    SameFat v ((VfsOp.mountFile path name).next fs other v) ∨
      Mounts fs r path name v ((VfsOp.mountFile path name).next fs other v) := by
  refine VfsOp.next_of_wp (P := fun _ v' => SameFat v v' ∨ Mounts fs r path name v v') ?_
  exact Wp.mono (mountVfsFile_effect path name hok) (fun _ _ h => .inr h) fun _ _ h => .inl h.2

/-- What an unlink does, by whether it returned 0. -/
def UnlinkEffect (fs : Fat32Fs) (r : List Nat) (path : Path) (v : FatVfs τ ρ) (ok : Bool) (v' : FatVfs τ ρ) :
    Prop :=
  (ok = false ∧ SameFat v v') ∨ (ok = true ∧ ∃ name s l d, vfsFat32RootName path = some name ∧
    Openable fs r v.world.dev.disk name s l ∧ Deleted fs allLive r s l v.world.dev.disk d.disk ∧
    FatOk fs r d ∧ v' = withDev v d)

theorem unlink_effect (other : Callbacks τ ρ) (path : Path) (hok : FatOk fs r v.world.dev) :
    UnlinkEffect fs r path v ((VfsOp.unlink path).ok fs other v) ((VfsOp.unlink path).next fs other v) := by
  refine VfsOp.next_of_wp (P := UnlinkEffect fs r path v) ?_
  show Wp (vfsUnlink fs path) v _ _
  unfold vfsUnlink
  cases hname : vfsFat32RootName path with
  | none => exact .inl ⟨rfl, .refl v⟩
  | some name =>
    refine wp_guard (fun _ => .inl ⟨rfl, .refl v⟩) fun _ => wp_onPart.mpr (wp_onPart.mpr ?_)
    refine Wp.mono (delete_reliable hok.volume hok.reliable name) ?_ ?_
    · intro _ d h
      obtain ⟨hd, s, l, ho, hdel⟩ := h
      exact .inr ⟨rfl, name, s, l, d, hname, ho, hdel,
        ⟨hdel.volume, hok.tidy.deleted hok.volume ho hdel, hd⟩, rfl⟩
    · intro e d h
      obtain ⟨-, rfl⟩ := h
      exact .inl ⟨rfl, rfl, rfl, rfl⟩

/-- What a rename does, by whether it returned 0. -/
def RenameEffect (fs : Fat32Fs) (r : List Nat) (newPath : Path) (v : FatVfs τ ρ) (ok : Bool)
    (v' : FatVfs τ ρ) : Prop :=
  (ok = false ∧ SameFat v v') ∨ (ok = true ∧ ∃ newName w s d, vfsFat32RootName newPath = some newName ∧
    makeShortName newName = some w ∧ Renamed fs allLive r w s v.world.dev.disk d.disk ∧
    FatOk fs r d ∧ v' = withDev v d)

theorem rename_effect (other : Callbacks τ ρ) (oldPath newPath : Path) (hok : FatOk fs r v.world.dev) :
    RenameEffect fs r newPath v ((VfsOp.rename oldPath newPath).ok fs other v)
      ((VfsOp.rename oldPath newPath).next fs other v) := by
  refine VfsOp.next_of_wp (P := RenameEffect fs r newPath v) ?_
  show Wp (vfsRename fs oldPath newPath) v _ _
  unfold vfsRename
  cases hold : vfsFat32RootName oldPath with
  | none => exact .inl ⟨rfl, .refl v⟩
  | some name =>
    cases hnew : vfsFat32RootName newPath with
    | none => exact .inl ⟨rfl, .refl v⟩
    | some newName =>
      refine wp_guard (fun _ => .inl ⟨rfl, .refl v⟩) fun _ => wp_onPart.mpr (wp_onPart.mpr ?_)
      refine Wp.mono (rename_reliable hok.volume hok.reliable name newName) ?_ ?_
      · intro _ d h
        obtain ⟨hd, w, s, l, hw, ho, hren, hno⟩ := h
        exact .inr ⟨rfl, newName, w, s, d, hnew, hw, hren,
          ⟨hren.volume, hok.tidy.renamed hok.volume ho hw hno hren, hd⟩, rfl⟩
      · intro e d h
        obtain ⟨-, rfl⟩ := h
        exact .inl ⟨rfl, rfl, rfl, rfl⟩

end Armonios
