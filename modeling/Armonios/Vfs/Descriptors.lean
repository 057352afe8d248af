import Armonios.Vfs.Effect

/-!
# The descriptor table

The table of open files is shared by all callers of the VFS. What a call does to it depends on the table
alone; the callbacks work behind it.

* `SameTable`: a step that leaves the open files as they are and takes no node away;
* `readFd_moves`, `openFlags_fills`, ...: what each call does to the table, whatever the callbacks do;
* `FileContract`: the callbacks of a node, while its file has the contents `c`;
* `vfs_descriptorLaws`: the laws of the descriptors, from any state and over any sequence of calls.
-/

namespace Armonios

variable {τ ρ κ ω α : Type} {fs : Fat32Fs} {other : Callbacks τ ρ} {cb : Callbacks κ ω}

/-! ## Steps behind the table -/

/-- The open files are as they were, and the nodes are still there. -/
structure SameTable (v v' : Vfs κ ω) : Prop where
  openFiles : v'.openFiles = v.openFiles
  nodes : v.nodes <+: v'.nodes

instance : Std.Refl (SameTable (κ := κ) (ω := ω)) := ⟨fun _ => ⟨rfl, List.prefix_refl _⟩⟩

instance : IsTrans (Vfs κ ω) SameTable :=
  ⟨fun _ _ _ h h' => ⟨h'.openFiles.trans h.openFiles, h.nodes.trans h'.nodes⟩⟩

theorem SameTable.rfl {v : Vfs κ ω} : SameTable v v := Std.Refl.refl v

theorem SameTable.node {v v' : Vfs κ ω} (h : SameTable v v') {k : Nat} {node : VfsNode κ}
    (hk : v.nodes[k]? = some node) : v'.nodes[k]? = some node := by
  obtain ⟨new, hnew⟩ := h.nodes
  obtain ⟨hlt, -⟩ := List.getElem?_eq_some_iff.mp hk
  rw [← hnew, List.getElem?_append_left hlt]
  exact hk

theorem SameTable.fdAt {v v' : Vfs κ ω} (h : SameTable v v') (fd : Int) : vfsFdAt v' fd = vfsFdAt v fd := by
  unfold vfsFdAt
  rw [h.openFiles]

theorem sameTable_onWorld (m : EStateM Err ω α) : Moves SameTable (onWorld m : VfsM κ ω α) :=
  fun _ => wp_onPart.mpr (by
    unfold Wp
    split <;> exact ⟨rfl, List.prefix_refl _⟩)

theorem sameTable_nodeSize (node : VfsNode κ) : Moves SameTable (vfsNodeSize cb node) := by
  unfold vfsNodeSize
  split
  · exact sameTable_onWorld _
  · exact Moves.pure _

theorem sameTable_readNode (node : VfsNode κ) (off cap : Nat) : Moves SameTable (readNode cb node off cap) := by
  unfold readNode
  refine Moves.guard (Moves.bind (sameTable_nodeSize node) fun size => ?_)
  refine Moves.guard (Moves.bind (sameTable_onWorld _) fun bytes => ?_)
  exact Moves.guard (Moves.pure _)

theorem sameTable_writeNode (node : VfsNode κ) (off : Nat) (buf : List UInt8) :
    Moves SameTable (writeNode cb node off buf) := by
  unfold writeNode
  refine Moves.guard (Moves.bind (sameTable_nodeSize node) fun size => ?_)
  refine Moves.guard (Moves.bind (sameTable_onWorld _) fun count => ?_)
  exact Moves.guard (Moves.pure _)

theorem sameTable_nodeOf (path : Path) : Moves SameTable (vfsNodeOf path : VfsM κ ω _) := by
  unfold vfsNodeOf
  refine Moves.get_bind fun v => ?_
  dsimp only
  split
  · exact Moves.pure _
  · exact Moves.error _

theorem sameTable_mountStatic (new : List (VfsNode κ)) : Moves SameTable (vfsMountStatic new : VfsM κ ω _) := by
  unfold vfsMountStatic
  refine Moves.get_bind fun v => ?_
  refine Moves.guard (Moves.modify fun v => ⟨rfl, List.prefix_append _ _⟩)

theorem sameTable_mountVfsFile (path name : Path) :
    Moves SameTable (fat32MountVfsFile fs path name : FatVfsM τ ρ _) := by
  unfold fat32MountVfsFile
  refine Moves.get_bind fun v => ?_
  refine Moves.guard (Moves.bind (sameTable_onWorld _) fun file => ?_)
  exact Moves.bind (sameTable_mountStatic _) fun _ => Moves.modify fun v => ⟨rfl, List.prefix_refl _⟩

theorem sameTable_openDynamic (path : Path) (flags : UInt32) :
    Moves SameTable (vfsOpenDynamicFat32Node fs path flags : FatVfsM τ ρ _) := by
  unfold vfsOpenDynamicFat32Node
  split
  · exact Moves.error _
  · refine Moves.guard (Moves.bind (sameTable_onWorld _) fun _ => ?_)
    refine Moves.bind (sameTable_mountVfsFile _ _) fun _ => Moves.get_bind fun v => ?_
    split
    · exact Moves.error _
    · exact Moves.pure _

theorem sameTable_unlink (path : Path) : Moves SameTable (vfsUnlink fs path : FatVfsM τ ρ _) := by
  unfold vfsUnlink
  split
  · exact Moves.error _
  · exact Moves.guard (sameTable_onWorld _)

theorem sameTable_rename (oldPath newPath : Path) :
    Moves SameTable (vfsRename fs oldPath newPath : FatVfsM τ ρ _) := by
  unfold vfsRename
  split
  · exact Moves.guard (sameTable_onWorld _)
  · exact Moves.error _

/-! ## Calls on a descriptor -/

/-- The open file of the descriptor `fd` is replaced. -/
def putFd (v : Vfs κ ω) (fd : Int) (file : Option VfsOpenFile) : Vfs κ ω :=
  { v with openFiles := v.openFiles.setIfInBounds fd.toNat file }

theorem fdAt_lt {v : Vfs κ ω} {fd : Int} {file : VfsOpenFile} (h : vfsFdAt v fd = some file) :
    0 ≤ fd ∧ fd.toNat < vfsMaxOpenFiles := by
  unfold vfsFdAt at h
  split at h
  · cases h
  · omega

theorem fdAt_putFd {v : Vfs κ ω} {fd : Int} (h0 : 0 ≤ fd) (hlt : fd.toNat < vfsMaxOpenFiles)
    (file : Option VfsOpenFile) (fd' : Int) :
    vfsFdAt (putFd v fd file) fd' = if fd' = fd then file else vfsFdAt v fd' := by
  unfold vfsFdAt putFd
  by_cases hout : fd' < 0 ∨ (vfsMaxOpenFiles : Int) ≤ fd'
  · rw [if_pos hout, if_pos hout, if_neg (by omega)]
  · rw [if_neg hout, if_neg hout]
    dsimp only
    rw [Vector.getElem?_setIfInBounds]
    by_cases he : fd' = fd
    · rw [if_pos he, he, if_pos rfl, if_pos hlt]
      rfl
    · rw [if_neg he, if_neg (by omega)]

/-- The open file and the node that a call on a descriptor works with. -/
theorem fdNode_spec (fd : Int) (v : Vfs κ ω) :
    Wp (vfsFdNode fd : VfsM κ ω _) v
      (fun p v' => v' = v ∧ vfsFdAt v fd = some p.1 ∧ v.nodes[p.1.node]? = some p.2) fun _ v' => v' = v := by
  unfold vfsFdNode
  refine wp_bind.mpr (wp_get.mpr ?_)
  split
  · exact rfl
  · rename_i file hfile
    split
    · exact rfl
    · rename_i node hnode
      exact ⟨rfl, hfile, hnode⟩

/-- A read returns what the callback returned, and moves the offset behind it. -/
theorem readFd_moves (fd : Int) (cap : Nat) (v : Vfs κ ω) :
    Wp (vfsReadFd cb fd cap) v
      (fun bytes v' => ∃ file node v₁, vfsFdAt v fd = some file ∧ v.nodes[file.node]? = some node ∧
        file.flags ≠ vfsOWronly ∧ readNode cb node file.offset cap v = .ok bytes v₁ ∧ SameTable v v₁ ∧
        v' = putFd v₁ fd (some { file with offset := file.offset + bytes.length }))
      fun _ v' => SameTable v v' := by
  unfold vfsReadFd
  refine wp_bind.mpr (Wp.mono (fdNode_spec fd v) (fun p v' h => ?_) fun _ v' h => h ▸ SameTable.rfl)
  obtain ⟨rfl, hfile, hnode⟩ := h
  obtain ⟨file, node⟩ := p
  refine wp_guard (fun _ => SameTable.rfl) fun hmode => ?_
  refine wp_bind.mpr (Wp.mono (Wp.and (sameTable_readNode node file.offset cap v') wp_self) ?_ fun _ _ h => h.1)
  intro bytes v₁ h
  exact wp_bind.mpr (wp_modify.mpr ⟨file, node, v₁, hfile, hnode, hmode, h.2, h.1, rfl⟩)

theorem writeFd_moves (fd : Int) (buf : List UInt8) (v : Vfs κ ω) :
    Wp (vfsWriteFd cb fd buf) v
      (fun count v' => ∃ file v₁, vfsFdAt v fd = some file ∧ file.flags ≠ vfsORdonly ∧ SameTable v v₁ ∧
        v' = putFd v₁ fd (some { file with offset := file.offset + count }))
      fun _ v' => SameTable v v' := by
  unfold vfsWriteFd
  refine wp_bind.mpr (Wp.mono (fdNode_spec fd v) (fun p v' h => ?_) fun _ v' h => h ▸ SameTable.rfl)
  obtain ⟨rfl, hfile, -⟩ := h
  obtain ⟨file, node⟩ := p
  refine wp_guard (fun _ => SameTable.rfl) fun hmode => ?_
  refine wp_bind.mpr (Wp.mono (sameTable_writeNode node file.offset buf v') ?_ fun _ _ h => h)
  intro count v₁ h
  exact wp_bind.mpr (wp_modify.mpr ⟨file, v₁, hfile, hmode, h, rfl⟩)

theorem seek_moves (fd : Int) (off : Nat) (v : Vfs κ ω) :
    Wp (vfsSeek cb fd off) v
      (fun _ v' => ∃ file v₁, vfsFdAt v fd = some file ∧ SameTable v v₁ ∧
        v' = putFd v₁ fd (some { file with offset := off }))
      fun _ v' => SameTable v v' := by
  unfold vfsSeek
  refine wp_bind.mpr (Wp.mono (fdNode_spec fd v) (fun p v' h => ?_) fun _ v' h => h ▸ SameTable.rfl)
  obtain ⟨rfl, hfile, -⟩ := h
  obtain ⟨file, node⟩ := p
  refine wp_bind.mpr (Wp.mono (sameTable_nodeSize node v') ?_ fun _ _ h => h)
  intro size v₁ h
  exact wp_guard (fun _ => h) fun _ => wp_modify.mpr ⟨file, v₁, hfile, h, rfl⟩

theorem close_frees (fd : Int) (v : Vfs κ ω) :
    Wp (vfsClose fd) v (fun _ v' => (∃ file, vfsFdAt v fd = some file) ∧ v' = putFd v fd none)
      fun _ v' => SameTable v v' := by
  unfold vfsClose
  refine wp_bind.mpr (wp_get.mpr ?_)
  split
  · exact SameTable.rfl
  · rename_i file hfile
    exact wp_modify.mpr ⟨⟨file, hfile⟩, rfl⟩

/-! ## Opening -/

theorem openNode_fills (index : Nat) (mode : UInt32) (v : Vfs κ ω) :
    Wp (vfsOpenNode index mode : VfsM κ ω _) v
      (fun fd v' => fd < vfsMaxOpenFiles ∧ vfsFdAt v fd = none ∧ v' = putFd v fd (some ⟨index, 0, mode⟩))
      fun _ v' => SameTable v v' := by
  unfold vfsOpenNode
  refine wp_bind.mpr (wp_get.mpr ?_)
  split
  · exact SameTable.rfl
  · refine wp_guard (fun _ => SameTable.rfl) fun _ => ?_
    split
    · exact SameTable.rfl
    · rename_i fd hfd
      obtain ⟨hlt, hnone, -⟩ := List.findIdx?_eq_some_iff_getElem.mp hfd
      rw [Vector.length_toList] at hlt
      refine wp_bind.mpr (wp_set.mpr (wp_pure.mpr ⟨hlt, ?_, rfl⟩))
      unfold vfsFdAt
      rw [if_neg (by omega), Int.toNat_natCast, Vector.getElem?_eq_getElem hlt]
      simpa using hnone

/-- An open that returns fills a free descriptor with the offset 0 and the mode of the flags. -/
theorem openFlags_fills (path : Path) (flags : UInt32) (v : FatVfs τ ρ) :
    Wp (vfsOpenFlags fs path flags) v
      (fun fd v' => fd < vfsMaxOpenFiles ∧ vfsFdAt v fd = none ∧ ∃ v₁ index, SameTable v v₁ ∧
        v' = putFd v₁ fd (some ⟨index, 0, flags &&& vfsOAccmode⟩))
      fun _ v' => SameTable v v' := by
  unfold vfsOpenFlags
  refine wp_guard (fun _ => SameTable.rfl) fun _ => wp_bind.mpr (wp_get.mpr ?_)
  split
  · rename_i index _
    refine Wp.mono (openNode_fills index _ v) (fun fd v' h => ?_) fun _ _ h => h
    exact ⟨h.1, h.2.1, v, index, SameTable.rfl, h.2.2⟩
  · refine wp_bind.mpr (Wp.mono (sameTable_openDynamic path flags v) (fun index v₁ hs => ?_) fun _ _ h => h)
    refine Wp.mono (openNode_fills index _ v₁) (fun fd v' h => ?_) fun _ v' h => IsTrans.trans _ _ _ hs h
    exact ⟨h.1, by rw [← hs.fdAt]; exact h.2.1, v₁, index, hs, h.2.2⟩

/-! ## All calls -/

/-- The descriptor that a call works on. -/
def VfsOp.descriptor : VfsOp → Option Int
  | .readFd fd _ => some fd
  | .writeFd fd _ => some fd
  | .seek fd _ => some fd
  | .close fd => some fd
  | _ => none

/-- A call leaves the open files as they are, or returns and changes one: that of its descriptor, or a
free one. -/
def TableEffect (op : VfsOp) (v : FatVfs τ ρ) (ok : Bool) (v' : FatVfs τ ρ) : Prop :=
  SameTable v v' ∨ (ok = true ∧ ∃ (fd : Int) (v₁ : FatVfs τ ρ) (file : Option VfsOpenFile), 0 ≤ fd ∧
    fd.toNat < vfsMaxOpenFiles ∧ (op.descriptor = some fd ∨ vfsFdAt v fd = none) ∧ SameTable v v₁ ∧
    v' = putFd v₁ fd file)

theorem TableEffect.node {op : VfsOp} {v v' : FatVfs τ ρ} {ok : Bool} (h : TableEffect op v ok v') {k : Nat}
    {node : VfsNode (FatCtx τ)} (hk : v.nodes[k]? = some node) : v'.nodes[k]? = some node := by
  rcases h with h | ⟨-, fd, v₁, file, -, -, -, h, rfl⟩
  · exact h.node hk
  · exact h.node hk

/-- A call that has no business with the table. -/
theorem tableEffect_of_moves {op : VfsOp} {v : FatVfs τ ρ} {m : FatVfsM τ ρ α} {f : α → Unit}
    (h : Moves SameTable m) (hexec : op.exec fs other = f <$> m) :
    TableEffect op v (op.ok fs other v) (op.next fs other v) := by
  refine VfsOp.next_of_wp ?_
  rw [hexec]
  exact wp_map.mpr (Wp.mono (h v) (fun _ _ h => .inl h) fun _ _ h => .inl h)

theorem tableEffect (fs : Fat32Fs) (other : Callbacks τ ρ) (op : VfsOp) (v : FatVfs τ ρ) :
    TableEffect op v (op.ok fs other v) (op.next fs other v) := by
  cases op with
  | openFlags path flags =>
    refine VfsOp.next_of_wp (wp_map.mpr (Wp.mono (openFlags_fills path flags v) ?_ fun _ _ h => .inl h))
    intro fd v' h
    obtain ⟨hlt, hnone, v₁, index, hs, rfl⟩ := h
    exact .inr ⟨rfl, fd, v₁, _, by omega, by simpa using hlt, .inr hnone, hs, rfl⟩
  | readFd fd cap =>
    refine VfsOp.next_of_wp (wp_map.mpr (Wp.mono (readFd_moves fd cap v) ?_ fun _ _ h => .inl h))
    intro bytes v' h
    obtain ⟨file, node, v₁, hfile, -, -, -, hs, rfl⟩ := h
    exact .inr ⟨rfl, fd, v₁, _, (fdAt_lt hfile).1, (fdAt_lt hfile).2, .inl rfl, hs, rfl⟩
  | writeFd fd buf =>
    refine VfsOp.next_of_wp (wp_map.mpr (Wp.mono (writeFd_moves fd buf v) ?_ fun _ _ h => .inl h))
    intro count v' h
    obtain ⟨file, v₁, hfile, -, hs, rfl⟩ := h
    exact .inr ⟨rfl, fd, v₁, _, (fdAt_lt hfile).1, (fdAt_lt hfile).2, .inl rfl, hs, rfl⟩
  | seek fd off =>
    refine VfsOp.next_of_wp (Wp.mono (seek_moves fd off v) ?_ fun _ _ h => .inl h)
    intro _ v' h
    obtain ⟨file, v₁, hfile, hs, rfl⟩ := h
    exact .inr ⟨rfl, fd, v₁, _, (fdAt_lt hfile).1, (fdAt_lt hfile).2, .inl rfl, hs, rfl⟩
  | close fd =>
    refine VfsOp.next_of_wp (Wp.mono (close_frees fd v) ?_ fun _ _ h => .inl h)
    intro _ v' h
    obtain ⟨⟨file, hfile⟩, rfl⟩ := h
    exact .inr ⟨rfl, fd, v, none, (fdAt_lt hfile).1, (fdAt_lt hfile).2, .inl rfl, SameTable.rfl, rfl⟩
  | read path off cap =>
    exact tableEffect_of_moves (Moves.bind (sameTable_nodeOf path) fun node => sameTable_readNode node off cap) rfl
  | write path off buf =>
    exact tableEffect_of_moves (Moves.bind (sameTable_nodeOf path) fun node => sameTable_writeNode node off buf) rfl
  | stat path =>
    exact tableEffect_of_moves (Moves.bind (sameTable_nodeOf path) fun node => sameTable_nodeSize node) rfl
  | unlink path =>
    exact VfsOp.next_of_wp (Wp.mono (sameTable_unlink path v) (fun _ _ h => .inl h) fun _ _ h => .inl h)
  | rename oldPath newPath =>
    exact VfsOp.next_of_wp (Wp.mono (sameTable_rename oldPath newPath v) (fun _ _ h => .inl h) fun _ _ h => .inl h)
  | mountFile path name =>
    exact VfsOp.next_of_wp (Wp.mono (sameTable_mountVfsFile path name v) (fun _ _ h => .inl h) fun _ _ h => .inl h)

/-- The other descriptors. -/
theorem TableEffect.others {op : VfsOp} {v v' : FatVfs τ ρ} {ok : Bool} (h : TableEffect op v ok v') {fd : Int}
    {file : VfsOpenFile} (hfile : vfsFdAt v fd = some file) (hfd : op.descriptor ≠ some fd) :
    vfsFdAt v' fd = some file := by
  rcases h with h | ⟨-, fd', v₁, file', h0, hlt, hwhich, h, rfl⟩
  · rw [h.fdAt, hfile]
  · have hne : fd ≠ fd' := by
      intro he
      subst he
      rcases hwhich with hd | hnone
      · exact hfd hd
      · rw [hfile] at hnone
        cases hnone
    rw [fdAt_putFd h0 hlt, if_neg hne, h.fdAt, hfile]

/-! ## Sequences of reads -/

/-- The callbacks of a node whose file has the contents `c` in the states `I`: the size is that of `c`,
and a read returns bytes of `c` from the offset on, perhaps not as many as it could. -/
structure FileContract (cb : Callbacks κ ω) (node : VfsNode κ) (c : List UInt8) (I : ω → Prop) : Prop where
  size : node.stat = false → node.size = c.length
  stat : ∀ w n w', I w → cb.stat node.context w = .ok n w' → n = c.length ∧ I w'
  read : ∀ w off cap bytes w', I w → cb.read node.context off cap w = .ok bytes w' → bytes <+: c.drop off

/-- The callbacks do not fail, and a read returns all it can. -/
structure FullContract (cb : Callbacks κ ω) (node : VfsNode κ) (c : List UInt8) (I : ω → Prop) : Prop
    extends FileContract cb node c I where
  stats : ∀ w, I w → ∃ w', cb.stat node.context w = .ok c.length w'
  reads : ∀ w off cap, I w → off ≤ c.length →
    ∃ w', cb.read node.context off cap w = .ok ((c.drop off).take cap) w'

variable {node : VfsNode κ} {c : List UInt8} {I : ω → Prop}

theorem FileContract.nodeSize (h : FileContract cb node c I) {v : Vfs κ ω} (hI : I v.world) :
    Wp (vfsNodeSize cb node) v (fun n v' => n = c.length ∧ I v'.world) fun _ _ => True := by
  unfold vfsNodeSize
  by_cases hs : node.stat = true
  · rw [if_pos hs]
    refine wp_onPart.mpr (Wp.mono wp_self (fun n w' hw => ?_) fun _ _ _ => trivial)
    exact h.stat _ n w' hI hw
  · rw [if_neg hs]
    exact ⟨h.size (by simpa using hs), hI⟩

theorem FileContract.readNode (h : FileContract cb node c I) {v : Vfs κ ω} (hI : I v.world) (off cap : Nat) :
    Wp (readNode cb node off cap) v (fun bytes _ => bytes <+: c.drop off) fun _ _ => True := by
  unfold Armonios.readNode
  refine wp_guard (fun _ => trivial) fun _ => ?_
  refine wp_bind.mpr (Wp.mono (h.nodeSize hI) (fun n v₁ hn => ?_) fun _ _ _ => trivial)
  refine wp_guard (fun _ => trivial) fun _ => ?_
  refine wp_bind.mpr (wp_onPart.mpr (Wp.mono wp_self (fun bytes w' hw => ?_) fun _ _ _ => trivial))
  exact wp_guard (fun _ => trivial) fun _ => wp_pure.mpr (h.read _ off cap bytes w' hn.2 hw)

theorem FullContract.nodeSize_returns (h : FullContract cb node c I) {v : Vfs κ ω} (hI : I v.world) :
    Wp (vfsNodeSize cb node) v (fun n v' => n = c.length ∧ I v'.world) fun _ _ => False := by
  by_cases hs : node.stat = true
  · obtain ⟨w', hw⟩ := h.stats v.world hI
    unfold vfsNodeSize
    rw [if_pos hs]
    exact wp_onPart.mpr (wp_of_ok hw (h.stat _ _ w' hI hw))
  · unfold vfsNodeSize
    rw [if_neg hs]
    exact ⟨h.size (by simpa using hs), hI⟩

theorem FullContract.readNode_returns (h : FullContract cb node c I) (hread : node.read = true) {v : Vfs κ ω}
    (hI : I v.world) {off : Nat} (hoff : off ≤ c.length) (cap : Nat) :
    Wp (Armonios.readNode cb node off cap) v (fun bytes _ => bytes = (c.drop off).take cap) fun _ _ => False := by
  unfold Armonios.readNode
  refine wp_guard (fun hr => absurd hread (by simp [hr])) fun _ => ?_
  refine wp_bind.mpr (Wp.mono (h.nodeSize_returns hI) (fun n v₁ hn => ?_) fun _ _ h => h)
  obtain ⟨rfl, hI₁⟩ := hn
  refine wp_guard (fun hlt => absurd hoff (by omega)) fun _ => ?_
  obtain ⟨w', hw⟩ := h.reads v₁.world off cap hI₁ hoff
  refine wp_bind.mpr (wp_onPart.mpr (wp_of_ok hw (wp_guard (fun hv => ?_) fun _ => wp_pure.mpr rfl)))
  have hvalid : vfsReadResultValid off c.length cap ((c.drop off).take cap).length = true := by
    unfold vfsReadResultValid
    simp only [List.length_take, List.length_drop, Bool.and_eq_true, decide_eq_true_eq]
    omega
  rw [hvalid] at hv
  cases hv

/-- The state after some calls. -/
def runOps (fs : Fat32Fs) (other : Callbacks τ ρ) (ops : List VfsOp) (v : FatVfs τ ρ) : FatVfs τ ρ :=
  ops.foldl (fun v op => op.next fs other v) v

/-- The bytes that a call returns through `fd`. -/
def bytesThrough (fs : Fat32Fs) (other : Callbacks τ ρ) (fd : Int) (v : FatVfs τ ρ) : VfsOp → List UInt8
  | .readFd fd' cap =>
    if fd' = fd then
      match vfsReadFd (fatCallbacks fs other) fd cap v with
      | .ok bytes _ => bytes
      | .error _ _ => []
    else []
  | _ => []

/-- The capacity of a read through `fd`. -/
def capacityThrough (fd : Int) : VfsOp → Nat
  | .readFd fd' cap => if fd' = fd then cap else 0
  | _ => 0

/-- All bytes that some calls return through `fd`, in order. -/
def readBack (fs : Fat32Fs) (other : Callbacks τ ρ) (fd : Int) : List VfsOp → FatVfs τ ρ → List UInt8
  | [], _ => []
  | op :: ops, v => bytesThrough fs other fd v op ++ readBack fs other fd ops (op.next fs other v)

/-- Calls during which a file is unmodified (`I`) and `fd` is only read. -/
def ReadsDuring (fs : Fat32Fs) (other : Callbacks τ ρ) (fd : Int) (I : FatWorld ρ → Prop) :
    List VfsOp → FatVfs τ ρ → Prop
  | [], _ => True
  | op :: ops, v => I v.world ∧ (op.descriptor = some fd → ∃ cap, op = .readFd fd cap) ∧
      ReadsDuring fs other fd I ops (op.next fs other v)

section Slices

variable {v : FatVfs τ ρ} {fd : Int} {file : VfsOpenFile} {node : VfsNode (FatCtx τ)} {I : FatWorld ρ → Prop}

/-- A read through the descriptor: the state after it, and its bytes. -/
theorem readFd_run (fs : Fat32Fs) (other : Callbacks τ ρ) (fd : Int) (cap : Nat) (v : FatVfs τ ρ) :
    (∃ bytes, vfsReadFd (fatCallbacks fs other) fd cap v = .ok bytes ((VfsOp.readFd fd cap).next fs other v) ∧
        bytesThrough fs other fd v (.readFd fd cap) = bytes) ∨
      (∃ e, vfsReadFd (fatCallbacks fs other) fd cap v = .error e ((VfsOp.readFd fd cap).next fs other v)) ∧
        bytesThrough fs other fd v (.readFd fd cap) = [] := by
  have hexec : (VfsOp.readFd fd cap).exec fs other v =
      EStateM.map (fun _ => ()) (vfsReadFd (fatCallbacks fs other) fd cap) v := rfl
  unfold VfsOp.next bytesThrough
  rw [hexec]
  unfold EStateM.map
  dsimp only
  rw [if_pos rfl]
  cases vfsReadFd (fatCallbacks fs other) fd cap v with
  | ok bytes v' => exact .inl ⟨bytes, rfl, rfl⟩
  | error e v' => exact .inr ⟨⟨e, rfl⟩, rfl⟩

/-- One call during which the file is unmodified: the bytes are those at the offset, and the offset moves
behind them. -/
theorem FileContract.step (h : FileContract (fatCallbacks fs other) node c I) (hfile : vfsFdAt v fd = some file)
    (hnode : v.nodes[file.node]? = some node) (hI : I v.world) {op : VfsOp}
    (hop : op.descriptor = some fd → ∃ cap, op = .readFd fd cap) :
    bytesThrough fs other fd v op <+: c.drop file.offset ∧
      vfsFdAt (op.next fs other v) fd =
        some { file with offset := file.offset + (bytesThrough fs other fd v op).length } := by
  by_cases hd : op.descriptor = some fd
  · obtain ⟨cap, rfl⟩ := hop hd
    rcases readFd_run fs other fd cap v with ⟨bytes, hrun, hbytes⟩ | ⟨⟨e, hrun⟩, hbytes⟩
    · obtain ⟨file', node', v₁, hfile', hnode', -, hread, hs, hnext⟩ := (readFd_moves fd cap v).of_ok hrun
      rw [hfile] at hfile'
      cases hfile'
      rw [hnode] at hnode'
      cases hnode'
      rw [hbytes, hnext, fdAt_putFd (fdAt_lt hfile).1 (fdAt_lt hfile).2, if_pos rfl]
      exact ⟨(h.readNode hI file.offset cap).of_ok hread, rfl⟩
    · rw [hbytes, ((readFd_moves fd cap v).of_error hrun).fdAt, hfile]
      exact ⟨List.nil_prefix, rfl⟩
  · have hnone : bytesThrough fs other fd v op = [] := by
      cases op with
      | readFd fd' cap => exact if_neg fun he => hd (congrArg some he)
      | _ => rfl
    rw [hnone, (tableEffect fs other op v).others hfile hd]
    exact ⟨List.nil_prefix, rfl⟩

/-- Any sequence of calls: the bytes read are a slice of the file that starts at the first offset. -/
theorem FileContract.slice (h : FileContract (fatCallbacks fs other) node c I) (ops : List VfsOp)
    (hfile : vfsFdAt v fd = some file) (hnode : v.nodes[file.node]? = some node)
    (hops : ReadsDuring fs other fd I ops v) :
    readBack fs other fd ops v <+: c.drop file.offset ∧
      vfsFdAt (runOps fs other ops v) fd =
        some { file with offset := file.offset + (readBack fs other fd ops v).length } := by
  induction ops generalizing v file with
  | nil => exact ⟨List.nil_prefix, hfile⟩
  | cons op ops ih =>
    obtain ⟨hI, hop, hrest⟩ := hops
    obtain ⟨⟨rest, hbytes⟩, hfile'⟩ := h.step hfile hnode hI hop
    have hnode' : (op.next fs other v).nodes[file.node]? = some node := (tableEffect fs other op v).node hnode
    obtain ⟨htail, hend⟩ := ih hfile' hnode' hrest
    dsimp only at htail hend
    constructor
    · -- what the later calls read starts where the bytes of this one end
      rw [← List.drop_drop, ← hbytes, List.drop_left] at htail
      rw [← hbytes]
      exact (List.prefix_append_right_inj _).mpr htail
    · rw [readBack, List.length_append, ← Nat.add_assoc]
      exact hend

/-- One call while the callbacks do all they can. -/
theorem FullContract.step (h : FullContract (fatCallbacks fs other) node c I) (hread : node.read = true)
    (hfile : vfsFdAt v fd = some file) (hmode : file.flags ≠ vfsOWronly) (hoff : file.offset ≤ c.length)
    (hnode : v.nodes[file.node]? = some node) (hI : I v.world) {op : VfsOp}
    (hop : op.descriptor = some fd → ∃ cap, op = .readFd fd cap) :
    bytesThrough fs other fd v op = (c.drop file.offset).take (capacityThrough fd op) := by
  by_cases hd : op.descriptor = some fd
  · obtain ⟨cap, rfl⟩ := hop hd
    have hret : Wp (vfsReadFd (fatCallbacks fs other) fd cap) v
        (fun bytes _ => bytes = (c.drop file.offset).take cap) fun _ _ => False := by
      have hfd : (vfsFdNode fd : FatVfsM τ ρ _) v = .ok (file, node) v := by
        refine Wp.eq_ok (wp_bind.mpr (wp_get.mpr ?_))
        rw [hfile]
        dsimp only
        rw [hnode]
        exact ⟨rfl, rfl⟩
      unfold vfsReadFd
      refine wp_bind.mpr (wp_of_ok hfd ?_)
      refine wp_guard (fun hm => absurd hm hmode) fun _ => ?_
      refine wp_bind.mpr (Wp.mono (h.readNode_returns hread hI hoff cap) (fun bytes v₁ hb => ?_) fun _ _ h => h)
      exact wp_bind.mpr (wp_modify.mpr hb)
    have hcap : capacityThrough fd (.readFd fd cap) = cap := if_pos rfl
    rw [hcap]
    rcases readFd_run fs other fd cap v with ⟨bytes, hrun, hbytes⟩ | ⟨⟨e, hrun⟩, -⟩
    · rw [hbytes]
      exact hret.of_ok hrun
    · exact (hret.of_error hrun).elim
  · cases op with
    | readFd fd' cap =>
      have hne : fd' ≠ fd := fun he => hd (congrArg some he)
      simp only [bytesThrough, capacityThrough, if_neg hne, List.take_zero]
    | _ => simp only [bytesThrough, capacityThrough, List.take_zero]

/-- Any sequence of calls while the callbacks do all they can. -/
theorem FullContract.slice (h : FullContract (fatCallbacks fs other) node c I) (hread : node.read = true)
    (ops : List VfsOp) (hfile : vfsFdAt v fd = some file) (hmode : file.flags ≠ vfsOWronly)
    (hoff : file.offset ≤ c.length) (hnode : v.nodes[file.node]? = some node)
    (hops : ReadsDuring fs other fd I ops v) :
    readBack fs other fd ops v = (c.drop file.offset).take (ops.map (capacityThrough fd)).sum := by
  induction ops generalizing v file with
  | nil => rfl
  | cons op ops ih =>
    obtain ⟨hI, hop, hrest⟩ := hops
    have hbytes := h.step hread hfile hmode hoff hnode hI hop
    have hfile' := (h.toFileContract.step hfile hnode hI hop).2
    have hnode' : (op.next fs other v).nodes[file.node]? = some node := (tableEffect fs other op v).node hnode
    have hlen : (bytesThrough fs other fd v op).length = min (capacityThrough fd op) (c.length - file.offset) := by
      rw [hbytes, List.length_take, List.length_drop]
    have htail := ih hfile' hmode (by dsimp only; omega) hnode' hrest
    dsimp only at htail
    have hrest : (c.drop file.offset).drop ((c.drop file.offset).take (capacityThrough fd op)).length =
        (c.drop file.offset).drop (capacityThrough fd op) := by
      rw [List.length_take]
      rcases Nat.le_total (capacityThrough fd op) (c.drop file.offset).length with hle | hle
      · rw [Nat.min_eq_left hle]
      · rw [Nat.min_eq_right hle, List.drop_length, List.drop_of_length_le hle]
    rw [readBack, htail, List.map_cons, List.sum_cons, hbytes, List.take_add, ← List.drop_drop, hrest]

end Slices

/-! ## The laws -/

/-- What holds of the descriptors in a state `v`, for one call and for any sequence of calls. -/
structure DescriptorLaws (fs : Fat32Fs) (other : Callbacks τ ρ) (v : FatVfs τ ρ) : Prop where
  /-- A call changes no open descriptor but its own. -/
  others : ∀ (op : VfsOp) fd file, vfsFdAt v fd = some file → op.descriptor ≠ some fd →
    vfsFdAt (op.next fs other v) fd = some file
  /-- A failed call changes no descriptor. -/
  failed : ∀ (op : VfsOp) fd, op.ok fs other v = false → vfsFdAt (op.next fs other v) fd = vfsFdAt v fd
  /-- A new descriptor was free, starts at the offset 0 and has the mode that was asked for. -/
  opened : ∀ path flags fd v', vfsOpenFlags fs path flags v = .ok fd v' → vfsFdAt v fd = none ∧
    ∃ index, vfsFdAt v' fd = some ⟨index, 0, flags &&& vfsOAccmode⟩
  writeOnly : ∀ fd file cap, vfsFdAt v fd = some file → file.flags = vfsOWronly →
    (VfsOp.readFd fd cap).ok fs other v = false
  readOnly : ∀ fd file buf, vfsFdAt v fd = some file → file.flags = vfsORdonly →
    (VfsOp.writeFd fd buf).ok fs other v = false
  /-- While the file is unmodified, what is read through a descriptor is a slice from its offset on, and
  the offset ends behind it. -/
  slices : ∀ fd file node c I ops, vfsFdAt v fd = some file → v.nodes[file.node]? = some node →
    FileContract (fatCallbacks fs other) node c I → ReadsDuring fs other fd I ops v →
    readBack fs other fd ops v <+: c.drop file.offset ∧ vfsFdAt (runOps fs other ops v) fd =
      some { file with offset := file.offset + (readBack fs other fd ops v).length }
  /-- The slice is as long as the capacities and the file allow if the callbacks do all they can. -/
  whole : ∀ fd file node c I ops, vfsFdAt v fd = some file → v.nodes[file.node]? = some node →
    node.read = true → file.flags ≠ vfsOWronly → file.offset ≤ c.length →
    FullContract (fatCallbacks fs other) node c I → ReadsDuring fs other fd I ops v →
    readBack fs other fd ops v = (c.drop file.offset).take (ops.map (capacityThrough fd)).sum

theorem isOk_map {ε σ β γ : Type} {m : EStateM ε σ β} {f : β → γ} {s : σ} : isOk (f <$> m) s = isOk m s := by
  show isOk (EStateM.map f m) s = isOk m s
  unfold isOk EStateM.map
  cases m s <;> rfl

/-- A specification that rules a result out. -/
theorem isOk_false_of_wp {ε σ β : Type} {m : EStateM ε σ β} {s : σ} {E : ε → σ → Prop}
    (h : Wp m s (fun _ _ => False) E) : isOk m s = false := by
  unfold Wp at h
  unfold isOk
  split at h
  · exact h.elim
  · rfl

theorem vfs_descriptorLaws (fs : Fat32Fs) (other : Callbacks τ ρ) (v : FatVfs τ ρ) :
    DescriptorLaws fs other v where
  others op fd file hfile hfd := (tableEffect fs other op v).others hfile hfd
  failed op fd hfail := by
    rcases tableEffect fs other op v with h | ⟨hok, -⟩
    · exact h.fdAt fd
    · rw [hok] at hfail
      cases hfail
  opened path flags fd v' hrun := by
    obtain ⟨hlt, hnone, v₁, index, -, rfl⟩ := (openFlags_fills path flags v).of_ok hrun
    refine ⟨hnone, index, ?_⟩
    rw [fdAt_putFd (by omega) (by simpa using hlt), if_pos rfl]
  writeOnly fd file cap hfile hmode := by
    unfold VfsOp.ok VfsOp.exec
    rw [isOk_map]
    refine isOk_false_of_wp (Wp.mono (readFd_moves fd cap v) (fun bytes v' h => ?_) fun _ _ h => h)
    obtain ⟨file', -, -, hfile', -, hne, -⟩ := h
    rw [hfile] at hfile'
    cases hfile'
    exact hne hmode
  readOnly fd file buf hfile hmode := by
    unfold VfsOp.ok VfsOp.exec
    rw [isOk_map]
    refine isOk_false_of_wp (Wp.mono (writeFd_moves fd buf v) (fun count v' h => ?_) fun _ _ h => h)
    obtain ⟨file', -, hfile', hne, -⟩ := h
    rw [hfile] at hfile'
    cases hfile'
    exact hne hmode
  slices _ _ _ _ _ ops hfile hnode hc hops := hc.slice ops hfile hnode hops
  whole _ _ _ _ _ ops hfile hnode hread hmode hoff hc hops := hc.slice hread ops hfile hmode hoff hnode hops

end Armonios
