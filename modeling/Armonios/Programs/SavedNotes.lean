import Armonios.Programs.Notes

/-!
# What is left of a note

`editor_load` takes at most 511 bytes, and `editor_save` writes from the start of the file: a FAT32 write ends the file
there, tmpfs keeps what stands behind.

* `FatFile`: a FAT file under a path, with or without a node;
* `editorSave_unedited`: what is left of a file that is loaded and saved;
* `editorLoad_saved`: what is loaded after a save.
-/

namespace Armonios

variable {τ ρ : Type} {fs : Fat32Fs} {other : Callbacks τ ρ} {r l : List Nat} {p name : Path} {k : Nat}
  {c buf : List UInt8}

/-! ## The files of the two filesystems -/

/-- The node of a FAT file whose chain is `l`. -/
structure FatNodeFile (fs : Fat32Fs) (r l : List Nat) (p : Path) (k : Nat) (c : List UInt8) (v : FatVfs τ ρ) :
    Prop where
  holds : HoldsFat fs r v p k c
  chain : ∀ node i file, v.nodes[k]? = some node → node.context = .fat i → v.world.files[i]? = some file →
    FileChain fs v.world.dev.disk file.slot l

theorem noteFile_fat (fs : Fat32Fs) (r : List Nat) (other : Callbacks τ ρ) (p : Path) (k : Nat) :
    NoteFile (fun c v => HoldsFat fs r v p k c) fs other p k where
  found h := h.found
  node h := by
    obtain ⟨node, -, -, -, hnode, -, hread, hwrite, -⟩ := h.file
    exact ⟨node, hnode, hread, hwrite⟩
  shows h := h.shows
  openFiles h := ⟨h.fat, h.found, h.file⟩

theorem noteFile_tmpfs (fs : Fat32Fs) (p : Path) (k : Nat) :
    NoteFile (fun c v => HoldsTmpfs v p k c) fs tmpfsCallbacks p k where
  found h := h.found
  node h := by
    obtain ⟨node, -, -, -, hnode, -, hread, hwrite, -⟩ := h.file
    exact ⟨node, hnode, hread, hwrite⟩
  shows h := h.shows
  openFiles h := ⟨h.found, h.file⟩

/-- The clusters that a write of `n` bytes to the file of the node `k` needs. -/
def FatSupply (fs : Fat32Fs) (n k : Nat) (v : FatVfs τ ρ) : Prop :=
  ∀ node i file l, v.nodes[k]? = some node → node.context = .fat i → v.world.files[i]? = some file →
    FileChain fs v.world.dev.disk file.slot l → FreeClusters fs v.world.dev.disk (clustersFor fs n - l.length)

section Write

variable {v : FatVfs τ ρ} {node : VfsNode (FatCtx τ)}

/-- A FAT write from the start leaves its bytes only. -/
theorem HoldsFat.writeStart (h : HoldsFat fs r v p k c) (hfree : FatSupply fs buf.length k v)
    (hnode : v.nodes[k]? = some node) :
    Wp (writeNode (fatCallbacks fs other) node 0 buf) v (fun _ v' => HoldsFat fs r v' p k buf) fun _ _ => True := by
  obtain ⟨node', i, file, l, hnode', hctx, hread, hwrite, hstat, hfile, hf, -⟩ := h.file
  rw [hnode] at hnode'
  cases hnode'
  have hi : i < v.world.files.length := (List.getElem?_eq_some_iff.mp hfile).1
  refine Wp.mono (writeNode_effect node 0 buf h.fat.reliable) ?_ fun _ _ _ => trivial
  rintro n v' (⟨⟨ctx, hother⟩, -⟩ | ⟨j, file', hctx', -, hwrote⟩)
  · rw [hctx] at hother
    cases hother
  rw [hctx] at hctx'
  cases hctx'
  have hfile' := hwrote.handle
  rw [hfile] at hfile'
  cases hfile'
  obtain ⟨t, hran, hfiles, hdev⟩ := hwrote.ran
  have hneed : FreeClusters fs v.world.dev.disk (clustersFor fs (0 + buf.length) - l.length) := by
    rw [Nat.zero_add]
    exact hfree node i file l hnode hctx hfile hf.chain
  obtain ⟨l', hfw⟩ := freshWrite (t := ⟨file, v.world.dev⟩) h.fat hf hneed hran
  have hbytes := hfw.bytes hf
  rw [List.take_zero, List.nil_append, ← hfw.slot] at hbytes
  refine ⟨?_, ?_, node, i, t.file, l', ?_, hctx, hread, hwrite, hstat, ?_, ?_, ?_⟩
  · rw [hdev]
    exact hfw.fat
  · rw [hwrote.nodes]
    exact h.found
  · rw [hwrote.nodes]
    exact hnode
  · rw [hfiles]
    exact List.getElem?_set_self hi
  · rw [hdev]
    exact hfw.fresh
  · rw [hdev]
    exact hbytes

/-- What `save_note` needs of the write. -/
theorem fat_writes (k : Nat) (w : FatVfs τ ρ) (fd : Nat) (file : Option VfsOpenFile) (node : VfsNode (FatCtx τ))
    (h : HoldsFat fs r w p k c) (hfree : FatSupply fs buf.length k w) (hnode : w.nodes[k]? = some node) :
    Wp (writeNode (fatCallbacks fs other) node 0 buf) (putFd w fd file)
      (fun n w => n = buf.length → HoldsFat fs r w p k buf) fun _ _ => True := by
  have hopen : HoldsFat fs r (putFd w fd file) p k c := (noteFile_fat fs r other p k).openFiles h
  exact Wp.mono (hopen.writeStart hfree hnode) (fun _ _ h _ => h) fun _ _ h => h

/-- No cluster is needed for less than what the file has. -/
theorem HoldsFat.supply_of_le (h : HoldsFat fs r v p k c) {n : Nat} (hn : n ≤ c.length) : FatSupply fs n k v := by
  obtain ⟨node, i, file, l, hnode, hctx, -, -, -, hfile, hf, rfl⟩ := h.file
  intro node' i' file' l' hnode' hctx' hfile' hc'
  rw [hnode] at hnode'
  cases hnode'
  rw [hctx] at hctx'
  cases hctx'
  rw [hfile] at hfile'
  cases hfile'
  obtain rfl := hf.chain.unique hc'
  have hfits := (h.fat.tidy.fits _ hf.mem hf.live _ hf.chain).1
  rw [fileBytes_length hfits] at hn
  have hle := clustersFor_le h.fat.volume.geometry (hn.trans hfits)
  rw [Nat.sub_eq_zero_of_le hle]
  exact ⟨[], by simp⟩

end Write

/-- The count that `tmpfs_write` returns stays within the storage. -/
theorem tmpfsWrite_count (name : Path) (t : Tmpfs) :
    Wp (tmpfsWrite name 0 buf) t (fun n _ => n ≤ tmpfsMaxFileSize) fun _ _ => True := by
  unfold tmpfsWrite
  refine wp_bind_any fun entry t' => ?_
  obtain ⟨index, file⟩ := entry
  dsimp only
  rw [dif_neg (Nat.not_lt_zero _)]
  exact wp_bind.mpr (wp_modify.mpr (wp_pure.mpr (Nat.min_le_right _ _)))

/-- A tmpfs write from the start that writes everything keeps what stands behind it. -/
theorem HoldsTmpfs.writeStart {v : FatVfs Path Tmpfs} {node : VfsNode (FatCtx Path)} (h : HoldsTmpfs v p k c)
    (hnode : v.nodes[k]? = some node) :
    Wp (writeNode (fatCallbacks fs tmpfsCallbacks) node 0 buf) v
      (fun n v' => n = buf.length → HoldsTmpfs v' p k (buf ++ c.drop buf.length)) fun _ _ => True := by
  by_cases hfit : 0 + buf.length ≤ tmpfsMaxFileSize
  · refine Wp.mono (h.write (Nat.zero_le _) hfit hnode) (fun n v' hw _ => ?_) fun _ _ h => h.elim
    have hholds := hw.2
    rw [List.take_zero, List.nil_append, Nat.zero_add] at hholds
    exact hholds
  -- a write that is cut does not write everything
  obtain ⟨node', name, index, file, hnode', hctx, -⟩ := h.file
  rw [hnode] at hnode'
  cases hnode'
  unfold writeNode
  refine wp_guard (fun _ => trivial) fun _ => wp_bind.mpr ?_
  refine Wp.mono (wp_const trivial) (fun size w _ => wp_guard (fun _ => trivial) fun _ => ?_) fun _ _ h => h
  rw [hctx]
  refine wp_bind.mpr (wp_onPart.mpr (wp_onPart.mpr ?_))
  refine Wp.mono (tmpfsWrite_count name _) (fun n t hn => wp_guard (fun _ => trivial) fun _ => wp_pure.mpr ?_)
    fun _ _ h => h
  rintro rfl
  omega

/-! ## Opening -/

/-- A FAT file with the chain `l` and the contents `c` is found under the path `p`: by a node with a fresh handle, or
in the root directory. -/
inductive FatFile (fs : Fat32Fs) (r l : List Nat) (v : FatVfs τ ρ) (p : Path) (c : List UInt8) : Prop
  | mounted (k : Nat) (node : FatNodeFile fs r l p k c v)
  | present (name : Path) (s : Slot) (fat : FatOk fs r v.world.dev) (fresh : vfsFind v.nodes p = none)
      (rootName : vfsFat32RootName p = some name) (openable : Openable fs r v.world.dev.disk name s l)
      (bytes : fileBytes fs v.world.dev.disk s l = c)

/-- A new mount of a FAT file. -/
theorem Mounts.node {v v' : FatVfs τ ρ} {s : Slot} (h : Mounts fs r p name v v') (hok : FatOk fs r v.world.dev)
    (hname : vfsFat32RootName p = some name) (ho : Openable fs r v.world.dev.disk name s l) :
    FatNodeFile fs r l p v.nodes.length (fileBytes fs v.world.dev.disk s l) v' := by
  obtain ⟨s', l', ho', hnodes, hfiles⟩ := h.mounted
  obtain ⟨rfl, rfl⟩ := ho.unique ho'
  have hpath : p ≠ [] := by
    rintro rfl
    cases vfsFat32RootName_head hname
  have hnode : v'.nodes[v.nodes.length]? =
      some (fatNode p (handleOf fs v.world.dev.disk s' l') v.world.files.length) := by
    simp [hnodes]
  have hfile : v'.world.files[v.world.files.length]? = some (handleOf fs v.world.dev.disk s' l') := by
    simp [hfiles]
  refine ⟨⟨?_, ?_, _, _, _, l', hnode, rfl, rfl, rfl, rfl, hfile, ?_, ?_⟩, fun node i file hnode' hctx hfile' => ?_⟩
  · rw [h.dev]
    exact hok
  · rw [hnodes]
    exact vfsFind_mounted _ hpath h.fresh
  · rw [h.dev]
    exact ⟨ho.mem, ⟨ho.live, ho.isFile⟩, ho.chain, rfl⟩
  · rw [h.dev]
    rfl
  · rw [hnode] at hnode'
    cases hnode'
    cases hctx
    rw [hfile] at hfile'
    cases hfile'
    rw [h.dev]
    exact ho.chain

theorem FatNodeFile.supply {v : FatVfs τ ρ} {n : Nat} (h : FatNodeFile fs r l p k c v)
    (hfree : FreeClusters fs v.world.dev.disk (clustersFor fs n - l.length)) : FatSupply fs n k v := by
  intro node i file l' hnode hctx hfile hc
  obtain rfl := (h.chain node i file hnode hctx hfile).unique hc
  exact hfree

/-- What the lookup of a name finds: a file with the contents `c`, and room to make it one of `n` bytes. -/
def NoteReady (fs : Fat32Fs) (r : List Nat) (name : Path) (c : List UInt8) (n : Nat) (d : Dev) : Prop :=
  ∀ s l, Openable fs r d.disk name s l →
    fileBytes fs d.disk s l = c ∧ FreeClusters fs d.disk (clustersFor fs n - l.length)

/-- An open of a FAT path without a node. -/
theorem opens_dynamic {v : FatVfs τ ρ} {n : Nat} (hfind : vfsFind v.nodes p = none)
    (hname : vfsFat32RootName p = some name)
    (hlookup : ∀ flags, Wp (lookupOrCreate fs name flags) v.world.dev
      (fun _ d => FatOk fs r d ∧ NoteReady fs r name c n d) fun _ _ => True) :
    OpensNote (fun k c w => HoldsFat fs r w p k c) fs p c (FatSupply fs n) v := by
  intro flags
  unfold vfsOpenFlags
  refine wp_guard (fun _ => trivial) fun _ => wp_bind.mpr (wp_get.mpr ?_)
  rw [hfind]
  refine wp_bind.mpr ?_
  unfold vfsOpenDynamicFat32Node
  rw [hname]
  refine wp_guard (fun _ => trivial) fun _ => wp_bind.mpr (wp_onPart.mpr (wp_onPart.mpr ?_))
  refine Wp.mono (hlookup flags) ?_ fun _ _ h => h
  rintro _ d ⟨hok, hready⟩
  refine wp_bind.mpr (Wp.mono (mountVfsFile_effect (v := withDev v d) p name hok)
    (fun _ w hm => ?_) fun _ _ _ => trivial)
  obtain ⟨s, l, ho, -⟩ := hm.mounted
  obtain ⟨rfl, hfree⟩ := hready s l ho
  have hnode := hm.node hok hname ho
  refine wp_bind.mpr (wp_get.mpr ?_)
  rw [hnode.holds.found]
  refine wp_pure.mpr (Wp.mono (openNode_fills _ _ w) ?_ fun _ _ _ => trivial)
  rintro fd _ ⟨hlt, hnone, rfl⟩
  refine ⟨_, w, hnode.holds, hnode.supply ?_, hlt, hnone, rfl⟩
  rw [hm.dev]
  exact hfree

theorem FatFile.opens {v : FatVfs τ ρ} {n : Nat} (h : FatFile fs r l v p c)
    (hfree : FreeClusters fs v.world.dev.disk (clustersFor fs n - l.length)) :
    OpensNote (fun k c w => HoldsFat fs r w p k c) fs p c (FatSupply fs n) v := by
  cases h with
  | mounted k node =>
    intro flags
    refine Wp.mono (openFlags_found node.holds.found flags) ?_ fun _ _ h => h
    rintro fd v' ⟨hlt, hnone, rfl⟩
    exact ⟨k, v, node.holds, node.supply hfree, hlt, hnone, rfl⟩
  | present name s fat fresh rootName openable bytes =>
    refine opens_dynamic fresh rootName fun flags => ?_
    -- the lookup finds the file
    unfold lookupOrCreate
    refine wp_bind.mpr (wp_attempt.mpr (Wp.mono (openRoot_reliable fat.volume fat.reliable name) ?_ ?_))
    · rintro file d ⟨rfl, -⟩
      refine ⟨fat, fun s' l' ho => ?_⟩
      obtain ⟨rfl, rfl⟩ := openable.unique ho
      exact ⟨bytes, hfree⟩
    · rintro e d ⟨-, -, hno⟩
      exact absurd ⟨s, l, openable⟩ hno

/-! ## New files -/

theorem FreeClusters.mono {disk : Nat → Sector} {m n : Nat} (h : FreeClusters fs disk n) (hm : m ≤ n) :
    FreeClusters fs disk m := by
  obtain ⟨free, hnodup, rfl, hall⟩ := h
  refine ⟨free.take m, hnodup.sublist (List.take_sublist m free), ?_, fun x hx => hall x (List.mem_of_mem_take hx)⟩
  rw [List.length_take]
  exact Nat.min_eq_left hm

/-- A new file is empty, and has one of the free clusters. -/
theorem NewFile.ready {d d' : Dev} {n : Nat} (h : NewFile fs r name d d') (hok : FatOk fs r d)
    (hfree : FreeClusters fs d.disk (max 1 (clustersFor fs n))) : NoteReady fs r name [] n d' := by
  obtain ⟨⟨w, s, b, hw, hcr⟩, hno⟩ := h
  intro s' l ho
  have hit := ho.hit hw
  -- the entry of the name is the new one
  have hs : s' = s := by
    by_contra hss
    exact hok.tidy.no_hit hok.volume hw hno ho.mem ((hcr.others s' ho.mem hss).hit.mp hit)
  subst hs
  have hfirst : 2 ≤ slotFirst d'.disk s' := by
    rw [hcr.first]
    exact hcr.inData.ge
  have hlen : 0 < l.length := by
    rcases ho.chain with ⟨-, hchain⟩ | ⟨hlt, -⟩
    · refine hchain.length_pos ?_
      rw [hcr.first]
      exact hcr.inData.not_eoc
    · omega
  refine ⟨?_, ?_⟩
  · unfold fileBytes
    rw [hcr.size, List.take_zero]
  · have hpos : max 1 (clustersFor fs n) = (max 1 (clustersFor fs n) - 1) + 1 := by omega
    rw [hpos] at hfree
    refine (hfree.take b fun x hx hxb h0 => ?_).mono (by omega)
    rw [hcr.next x hx hxb]
    exact h0

theorem opens_new {v : FatVfs τ ρ} {n : Nat} (hok : FatOk fs r v.world.dev) (hfind : vfsFind v.nodes p = none)
    (hname : vfsFat32RootName p = some name) (hno : ¬∃ s l, Openable fs r v.world.dev.disk name s l)
    (hfree : FreeClusters fs v.world.dev.disk (max 1 (clustersFor fs n))) :
    OpensNote (fun k c w => HoldsFat fs r w p k c) fs p [] (FatSupply fs n) v := by
  refine opens_dynamic hfind hname fun flags => ?_
  refine Wp.mono (lookupOrCreate_effect hok fun _ _ => hfree.mono (Nat.le_max_left _ _)) ?_ fun _ _ _ => trivial
  rintro _ d ⟨hokd, rfl | ⟨-, hnew⟩⟩
  · exact ⟨hok, fun s l ho => absurd ⟨s, l, ho⟩ hno⟩
  · exact ⟨hokd, hnew.ready hok hfree⟩

/-! ## Loading and saving without an edit -/

section Unedited

variable {v v₁ v₂ : FatVfs τ ρ} {e e₁ e₂ : EditorState}

theorem HoldsFat.nodeFile (h : HoldsFat fs r v p k c) : ∃ l, FatNodeFile fs r l p k c v := by
  obtain ⟨node, i, file, l, hnode, hctx, -, -, -, hfile, hf, -⟩ := h.file
  refine ⟨l, h, fun node' i' file' hnode' hctx' hfile' => ?_⟩
  rw [hnode] at hnode'
  cases hnode'
  rw [hctx] at hctx'
  cases hctx'
  rw [hfile] at hfile'
  cases hfile'
  exact hf.chain

theorem FatFile.fat (h : FatFile fs r l v p c) : FatOk fs r v.world.dev := by
  cases h with
  | mounted k node => exact node.holds.fat
  | present name s fat => exact fat

/-- The save leaves the part of the file that was loaded. -/
theorem editorSave_loaded (ways : List EditorState.Move) (h : FatFile fs r l v p c)
    (hload : editorLoad fs other p e v = .ok e₁ v₁) (hopened : e₁.status = .opened)
    (hsave : editorSave fs other p (ways.foldl EditorState.move e₁) v₁ = .ok e₂ v₂) (hsaved : e₂.status = .saved) :
    ∃ k, HoldsFat fs r v₂ p k (c.take (editorFileCap - 1)) := by
  have hnone : clustersFor fs 0 - l.length = 0 :=
    Nat.sub_eq_zero_of_le ((clustersFor_le h.fat.volume.geometry (by simp)).trans (Nat.zero_le l.length))
  have hopens := h.opens (n := 0) (by rw [hnone]; exact ⟨[], by simp⟩)
  obtain ⟨htext, k, hk, -⟩ := (editorLoad_spec (noteFile_fat fs r other p) hopens e).of_ok hload hopened
  obtain ⟨caret, hmoves⟩ := e₁.moves_same ways
  rw [hmoves] at hsave
  generalize he : ({ e₁ with caret } : EditorState) = e' at hsave
  have htext' : e'.text = c.take (editorFileCap - 1) := by
    rw [← he]
    exact htext
  have hsupply : FatSupply fs e'.text.length k v₁ := hk.supply_of_le (by simp [htext'])
  have hopens₁ : OpensNote (fun k c w => HoldsFat fs r w p k c) fs p c (FatSupply fs e'.text.length) v₁ := by
    intro flags
    refine Wp.mono (openFlags_found hk.found flags) ?_ fun _ _ h => h
    rintro fd v' ⟨hlt, hfree, rfl⟩
    exact ⟨k, v₁, hk, hsupply, hlt, hfree, rfl⟩
  obtain ⟨k', hk', -⟩ := (editorSave_spec (noteFile_fat fs r other p) hopens₁ fat_writes).of_ok hsave hsaved
  rw [htext'] at hk'
  exact ⟨k', hk'⟩

/-- A file with a node has the contents that the node shows. -/
theorem FatFile.contents_eq {c' : List UInt8} (h : FatFile fs r l v p c) (hk : HoldsFat fs r v p k c') : c = c' := by
  cases h with
  | mounted k' node =>
    obtain ⟨_, i, file, l, hnode, hctx, -, -, -, hfile, hf, rfl⟩ := hk.file
    obtain ⟨_, i', file', l', hnode', hctx', -, -, -, hfile', hf', rfl⟩ := node.holds.file
    have hfound := node.holds.found
    rw [hk.found] at hfound
    cases hfound
    rw [hnode] at hnode'
    cases hnode'
    rw [hctx] at hctx'
    cases hctx'
    rw [hfile] at hfile'
    cases hfile'
    rw [hf.chain.unique hf'.chain]
  | present name s fat fresh =>
    rw [hk.found] at fresh
    cases fresh

/-- A file that is loaded and saved without an edit in between keeps its contents if and only if it fits into the
buffer of the editor. -/
theorem editorSave_unedited (ways : List EditorState.Move) (h : FatFile fs r l v p c)
    (hload : editorLoad fs other p e v = .ok e₁ v₁) (hopened : e₁.status = .opened)
    (hsave : editorSave fs other p (ways.foldl EditorState.move e₁) v₁ = .ok e₂ v₂) (hsaved : e₂.status = .saved) :
    (∃ l', FatFile fs r l' v₂ p c) ↔ c.length < editorFileCap := by
  obtain ⟨k, hk⟩ := editorSave_loaded ways h hload hopened hsave hsaved
  constructor
  · rintro ⟨l', hfile⟩
    have hlen := congrArg List.length (hfile.contents_eq hk)
    rw [List.length_take] at hlen
    unfold editorFileCap at hlen ⊢
    omega
  · intro hlt
    rw [List.take_of_length_le (Nat.le_sub_one_of_lt hlt)] at hk
    obtain ⟨l', hnode⟩ := hk.nodeFile
    exact ⟨l', .mounted k hnode⟩

end Unedited

/-- A load and a save, with what they report. -/
def loadAndSave (fs : Fat32Fs) (other : Callbacks τ ρ) (p : Path) (e : EditorState) :
    FatVfsM τ ρ (EditorStatus × EditorStatus) := do
  let e₁ ← editorLoad fs other p e
  let e₂ ← editorSave fs other p e₁
  return (e₁.status, e₂.status)

theorem loadAndSave_runs (e : EditorState) (v : FatVfs τ ρ) : Wp (loadAndSave fs other p e) v
    (fun status v₂ => ∃ e₁ v₁ e₂, editorLoad fs other p e v = .ok e₁ v₁ ∧
      editorSave fs other p e₁ v₁ = .ok e₂ v₂ ∧ status = (e₁.status, e₂.status)) fun _ _ => True := by
  unfold loadAndSave
  refine wp_bind.mpr (Wp.mono wp_self (fun e₁ v₁ hload => ?_) fun _ _ _ => trivial)
  refine wp_bind.mpr (Wp.mono wp_self (fun e₂ v₂ hsave => wp_pure.mpr ?_) fun _ _ _ => trivial)
  exact ⟨e₁, v₁, e₂, hload, hsave, rfl⟩

/-- The file of five bytes. -/
theorem editorSave_unedited_sample : ∃ (l : List Nat) (v : FatVfs Path Tmpfs),
    FatFile sampleFs [2] l v samplePath (List.replicate 5 0) := by
  have hrun : valueOf (loadAndSave sampleFs tmpfsCallbacks samplePath .init) sampleTwo = some (.opened, .saved) := by
    decide +kernel
  obtain ⟨v₂, hrun⟩ := exists_of_valueOf hrun
  obtain ⟨e₁, v₁, e₂, hload, hsave, hstatus⟩ := (loadAndSave_runs .init sampleTwo).of_ok hrun
  rw [Prod.mk.injEq] at hstatus
  obtain ⟨l, hnode⟩ := sampleTwo_fat.nodeFile
  obtain ⟨l', hfile⟩ := (editorSave_unedited [] (.mounted 1 hnode) hload hstatus.1.symm hsave hstatus.2.symm).mpr
    (by decide)
  exact ⟨l', v₂, hfile⟩

def sampleLongBytes : List UInt8 := List.replicate 512 0

/-- The same after a write of 512 bytes. -/
def sampleLongNote : FatVfsM Path Tmpfs (EditorStatus × EditorStatus) := do
  let _ ← vfsWrite (fatCallbacks sampleFs tmpfsCallbacks) samplePath 0 sampleLongBytes
  loadAndSave sampleFs tmpfsCallbacks samplePath .init

theorem sampleLongNote_runs {v v₂ : FatVfs Path Tmpfs} {status : EditorStatus × EditorStatus}
    (h : HoldsFat sampleFs r v samplePath k c) (hroom : FatRoom sampleFs v k (0 + sampleLongBytes.length))
    (hrun : sampleLongNote v = .ok status v₂) : ∃ v₀ e₁ v₁ e₂, HoldsFat sampleFs r v₀ samplePath k sampleLongBytes ∧
      editorLoad sampleFs tmpfsCallbacks samplePath .init v₀ = .ok e₁ v₁ ∧
      editorSave sampleFs tmpfsCallbacks samplePath e₁ v₁ = .ok e₂ v₂ ∧ status = (e₁.status, e₂.status) := by
  suffices hspec : Wp sampleLongNote v (fun status w => ∃ v₀ e₁ v₁ e₂,
      HoldsFat sampleFs r v₀ samplePath k sampleLongBytes ∧
      editorLoad sampleFs tmpfsCallbacks samplePath .init v₀ = .ok e₁ v₁ ∧
      editorSave sampleFs tmpfsCallbacks samplePath e₁ v₁ = .ok e₂ w ∧ status = (e₁.status, e₂.status))
      fun _ _ => True from hspec.of_ok hrun
  refine wp_bind.mpr (Wp.mono (h.writeBy tmpfsCallbacks .path trivial (Nat.zero_le _) hroom) (fun n v₀ h₀ => ?_)
    fun _ _ h => h.elim)
  refine Wp.mono (loadAndSave_runs .init v₀) ?_ fun _ _ h => h
  rintro status w ⟨e₁, v₁, e₂, hrest⟩
  exact ⟨v₀, e₁, v₁, e₂, h₀.2, hrest⟩

/-- A file of 512 bytes loses one of them. -/
theorem editorSave_cuts_note : ¬∀ (l : List Nat) (c : List UInt8) (v v₁ v₂ : FatVfs Path Tmpfs)
    (e e₁ e₂ : EditorState) (ways : List EditorState.Move), FatFile sampleFs [2] l v samplePath c →
    editorLoad sampleFs tmpfsCallbacks samplePath e v = .ok e₁ v₁ → e₁.status = .opened →
    editorSave sampleFs tmpfsCallbacks samplePath (ways.foldl EditorState.move e₁) v₁ = .ok e₂ v₂ →
    e₂.status = .saved → ∃ l', FatFile sampleFs [2] l' v₂ samplePath c := by
  intro hall
  have hlong : sampleLongBytes.length = 512 := List.length_replicate
  have hrun : valueOf sampleLongNote sampleTwo = some (.opened, .saved) := by decide +kernel
  obtain ⟨v₂, hrun⟩ := exists_of_valueOf hrun
  have hroom : FatRoom sampleFs sampleTwo 1 (0 + sampleLongBytes.length) :=
    sampleTwo_room (by rw [hlong]; decide +kernel)
  obtain ⟨v, e₁, v₁, e₂, hv, hload, hsave, hstatus⟩ := sampleLongNote_runs sampleTwo_fat hroom hrun
  rw [Prod.mk.injEq] at hstatus
  obtain ⟨l, hnode⟩ := hv.nodeFile
  obtain ⟨l', hfile⟩ := hall l _ v v₁ v₂ .init e₁ e₂ [] (.mounted 1 hnode) hload hstatus.1.symm hsave hstatus.2.symm
  -- what the save leaves
  obtain ⟨k, hk⟩ := editorSave_loaded [] (.mounted 1 hnode) hload hstatus.1.symm hsave hstatus.2.symm
  have hlen := congrArg List.length (hfile.contents_eq hk)
  rw [List.length_take, hlong] at hlen
  exact absurd hlen (by decide)

/-! ## Loading what was saved -/

inductive NoteBackend
  | tmpfs | fat

/-- The path stands for a file of `b` with the contents `c`, or for a new FAT file. Where FAT needs clusters for `n`
bytes, they are free. -/
inductive NoteAt (fs : Fat32Fs) (r : List Nat) (v : FatVfs Path Tmpfs) (p : Path) (n : Nat) :
    NoteBackend → List UInt8 → Prop
  | tmpfs (k : Nat) (c : List UInt8) (holds : HoldsTmpfs v p k c) : NoteAt fs r v p n .tmpfs c
  | fat (l : List Nat) (c : List UInt8) (file : FatFile fs r l v p c)
      (room : FreeClusters fs v.world.dev.disk (clustersFor fs n - l.length)) : NoteAt fs r v p n .fat c
  | new (name : Path) (fat : FatOk fs r v.world.dev) (fresh : vfsFind v.nodes p = none)
      (rootName : vfsFat32RootName p = some name) (missing : ¬∃ s l, Openable fs r v.world.dev.disk name s l)
      (room : FreeClusters fs v.world.dev.disk (max 1 (clustersFor fs n))) : NoteAt fs r v p n .fat []

section Saved

variable {v v₁ : FatVfs Path Tmpfs} {e e₁ : EditorState} {b : NoteBackend}

theorem HoldsTmpfs.length_le (h : HoldsTmpfs v p k c) : c.length ≤ tmpfsMaxFileSize := by
  obtain ⟨-, -, -, file, -, -, -, -, -, -, rfl⟩ := h.file
  rw [file.length_contents]
  exact file.size_le

theorem EditorState.length_text (h : e.fileLen < editorFileCap) : e.text.length ≤ editorFileCap - 1 := by
  unfold text
  rw [List.length_take]
  omega

/-- A load after a save to tmpfs. -/
theorem HoldsTmpfs.editorLoad (h : HoldsTmpfs v p k c) (hsave : editorSave fs tmpfsCallbacks p e v = .ok e₁ v₁)
    (hsaved : e₁.status = .saved) (e' : EditorState) : ∃ e₂, Armonios.editorLoad fs tmpfsCallbacks p e' v₁ = .ok e₂ v₁ ∧
      e₂.status = .opened ∧ e₂.text = e.text ++ c.drop e.text.length := by
  have hopens : OpensNote (fun k c w => HoldsTmpfs w p k c) fs p c (fun _ _ => True) v := by
    intro flags
    refine Wp.mono (openFlags_found h.found flags) ?_ fun _ _ h => h
    rintro fd v' ⟨hlt, hfree, rfl⟩
    exact ⟨k, v, h, trivial, hlt, hfree, rfl⟩
  have hwrite : ∀ k w (fd : Nat) file node, HoldsTmpfs w p k c → True → w.nodes[k]? = some node →
      Wp (writeNode (fatCallbacks fs tmpfsCallbacks) node 0 e.text) (putFd w fd file)
        (fun n w => n = e.text.length → HoldsTmpfs w p k (e.text ++ c.drop e.text.length)) fun _ _ => True := by
    intro k w fd file node hw _ hnode
    have hopen : HoldsTmpfs (putFd w fd file) p k c := (noteFile_tmpfs fs p k).openFiles hw
    exact hopen.writeStart hnode
  obtain ⟨k', hk', hfree⟩ := (editorSave_spec (noteFile_tmpfs fs p) hopens hwrite).of_ok hsave hsaved
  obtain ⟨e₂, hload, hopened, htext⟩ := (noteFile_tmpfs fs p k').editorLoad hk' hfree e'
  refine ⟨e₂, hload, hopened, ?_⟩
  rw [htext, List.take_of_length_le (hk'.length_le.trans (by decide))]

/-- A load after a save to FAT32, whether the file was there or not. -/
theorem OpensNote.editorLoad (hopens : OpensNote (fun k c w => HoldsFat fs r w p k c) fs p c
    (FatSupply fs e.text.length) v)
    (hlen : e.fileLen < editorFileCap) (hsave : editorSave fs tmpfsCallbacks p e v = .ok e₁ v₁)
    (hsaved : e₁.status = .saved) (e' : EditorState) : ∃ e₂, Armonios.editorLoad fs tmpfsCallbacks p e' v₁ = .ok e₂ v₁ ∧
      e₂.status = .opened ∧ e₂.text = e.text := by
  obtain ⟨k, hk, hfree⟩ := (editorSave_spec (noteFile_fat fs r tmpfsCallbacks p) hopens fat_writes).of_ok hsave hsaved
  obtain ⟨e₂, hload, hopened, htext⟩ := (noteFile_fat fs r tmpfsCallbacks p k).editorLoad hk hfree e'
  refine ⟨e₂, hload, hopened, ?_⟩
  rw [htext, List.take_of_length_le (e.length_text hlen)]

/-- After a save, a load of the same path shows what was saved if and only if the path is on FAT32, or the file was
not longer than what was saved. -/
theorem editorLoad_saved (e' : EditorState) (h : NoteAt fs r v p e.text.length b c) (hlen : e.fileLen < editorFileCap)
    (hsave : editorSave fs tmpfsCallbacks p e v = .ok e₁ v₁) (hsaved : e₁.status = .saved) :
    (∃ e₂ v₂, editorLoad fs tmpfsCallbacks p e' v₁ = .ok e₂ v₂ ∧ e₂.status = .opened ∧ e₂.text = e.text) ↔
      (b = .tmpfs → c.length ≤ e.text.length) := by
  have hfat : ∀ c', OpensNote (fun k c w => HoldsFat fs r w p k c) fs p c' (FatSupply fs e.text.length) v →
      ∃ e₂ v₂, editorLoad fs tmpfsCallbacks p e' v₁ = .ok e₂ v₂ ∧ e₂.status = .opened ∧ e₂.text = e.text := by
    intro c' hopens
    obtain ⟨e₂, hload⟩ := hopens.editorLoad hlen hsave hsaved e'
    exact ⟨e₂, v₁, hload⟩
  cases h with
  | tmpfs k c holds =>
    obtain ⟨e₂, hload, hopened, htext⟩ := holds.editorLoad hsave hsaved e'
    constructor
    · rintro ⟨e₃, v₃, hload', -, htext'⟩ -
      rw [hload] at hload'
      cases hload'
      rw [htext, List.append_right_eq_self, List.drop_eq_nil_iff] at htext'
      exact htext'
    · intro hle
      rw [List.drop_of_length_le (hle rfl), List.append_nil] at htext
      exact ⟨e₂, v₁, hload, hopened, htext⟩
  | fat l c file room =>
    refine ⟨fun _ hno => ?_, fun _ => hfat c (file.opens room)⟩
    cases hno
  | new name fat fresh rootName missing room =>
    refine ⟨fun _ hno => ?_, fun _ => hfat [] (opens_new fat fresh rootName missing room)⟩
    cases hno

end Saved

theorem saved_of_map {m : FatVfsM τ ρ EditorState} {v v' : FatVfs τ ρ} {status : EditorStatus}
    (h : ((·.status) <$> m) v = .ok status v') : ∃ e, m v = .ok e v' ∧ e.status = status := by
  have hspec : Wp ((·.status) <$> m) v (fun status v' => ∃ e, m v = .ok e v' ∧ e.status = status) fun _ _ => True :=
    wp_map.mpr (Wp.mono wp_self (fun e _ he => ⟨e, he, rfl⟩) fun _ _ _ => trivial)
  exact hspec.of_ok h

/-- A note of one byte. -/
def sampleNote : EditorState := { EditorState.init with file := EditorState.init.file.set 0 1, fileLen := 1 }

/-- The note is saved under `/fat/a` and loaded again. -/
theorem editorLoad_saved_sample : ∃ e₂ v₁ v₂, editorLoad sampleFs tmpfsCallbacks samplePath .init v₁ = .ok e₂ v₂ ∧
    e₂.text = [1] := by
  have hrun : valueOf ((·.status) <$> editorSave sampleFs tmpfsCallbacks samplePath sampleNote) sampleTwo =
      some .saved := by decide +kernel
  obtain ⟨v₁, hrun⟩ := exists_of_valueOf hrun
  obtain ⟨e₁, hsave, hsaved⟩ := saved_of_map hrun
  obtain ⟨l, hnode⟩ := sampleTwo_fat.nodeFile
  have hroom : FatRoom sampleFs sampleTwo 1 sampleNote.text.length := sampleTwo_room (by decide)
  have hfree := hroom.free _ _ _ l rfl rfl rfl (hnode.chain _ _ _ rfl rfl rfl)
  obtain ⟨e₂, v₂, hload, -, htext⟩ := (editorLoad_saved .init (.fat l _ (.mounted 1 hnode) hfree) (by decide) hsave
    hsaved).mpr (by intro h; cases h)
  exact ⟨e₂, v₁, v₂, hload, htext.trans (by decide)⟩

/-- The note is saved over five bytes in tmpfs. -/
theorem editorSave_keeps_tail : ¬∀ (p : Path) (b : NoteBackend) (c : List UInt8) (v v₁ : FatVfs Path Tmpfs)
    (e e₁ e' : EditorState), NoteAt sampleFs [2] v p e.text.length b c → e.fileLen < editorFileCap →
    editorSave sampleFs tmpfsCallbacks p e v = .ok e₁ v₁ → e₁.status = .saved →
    ∃ e₂ v₂, editorLoad sampleFs tmpfsCallbacks p e' v₁ = .ok e₂ v₂ ∧ e₂.status = .opened ∧ e₂.text = e.text := by
  intro hall
  have hrun : valueOf ((·.status) <$> editorSave sampleFs tmpfsCallbacks [47, 116] sampleNote) sampleTwo =
      some .saved := by decide +kernel
  obtain ⟨v₁, hrun⟩ := exists_of_valueOf hrun
  obtain ⟨e₁, hsave, hsaved⟩ := saved_of_map hrun
  obtain ⟨e₂, v₂, hload, -, htext⟩ := hall _ _ _ _ _ _ _ .init (.tmpfs 0 _ sampleTwo_tmpfs) (by decide) hsave hsaved
  obtain ⟨e₃, hload', -, htext'⟩ := sampleTwo_tmpfs.editorLoad hsave hsaved .init
  rw [hload] at hload'
  cases hload'
  rw [htext] at htext'
  exact absurd htext' (by decide +kernel)

end Armonios
