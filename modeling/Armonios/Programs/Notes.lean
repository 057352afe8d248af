import Armonios.Programs.Editor
import Armonios.Vfs.Backends
import Armonios.Vfs.Open

/-!
# Notes that are loaded and saved

`NoteFile`: what the editor needs of a file under a path, whatever the filesystem. `OpensNote`: what an open of the
path leaves.

* `NoteFile.openFlags`, `NoteFile.loadOpened`, `NoteFile.saveOpened`: the calls of the VFS one after another;
* `editorLoad_spec`, `editorSave_spec`: a load or a save that reports success.
-/

namespace Armonios

variable {κ ω τ ρ : Type} {cb : Callbacks κ ω} {fs : Fat32Fs} {other : Callbacks τ ρ} {r : List Nat} {p : Path}
  {k : Nat} {c buf : List UInt8}

/-! ## Descriptors -/

section Descriptor

variable {v : Vfs κ ω} {fd : Nat} {mode : UInt32} {node : VfsNode κ}

theorem putFd_putFd (v : Vfs κ ω) (fd : Int) (a b : Option VfsOpenFile) : putFd (putFd v fd a) fd b = putFd v fd b := by
  simp [putFd]

/-- A free descriptor is given back. -/
theorem putFd_free (hlt : fd < vfsMaxOpenFiles) (hfree : vfsFdAt v fd = none) : putFd v fd none = v := by
  unfold vfsFdAt at hfree
  rw [if_neg (by omega), Int.toNat_natCast, Vector.getElem?_eq_getElem hlt] at hfree
  have hnone : v.openFiles[fd] = none := by simpa using hfree
  have hsame : v.openFiles.setIfInBounds fd none = v.openFiles := by
    ext i hi
    rw [Vector.getElem_setIfInBounds]
    split
    · rename_i he
      subst he
      rw [hnone]
    · rfl
  unfold putFd
  rw [Int.toNat_natCast, hsame]

theorem freeDescriptor_of_free {v : FatVfs τ ρ} (hlt : fd < vfsMaxOpenFiles) (hfree : vfsFdAt v fd = none) :
    FreeDescriptor v := by
  unfold vfsFdAt at hfree
  rw [if_neg (by omega), Int.toNat_natCast, Vector.getElem?_eq_getElem hlt] at hfree
  have hnone : v.openFiles[fd] = none := by simpa using hfree
  rw [FreeDescriptor, ← hnone]
  exact Vector.mem_toList_iff.mpr (Vector.getElem_mem hlt)

/-- A node that can be read and written is opened on a free descriptor. -/
theorem openNode_returns {v : FatVfs τ ρ} {node : VfsNode (FatCtx τ)} (hnode : v.nodes[k]? = some node)
    (hread : node.read = true) (hwrite : node.write = true) (hfree : FreeDescriptor v) (mode : UInt32) :
    ∃ fd < vfsMaxOpenFiles, vfsFdAt v fd = none ∧
      (vfsOpenNode k mode : FatVfsM τ ρ Nat) v = .ok fd (putFd v fd (some ⟨k, 0, mode⟩)) := by
  have hspec : Wp (vfsOpenNode k mode : FatVfsM τ ρ Nat) v (fun _ _ => True) fun _ _ => False := by
    unfold vfsOpenNode
    refine wp_bind.mpr (wp_get.mpr ?_)
    rw [hnode]
    dsimp only
    refine wp_guard (fun hno => ?_) fun _ => ?_
    · simp [hread, hwrite] at hno
    split
    · rename_i hnone
      rw [List.findIdx?_eq_none_iff] at hnone
      exact absurd (hnone none hfree) (by decide)
    · exact wp_bind.mpr (wp_set.mpr (wp_pure.mpr trivial))
  obtain ⟨fd, v', hrun, -⟩ := hspec.returns
  obtain ⟨hlt, hnone, rfl⟩ := (openNode_fills k mode v).of_ok hrun
  exact ⟨fd, hlt, hnone, hrun⟩

theorem close_returns {file : VfsOpenFile} (hfd : vfsFdAt v fd = some file) :
    (vfsClose fd : VfsM κ ω Unit) v = .ok () (putFd v fd none) := by
  refine Wp.eq_ok (wp_bind.mpr (wp_get.mpr ?_))
  rw [hfd]
  exact ⟨rfl, rfl⟩

/-- What follows the lookup of the path. -/
theorem nodeOf_bind {α : Type} {f : VfsNode κ → VfsM κ ω α} (hk : vfsFind v.nodes p = some k)
    (hnode : v.nodes[k]? = some node) : (vfsNodeOf p >>= f) v = f node v := by
  have hof : (vfsNodeOf p : VfsM κ ω _) v = .ok node v := nodeOf_returns hk hnode
  show EStateM.bind (vfsNodeOf p) f v = f node v
  unfold EStateM.bind
  rw [hof]

theorem ShowsFile.nodeSize (h : ShowsFile cb v p c) (hk : vfsFind v.nodes p = some k)
    (hnode : v.nodes[k]? = some node) :
    vfsNodeSize cb node v = .ok c.length v :=
  (nodeOf_bind hk hnode).symm.trans h.stat

theorem ShowsFile.readNode (h : ShowsFile cb v p c) (hk : vfsFind v.nodes p = some k) (hnode : v.nodes[k]? = some node)
    (cap : Nat) : readNode cb node 0 cap v = .ok (c.take cap) v :=
  (nodeOf_bind hk hnode).symm.trans (h.read 0 cap (Nat.zero_le _))

/-- A read from the start of the file. -/
theorem ShowsFile.readFd (h : ShowsFile cb v p c) (hk : vfsFind v.nodes p = some k) (hnode : v.nodes[k]? = some node)
    (hfd : vfsFdAt v fd = some ⟨k, 0, mode⟩) (hmode : mode ≠ vfsOWronly) (cap : Nat) :
    vfsReadFd cb fd cap v = .ok (c.take cap) (putFd v fd (some ⟨k, (c.take cap).length, mode⟩)) := by
  refine Wp.eq_ok (wp_bind.mpr (wp_of_ok (fdNode_returns hfd hnode) ?_))
  refine wp_guard (fun hw => absurd hw hmode) fun _ => ?_
  refine wp_bind.mpr (wp_of_ok (h.readNode hk hnode cap) (wp_bind.mpr (wp_modify.mpr ⟨rfl, ?_⟩)))
  rw [Nat.zero_add]
  rfl

/-- A seek to the start of the file. -/
theorem ShowsFile.seek (h : ShowsFile cb v p c) (hk : vfsFind v.nodes p = some k) (hnode : v.nodes[k]? = some node)
    (hfd : vfsFdAt v fd = some ⟨k, 0, mode⟩) : vfsSeek cb fd 0 v = .ok () (putFd v fd (some ⟨k, 0, mode⟩)) := by
  refine Wp.eq_ok (wp_bind.mpr (wp_of_ok (fdNode_returns hfd hnode) ?_))
  refine wp_bind.mpr (wp_of_ok (h.nodeSize hk hnode) ?_)
  exact wp_guard (fun hlt => absurd hlt (by omega)) fun _ => wp_modify.mpr ⟨rfl, rfl⟩

end Descriptor

/-! ## Files with a node -/

/-- A file that the editor can read and write has the contents `c`, under the path `p` with the node `k`. What is behind
the descriptors does not depend on them. -/
structure NoteFile (H : List UInt8 → FatVfs τ ρ → Prop) (fs : Fat32Fs) (other : Callbacks τ ρ) (p : Path) (k : Nat) :
    Prop where
  found : ∀ {c v}, H c v → vfsFind v.nodes p = some k
  node : ∀ {c v}, H c v → ∃ node, v.nodes[k]? = some node ∧ node.read = true ∧ node.write = true
  shows : ∀ {c v}, H c v → ShowsFile (fatCallbacks fs other) v p c
  openFiles : ∀ {c v fd file}, H c v → H c (putFd v fd file)

section Notes

variable {H : List UInt8 → FatVfs τ ρ → Prop} {v : FatVfs τ ρ}

/-- The part of `load_note` and `save_note` that begins with an open. -/
theorem NoteFile.openFlags (hnote : NoteFile H fs other p k) (h : H c v) (hfree : FreeDescriptor v) {flags : UInt32}
    (hvalid : vfsOpenFlagsValid flags = true) : ∃ fd < vfsMaxOpenFiles, vfsFdAt v fd = none ∧
      vfsOpenFlags fs p flags v = .ok fd (putFd v fd (some ⟨k, 0, flags &&& vfsOAccmode⟩)) := by
  obtain ⟨node, hnode, hread, hwrite⟩ := hnote.node h
  obtain ⟨fd, hlt, hnone, hrun⟩ := openNode_returns hnode hread hwrite hfree (flags &&& vfsOAccmode)
  refine ⟨fd, hlt, hnone, Wp.eq_ok ?_⟩
  unfold vfsOpenFlags
  refine wp_guard (fun hno => absurd hvalid (by simp [hno])) fun _ => wp_bind.mpr (wp_get.mpr ?_)
  rw [hnote.found h]
  exact wp_of_ok hrun ⟨rfl, rfl⟩

/-- `load_note` after the open. -/
theorem NoteFile.loadOpened (hnote : NoteFile H fs other p k) (h : H c v) {fd : Nat} (hlt : fd < vfsMaxOpenFiles)
    (hfree : vfsFdAt v fd = none) {mode : UInt32} (hmode : mode ≠ vfsOWronly) (cap : Nat) :
    Wp (do
      let n ← attempt Err.isFail (vfsReadFd (fatCallbacks fs other) fd cap)
      let _ ← attempt Err.isFail (vfsClose fd)
      return n) (putFd v fd (some ⟨k, 0, mode⟩)) (fun res v' => res = some (c.take cap) ∧ v' = v) fun _ _ => False := by
  have hopen : H c (putFd v fd (some ⟨k, 0, mode⟩)) := hnote.openFiles h
  obtain ⟨node, hnode, -⟩ := hnote.node hopen
  have hat : ∀ file, vfsFdAt (putFd v fd file) fd = file := by
    intro file
    rw [fdAt_putFd (by omega) (by simpa using hlt), if_pos rfl]
  have hread := (hnote.shows hopen).readFd (hnote.found hopen) hnode (hat _) hmode cap
  refine wp_bind.mpr (wp_attempt.mpr (wp_of_ok hread ?_))
  rw [putFd_putFd]
  refine wp_bind.mpr (wp_attempt.mpr (wp_of_ok (close_returns (hat _)) (wp_pure.mpr ⟨rfl, ?_⟩)))
  rw [putFd_putFd, putFd_free hlt hfree]

/-- `save_note` after the open. `hwrite` is what the write of the filesystem leaves. -/
theorem NoteFile.saveOpened (hnote : NoteFile H fs other p k) {c' : List UInt8} (h : H c v) {fd : Nat}
    (hlt : fd < vfsMaxOpenFiles) {mode : UInt32}
    (hwrite : ∀ file node, v.nodes[k]? = some node → Wp (writeNode (fatCallbacks fs other) node 0 buf) (putFd v fd file)
      (fun n w => n = buf.length → H c' w) fun _ _ => True) :
    Wp (do
      let _ ← attempt Err.isFail (vfsSeek (fatCallbacks fs other) fd 0)
      let written ← attempt Err.isFail (vfsWriteFd (fatCallbacks fs other) fd buf)
      let _ ← attempt Err.isFail (vfsClose fd)
      return decide (written = some buf.length)) (putFd v fd (some ⟨k, 0, mode⟩))
      (fun ok v' => ok = true → H c' v' ∧ FreeDescriptor v') fun _ _ => True := by
  have hopen : H c (putFd v fd (some ⟨k, 0, mode⟩)) := hnote.openFiles h
  obtain ⟨node, hnode, -⟩ := hnote.node hopen
  have hat : ∀ (w : FatVfs τ ρ) file, vfsFdAt (putFd w fd file) fd = file := by
    intro w file
    rw [fdAt_putFd (by omega) (by simpa using hlt), if_pos rfl]
  -- the close, after a write that wrote everything and after any other
  have hall : ∀ w file, H c' w → Wp (do
      let _ ← attempt Err.isFail (vfsClose fd)
      return decide (some buf.length = some buf.length)) (putFd w fd (some file))
      (fun ok v' => ok = true → H c' v' ∧ FreeDescriptor v') fun _ _ => True := by
    intro w file hw
    refine wp_bind.mpr (wp_attempt.mpr (wp_of_ok (close_returns (hat w _)) (wp_pure.mpr fun _ => ?_)))
    rw [putFd_putFd]
    exact ⟨hnote.openFiles hw, freeDescriptor_of_free hlt (hat w none)⟩
  have hother : ∀ (o : Option Nat) (w : FatVfs τ ρ), o ≠ some buf.length → Wp (do
      let _ ← attempt Err.isFail (vfsClose fd)
      return decide (o = some buf.length)) w
      (fun ok v' => ok = true → H c' v' ∧ FreeDescriptor v') fun _ _ => True := by
    intro o w ho
    refine wp_bind.mpr (Wp.mono (wp_const ho) (fun _ w' hno => wp_pure.mpr fun hyes => ?_) fun _ _ h => h)
    exact absurd (of_decide_eq_true hyes) hno
  have hseek := (hnote.shows hopen).seek (hnote.found hopen) hnode (hat v _)
  refine wp_bind.mpr (wp_attempt.mpr (wp_of_ok hseek ?_))
  rw [putFd_putFd]
  refine wp_bind.mpr (wp_attempt.mpr ?_)
  unfold vfsWriteFd
  refine wp_bind.mpr (wp_of_ok (fdNode_returns (hat v _) hnode) (wp_guard (fun _ => ?_) fun _ => ?_))
  · exact hother none _ (by simp)
  refine wp_bind.mpr (Wp.mono (hwrite _ node hnode) (fun n w hw => ?_) fun e w _ => ?_)
  · refine wp_bind.mpr (wp_modify.mpr (wp_pure.mpr ?_))
    by_cases hn : n = buf.length
    · subst hn
      exact hall w _ (hw rfl)
    · exact hother (some n) _ (by simpa using hn)
  · split
    · exact hother none w (by simp)
    · trivial

/-- An open of a path with a node. -/
theorem openFlags_found (hfound : vfsFind v.nodes p = some k) (flags : UInt32) :
    Wp (vfsOpenFlags fs p flags) v (fun fd v' => fd < vfsMaxOpenFiles ∧ vfsFdAt v fd = none ∧
      v' = putFd v fd (some ⟨k, 0, flags &&& vfsOAccmode⟩)) fun _ _ => True := by
  unfold vfsOpenFlags
  refine wp_guard (fun _ => trivial) fun _ => wp_bind.mpr (wp_get.mpr ?_)
  rw [hfound]
  exact Wp.mono (openNode_fills k _ v) (fun _ _ h => h) fun _ _ _ => trivial

end Notes

/-! ## The calls of the editor -/

section Calls

variable {H : Nat → List UInt8 → FatVfs τ ρ → Prop} {P : Nat → FatVfs τ ρ → Prop} {v : FatVfs τ ρ}

/-- What an open of the path leaves, besides the descriptor: a file with the contents `c`, with `P`. -/
def OpensNote (H : Nat → List UInt8 → FatVfs τ ρ → Prop) (fs : Fat32Fs) (p : Path) (c : List UInt8)
    (P : Nat → FatVfs τ ρ → Prop) (v : FatVfs τ ρ) : Prop :=
  ∀ flags, Wp (vfsOpenFlags fs p flags) v (fun fd v' => ∃ k w, H k c w ∧ P k w ∧ fd < vfsMaxOpenFiles ∧
    vfsFdAt w fd = none ∧ v' = putFd w fd (some ⟨k, 0, flags &&& vfsOAccmode⟩)) fun _ _ => True

/-- A load that succeeds has read the start of the file, and leaves it as the open found it. -/
theorem loadNote_spec (hnote : ∀ k, NoteFile (H k) fs other p k) (hopen : OpensNote H fs p c P v) (cap : Nat) :
    Wp (loadNote fs other p cap) v
      (fun res v' => ∀ bytes, res = some bytes → bytes = c.take (cap - 1) ∧ ∃ k, H k c v' ∧ P k v')
      fun _ _ => True := by
  have hmode : (if isFatPath p then vfsORdwr ||| vfsOCreat else vfsORdonly) &&& vfsOAccmode ≠ vfsOWronly := by
    split <;> decide
  unfold loadNote
  refine wp_bind.mpr (wp_attempt.mpr (Wp.mono (hopen _) ?_ fun e w _ => ?_))
  · rintro fd _ ⟨k, w, hw, hP, hlt, hfree, rfl⟩
    refine Wp.mono ((hnote k).loadOpened hw hlt hfree hmode (cap - 1)) ?_ fun _ _ h => h.elim
    rintro _ _ ⟨rfl, rfl⟩ bytes hbytes
    cases hbytes
    exact ⟨rfl, k, hw, hP⟩
  · split
    · intro bytes hbytes
      cases hbytes
    · trivial

/-- A load of a file with a node. -/
theorem NoteFile.load {H : List UInt8 → FatVfs τ ρ → Prop} (hnote : NoteFile H fs other p k) (h : H c v)
    (hfree : FreeDescriptor v) (cap : Nat) : loadNote fs other p cap v = .ok (some (c.take (cap - 1))) v := by
  have hmode : (if isFatPath p then vfsORdwr ||| vfsOCreat else vfsORdonly) &&& vfsOAccmode ≠ vfsOWronly := by
    split <;> decide
  have hvalid : vfsOpenFlagsValid (if isFatPath p then vfsORdwr ||| vfsOCreat else vfsORdonly) = true := by
    split <;> decide
  obtain ⟨fd, hlt, hnone, hrun⟩ := hnote.openFlags h hfree hvalid
  unfold loadNote
  exact Wp.eq_ok (wp_bind.mpr (wp_attempt.mpr (wp_of_ok hrun (hnote.loadOpened h hlt hnone hmode (cap - 1)))))

/-- A save that succeeds. `hwrite` is what the write of the filesystem leaves. -/
theorem saveNote_spec {c' : List UInt8} (hnote : ∀ k, NoteFile (H k) fs other p k) (hopen : OpensNote H fs p c P v)
    (hwrite : ∀ k w (fd : Nat) file node, H k c w → P k w → w.nodes[k]? = some node →
      Wp (writeNode (fatCallbacks fs other) node 0 buf) (putFd w fd file)
        (fun n w => n = buf.length → H k c' w) fun _ _ => True) :
    Wp (saveNote fs other p buf) v (fun ok v' => ok = true → ∃ k, H k c' v' ∧ FreeDescriptor v') fun _ _ => True := by
  unfold saveNote
  refine wp_bind.mpr (wp_attempt.mpr (Wp.mono (hopen _) ?_ fun e w _ => ?_))
  · rintro fd _ ⟨k, w, hw, hP, hlt, -, rfl⟩
    refine Wp.mono ((hnote k).saveOpened hw hlt fun file node hnode => hwrite k w fd file node hw hP hnode) ?_
      fun _ _ h => h
    intro ok v' h hok
    exact ⟨k, h hok⟩
  · split
    · intro hno
      cases hno
    · trivial

/-! ## The editor -/

theorem editorLoad_spec (hnote : ∀ k, NoteFile (H k) fs other p k) (hopen : OpensNote H fs p c P v) (e : EditorState) :
    Wp (editorLoad fs other p e) v
      (fun e' v' => e'.status = .opened → e'.text = c.take (editorFileCap - 1) ∧ ∃ k, H k c v' ∧ P k v')
      fun _ _ => True := by
  unfold editorLoad
  refine wp_bind.mpr (Wp.mono (loadNote_spec hnote hopen editorFileCap) (fun res v' h => ?_) fun _ _ h => h)
  cases res with
  | none =>
    intro hno
    cases hno
  | some bytes =>
    obtain ⟨rfl, hk⟩ := h bytes rfl
    refine fun _ => ⟨putText_take ?_ e.file, hk⟩
    have hle := List.length_take_le (editorFileCap - 1) c
    unfold editorFileCap at hle ⊢
    omega

theorem NoteFile.editorLoad {H : List UInt8 → FatVfs τ ρ → Prop} (hnote : NoteFile H fs other p k) (h : H c v)
    (hfree : FreeDescriptor v) (e : EditorState) : ∃ e', Armonios.editorLoad fs other p e v = .ok e' v ∧
      e'.status = .opened ∧ e'.text = c.take (editorFileCap - 1) := by
  have hload := hnote.load h hfree editorFileCap
  refine ⟨_, Wp.eq_ok (wp_bind.mpr (wp_of_ok hload ⟨rfl, rfl⟩)), rfl, putText_take ?_ e.file⟩
  have hle := List.length_take_le (editorFileCap - 1) c
  unfold editorFileCap at hle ⊢
  omega

theorem editorSave_spec {c' : List UInt8} {e : EditorState} (hnote : ∀ k, NoteFile (H k) fs other p k)
    (hopen : OpensNote H fs p c P v)
    (hwrite : ∀ k w (fd : Nat) file node, H k c w → P k w → w.nodes[k]? = some node →
      Wp (writeNode (fatCallbacks fs other) node 0 e.text) (putFd w fd file)
        (fun n w => n = e.text.length → H k c' w) fun _ _ => True) :
    Wp (editorSave fs other p e) v (fun e' v' => e'.status = .saved → ∃ k, H k c' v' ∧ FreeDescriptor v')
      fun _ _ => True := by
  unfold editorSave
  refine wp_bind.mpr (Wp.mono (saveNote_spec hnote hopen hwrite) (fun ok v' h => ?_) fun _ _ h => h)
  cases ok with
  | true => exact fun _ => h rfl
  | false =>
    intro hno
    cases hno

end Calls

end Armonios
