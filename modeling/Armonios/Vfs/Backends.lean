import Armonios.Fat32.Returns
import Armonios.Vfs.Alias
import Armonios.Vfs.Descriptors
import Armonios.Vfs.Tmpfs

/-!
# One write on two filesystems

The same bytes are written at the same offset to a tmpfs file and to a FAT32 file with the same contents,
by path or through a descriptor (`writeBy`). tmpfs keeps what stands behind the bytes; a FAT32 write ends
the file with them.

* `writeBy_returns`: both ways come to `writeNode` at the offset;
* `HoldsTmpfs.write`, `HoldsFat.write`: what the two callbacks leave;
* `write_backends`: the contents that can be read back are the same if and only if the write reaches the
  end of the file.
-/

namespace Armonios

variable {κ ω τ ρ : Type} {cb : Callbacks κ ω} {fs : Fat32Fs} {other : Callbacks τ ρ} {r : List Nat} {p : Path}
  {k off : Nat} {c buf : List UInt8}

/-! ## The two ways to write -/

/-- By path, or through a descriptor. -/
inductive WriteWay
  | path
  | descriptor (fd : Int)

/-- One write of `buf` at `off`. -/
def writeBy (cb : Callbacks κ ω) (p : Path) (off : Nat) (buf : List UInt8) : WriteWay → VfsM κ ω Nat
  | .path => vfsWrite cb p off buf
  | .descriptor fd => do
    vfsSeek cb fd off
    vfsWriteFd cb fd buf

/-- The descriptor is open on the node `k` for writing. -/
def WriteWay.OpenOn (v : Vfs κ ω) (k : Nat) : WriteWay → Prop
  | .path => True
  | .descriptor fd => ∃ file, vfsFdAt v fd = some file ∧ file.node = k ∧ file.flags ≠ vfsORdonly

/-- The state with other open files. -/
def withOpenFiles (v : Vfs κ ω) (files : Vector (Option VfsOpenFile) vfsMaxOpenFiles) : Vfs κ ω :=
  { v with openFiles := files }

theorem fdNode_returns {v : Vfs κ ω} {fd : Int} {file : VfsOpenFile} {node : VfsNode κ}
    (hfile : vfsFdAt v fd = some file) (hnode : v.nodes[file.node]? = some node) :
    (vfsFdNode fd : VfsM κ ω _) v = .ok (file, node) v := by
  refine Wp.eq_ok (wp_bind.mpr (wp_get.mpr ?_))
  rw [hfile]
  dsimp only
  rw [hnode]
  exact ⟨rfl, rfl⟩

/-- Both ways write to the node at the offset; `Q` does not depend on the open files. -/
theorem writeBy_returns {v : Vfs κ ω} {node : VfsNode κ} {n : Nat} {Q : Vfs κ ω → Prop} (way : WriteWay)
    (hk : vfsFind v.nodes p = some k) (hnode : v.nodes[k]? = some node) (hway : way.OpenOn v k) (hoff : off ≤ n)
    (hsize : ∀ files, vfsNodeSize cb node (withOpenFiles v files) = .ok n (withOpenFiles v files))
    (hwrite : ∀ files, Wp (writeNode cb node off buf) (withOpenFiles v files)
      (fun m v' => m = buf.length ∧ ∀ files', Q (withOpenFiles v' files')) fun _ _ => False) :
    Wp (writeBy cb p off buf way) v (fun m v' => m = buf.length ∧ Q v') fun _ _ => False := by
  cases way with
  | path =>
    have hof : (vfsNodeOf p : VfsM κ ω _) v = .ok node v := nodeOf_returns hk hnode
    refine wp_bind.mpr (wp_of_ok hof (Wp.mono (hwrite v.openFiles) (fun m v' h => ?_) fun _ _ h => h))
    exact ⟨h.1, h.2 v'.openFiles⟩
  | descriptor fd =>
    obtain ⟨file, hfile, hkf, hmode⟩ := hway
    obtain ⟨h0, hlt⟩ := fdAt_lt hfile
    subst hkf
    -- the seek
    refine wp_bind.mpr (wp_bind.mpr (wp_of_ok (fdNode_returns hfile hnode) ?_))
    refine wp_bind.mpr (wp_of_ok (hsize v.openFiles) ?_)
    refine wp_guard (fun h => absurd hoff (by omega)) fun _ => wp_modify.mpr ?_
    -- the write
    have hfile' : vfsFdAt (putFd v fd (some { file with offset := off })) fd = some { file with offset := off } := by
      rw [fdAt_putFd h0 hlt, if_pos rfl]
    refine wp_bind.mpr (wp_of_ok (fdNode_returns hfile' hnode) ?_)
    refine wp_guard (fun h => absurd h hmode) fun _ => ?_
    refine wp_bind.mpr (Wp.mono (hwrite _) (fun m v' h => ?_) fun _ _ h => h)
    exact wp_bind.mpr (wp_modify.mpr ⟨h.1, h.2 _⟩)

/-- Counts that the files can have are valid. -/
theorem writeResultValid_of_le {n : Nat} (h : off + n ≤ 0xffffffff) : vfsWriteResultValid off n n = true := by
  unfold vfsWriteResultValid
  simp only [le_refl, decide_true, Bool.true_and, decide_eq_true_eq]
  omega

/-! ## tmpfs -/

/-- Under the path `p` the node `k` of a tmpfs file with the contents `c`. -/
structure HoldsTmpfs (v : FatVfs Path Tmpfs) (p : Path) (k : Nat) (c : List UInt8) : Prop where
  found : vfsFind v.nodes p = some k
  file : ∃ node name index file, v.nodes[k]? = some node ∧ node.context = .other name ∧ node.read = true ∧
    node.write = true ∧ node.stat = true ∧ TmpfsAt v.world.rest name index file ∧ file.contents = c

section Tmpfs

variable {v : FatVfs Path Tmpfs} {node : VfsNode (FatCtx Path)} {name : Path} {index : Nat} {file : TmpfsFile}

theorem TmpfsAt.nodeSize (h : TmpfsAt v.world.rest name index file) (hctx : node.context = .other name)
    (hstat : node.stat = true) : vfsNodeSize (fatCallbacks fs tmpfsCallbacks) node v = .ok file.contents.length v := by
  unfold vfsNodeSize
  rw [hstat, if_pos rfl, hctx, file.length_contents]
  exact Wp.eq_ok (wp_onPart.mpr (wp_onPart.mpr (wp_bind.mpr (wp_of_ok h.fileOf ⟨rfl, rfl⟩))))

theorem HoldsTmpfs.shows (h : HoldsTmpfs v p k c) : ShowsFile (fatCallbacks fs tmpfsCallbacks) v p c := by
  obtain ⟨node, name, index, file, hnode, hctx, hread, -, hstat, hat, rfl⟩ := h.file
  refine showsFile_of_node h.found hnode hread (hat.nodeSize hctx hstat) fun off cap hoff => ?_
  rw [file.length_contents] at hoff
  rw [hctx]
  refine Wp.eq_ok (wp_onPart.mpr (wp_onPart.mpr (wp_bind.mpr (wp_of_ok hat.fileOf ?_))))
  refine wp_guard (fun h => absurd hoff (by omega)) fun _ => ⟨?_, rfl⟩
  unfold TmpfsFile.contents
  rw [List.drop_take, List.take_take]

/-- A write that fits keeps what stands behind it. -/
theorem HoldsTmpfs.write (h : HoldsTmpfs v p k c) (hoff : off ≤ c.length)
    (hfit : off + buf.length ≤ tmpfsMaxFileSize) (hnode : v.nodes[k]? = some node) :
    Wp (writeNode (fatCallbacks fs tmpfsCallbacks) node off buf) v
      (fun m v' => m = buf.length ∧ HoldsTmpfs v' p k (c.take off ++ buf ++ c.drop (off + buf.length)))
      fun _ _ => False := by
  obtain ⟨node', name, index, file, hnode', hctx, hread, hwrite, hstat, hat, rfl⟩ := h.file
  rw [hnode] at hnode'
  cases hnode'
  have hle : off ≤ file.size := by
    rw [← file.length_contents]
    exact hoff
  have htake : buf.take (tmpfsMaxFileSize - off) = buf := List.take_of_length_le (by omega)
  have hcount : min buf.length (tmpfsMaxFileSize - off) = buf.length := Nat.min_eq_left (by omega)
  unfold writeNode
  refine wp_guard (fun h => absurd hwrite (by simp [h])) fun _ => ?_
  refine wp_bind.mpr (wp_of_ok (hat.nodeSize hctx hstat) (wp_guard (fun h => absurd hoff (by omega)) fun _ => ?_))
  rw [hctx]
  refine wp_bind.mpr (wp_onPart.mpr (wp_onPart.mpr (wp_bind.mpr (wp_of_ok hat.fileOf ?_))))
  have hbound : ¬tmpfsMaxFileSize < off := by omega
  dsimp only
  rw [dif_neg hbound]
  refine wp_bind.mpr (wp_modify.mpr (wp_pure.mpr ?_))
  rw [hcount]
  refine wp_guard (fun hv => ?_) fun _ => wp_pure.mpr ⟨rfl, h.found, node, name, index, _, hnode, hctx, hread, hwrite,
    hstat, hat.putFile rfl, ?_⟩
  · have hvalid : vfsWriteResultValid off buf.length buf.length = true :=
      writeResultValid_of_le (hfit.trans (by decide))
    rw [hvalid] at hv
    cases hv
  · rw [TmpfsFile.contents_store _ _ hle, htake]

end Tmpfs

/-! ## FAT32 -/

/-- Under the path `p` the node `k` of a FAT file with the contents `c`, with a fresh handle. -/
structure HoldsFat (fs : Fat32Fs) (r : List Nat) (v : FatVfs τ ρ) (p : Path) (k : Nat) (c : List UInt8) : Prop where
  fat : FatOk fs r v.world.dev
  found : vfsFind v.nodes p = some k
  file : ∃ node i file l, v.nodes[k]? = some node ∧ node.context = .fat i ∧ node.read = true ∧ node.write = true ∧
    node.stat = true ∧ v.world.files[i]? = some file ∧ FreshHandle fs r v.world.dev.disk file l ∧
    fileBytes fs v.world.dev.disk file.slot l = c

/-- The volume has room to make the file of the node `k` one of `n` bytes. -/
structure FatRoom (fs : Fat32Fs) (v : FatVfs τ ρ) (k n : Nat) : Prop where
  writable : fs.writable = true
  roomy : Roomy fs v.world.dev.disk
  bound : clustersFor fs n * clusterBytesOf fs ≤ 0xffffffff
  free : ∀ node i file l, v.nodes[k]? = some node → node.context = .fat i → v.world.files[i]? = some file →
    FileChain fs v.world.dev.disk file.slot l → FreeClusters fs v.world.dev.disk (clustersFor fs n - l.length)

section Fat

variable {v : FatVfs τ ρ} {node : VfsNode (FatCtx τ)}

theorem HoldsFat.shows (h : HoldsFat fs r v p k c) : ShowsFile (fatCallbacks fs other) v p c := by
  obtain ⟨node, i, file, l, hnode, hctx, hread, -, hstat, hfile, hf, rfl⟩ := h.file
  exact hf.view h.fat h.found hnode hctx hread hstat hfile

theorem HoldsFat.nodeSize (h : HoldsFat fs r v p k c) (other : Callbacks τ ρ) (hnode : v.nodes[k]? = some node) :
    vfsNodeSize (fatCallbacks fs other) node v = .ok c.length v := by
  obtain ⟨node', i, file, l, hnode', hctx, -, -, hstat, hfile, hf, rfl⟩ := h.file
  rw [hnode] at hnode'
  cases hnode'
  rw [fileBytes_length (h.fat.tidy.fits _ hf.mem hf.live l hf.chain).1, ← hf.size]
  exact FreshHandle.nodeSize hctx hstat hfile

/-- A write with room through a fresh handle returns. -/
theorem freshWrite_returns {t : OpenFile} {l : List Nat} (hok : FatOk fs r t.dev)
    (hf : FreshHandle fs r t.dev.disk t.file l) (hoff : off ≤ t.file.size) (hroom : HasRoom fs t l (off + buf.length)) :
    Wp (fat32Write fs off buf) t (fun n t' => n = buf.length ∧ ∃ l', FreshWrite fs r off buf t l true t' l')
      fun _ _ => False := by
  have hlong := (hok.tidy.fits _ hf.mem hf.live l hf.chain).1
  rw [← hf.size] at hlong
  have hret := write_returns hok.volume (hf.current hok.tidy) hf.chain hlong hoff hroom
  have hcount := write_reliable off buf hok.volume hok.reliable (hf.current hok.tidy) hf.chain fun _ _ _ => hroom.free
  refine Wp.mono (Wp.and hret (Wp.and hcount wp_ran)) (fun n t' h => ?_) fun _ _ h => h.1
  obtain ⟨-, ⟨-, hn, -⟩, hran⟩ := h
  exact ⟨hn, freshWrite hok hf hroom.free hran⟩

/-- A write with room ends the file with its last byte. -/
theorem HoldsFat.write (h : HoldsFat fs r v p k c) (hoff : off ≤ c.length) (hroom : FatRoom fs v k (off + buf.length))
    (hnode : v.nodes[k]? = some node) :
    Wp (writeNode (fatCallbacks fs other) node off buf) v
      (fun m v' => m = buf.length ∧ HoldsFat fs r v' p k (c.take off ++ buf)) fun _ _ => False := by
  have hsize := h.nodeSize other hnode
  obtain ⟨node', i, file, l, hnode', hctx, hread, hwrite, hstat, hfile, hf, hc⟩ := h.file
  rw [hnode] at hnode'
  cases hnode'
  have hlen : c.length = file.size := by
    rw [← hc, fileBytes_length (h.fat.tidy.fits _ hf.mem hf.live l hf.chain).1, hf.size]
  have hi : i < v.world.files.length := (List.getElem?_eq_some_iff.mp hfile).1
  have hle : off ≤ file.size := by
    rw [← hlen]
    exact hoff
  have hdriver := freshWrite_returns (t := ⟨file, v.world.dev⟩) h.fat hf hle ⟨hroom.writable, h.fat.reliable,
    hroom.roomy, hf.capacity, hroom.free node i file l hnode hctx hfile hf.chain, hroom.bound⟩
  have hvalid : vfsWriteResultValid off buf.length buf.length = true :=
    writeResultValid_of_le ((le_clustersFor h.fat.volume.geometry _).trans hroom.bound)
  unfold writeNode
  refine wp_guard (fun h => absurd hwrite (by simp [h])) fun _ => ?_
  refine wp_bind.mpr (wp_of_ok hsize (wp_guard (fun h => absurd h (Nat.not_lt.mpr hoff)) fun _ => ?_))
  rw [hctx]
  refine wp_bind.mpr (wp_onPart.mpr ((wp_onFatFile hfile).mpr (Wp.mono hdriver (fun n t h' => ?_) fun _ _ h => h)))
  obtain ⟨rfl, l', hfw⟩ := h'
  refine wp_guard (fun hv => absurd hvalid (by simp [hv])) fun _ => wp_pure.mpr ⟨rfl, ?_⟩
  have hset : (v.world.files.set i t.file)[i]? = some t.file := List.getElem?_set_self hi
  have hbytes : fileBytes fs t.dev.disk t.file.slot l' = c.take off ++ buf := by
    rw [hfw.slot, hfw.bytes hf, hc]
  exact ⟨hfw.fat, h.found, node, i, t.file, l', hnode, hctx, hread, hwrite, hstat, hset, hfw.fresh, hbytes⟩

end Fat

/-! ## Both -/

theorem HoldsTmpfs.writeBy {v : FatVfs Path Tmpfs} (h : HoldsTmpfs v p k c) (fs : Fat32Fs) (way : WriteWay)
    (hway : way.OpenOn v k)
    (hoff : off ≤ c.length) (hfit : off + buf.length ≤ tmpfsMaxFileSize) :
    Wp (writeBy (fatCallbacks fs tmpfsCallbacks) p off buf way) v
      (fun m v' => m = buf.length ∧ HoldsTmpfs v' p k (c.take off ++ buf ++ c.drop (off + buf.length)))
      fun _ _ => False := by
  obtain ⟨node, name, index, file, hnode, hctx, hread, hwrite, hstat, hat, hc⟩ := h.file
  have hsize : ∀ files, vfsNodeSize (fatCallbacks fs tmpfsCallbacks) node (withOpenFiles v files) =
      .ok c.length (withOpenFiles v files) := by
    intro files
    rw [← hc]
    exact TmpfsAt.nodeSize (v := withOpenFiles v files) hat hctx hstat
  refine writeBy_returns way h.found hnode hway hoff hsize fun files => ?_
  have hfiles : HoldsTmpfs (withOpenFiles v files) p k c := ⟨h.found, h.file⟩
  refine Wp.mono (hfiles.write hoff hfit hnode) (fun m v' h' => ⟨h'.1, fun files' => ?_⟩) fun _ _ h => h
  exact ⟨h'.2.found, h'.2.file⟩

theorem HoldsFat.writeBy {v : FatVfs τ ρ} (h : HoldsFat fs r v p k c) (other : Callbacks τ ρ) (way : WriteWay)
    (hway : way.OpenOn v k)
    (hoff : off ≤ c.length) (hroom : FatRoom fs v k (off + buf.length)) :
    Wp (writeBy (fatCallbacks fs other) p off buf way) v
      (fun m v' => m = buf.length ∧ HoldsFat fs r v' p k (c.take off ++ buf)) fun _ _ => False := by
  obtain ⟨node, -, -, -, hnode, -⟩ := h.file
  have hfiles : ∀ files, HoldsFat fs r (withOpenFiles v files) p k c := fun files => ⟨h.fat, h.found, h.file⟩
  refine writeBy_returns way h.found hnode hway hoff (fun files => (hfiles files).nodeSize other hnode) fun files => ?_
  have hroom' : FatRoom fs (withOpenFiles v files) k (off + buf.length) :=
    ⟨hroom.writable, hroom.roomy, hroom.bound, hroom.free⟩
  refine Wp.mono ((hfiles files).write hoff hroom' hnode) (fun m v' h' => ⟨h'.1, fun files' => ?_⟩) fun _ _ h => h
  exact ⟨h'.2.fat, h'.2.found, h'.2.file⟩

/-- One write of the same bytes to two files with the same contents: what tmpfs shows afterwards, what
FAT32 shows afterwards, and when these are the same. -/
theorem write_backends {vt vf : FatVfs Path Tmpfs} {pt pf : Path} {kt kf : Nat} (off : Nat) (buf : List UInt8)
    (wayT wayF : WriteWay)
    (ht : HoldsTmpfs vt pt kt c) (hf : HoldsFat fs r vf pf kf c) (hwayT : wayT.OpenOn vt kt)
    (hwayF : wayF.OpenOn vf kf) (hoff : off ≤ c.length) (hfit : off + buf.length ≤ tmpfsMaxFileSize)
    (hroom : FatRoom fs vf kf (off + buf.length)) :
    ∃ vt' vf', writeBy (fatCallbacks fs tmpfsCallbacks) pt off buf wayT vt = .ok buf.length vt' ∧
      writeBy (fatCallbacks fs tmpfsCallbacks) pf off buf wayF vf = .ok buf.length vf' ∧
      ShowsFile (fatCallbacks fs tmpfsCallbacks) vt' pt (c.take off ++ buf ++ c.drop (off + buf.length)) ∧
      ShowsFile (fatCallbacks fs tmpfsCallbacks) vf' pf (c.take off ++ buf) ∧
      (c.take off ++ buf ++ c.drop (off + buf.length) = c.take off ++ buf ↔ c.length ≤ off + buf.length) := by
  obtain ⟨m, vt', hrunT, rfl, ht'⟩ := (ht.writeBy fs wayT hwayT hoff hfit).returns
  obtain ⟨n, vf', hrunF, rfl, hf'⟩ := (hf.writeBy tmpfsCallbacks wayF hwayF hoff hroom).returns
  refine ⟨vt', vf', hrunT, hrunF, ht'.shows, hf'.shows, ?_⟩
  -- tmpfs has something behind the write only if it does not reach the end of the file
  rw [List.append_right_eq_self, List.drop_eq_nil_iff]

/-! ## Two files of five bytes -/

/-- A tmpfs file of five zeros. -/
def sampleTmpfsFile : TmpfsFile := (TmpfsFile.new [116]).store 0 (List.replicate 5 0) (by decide)

/-- The tmpfs file is mounted under `/t`, the file of the small volume under `/fat/a`. -/
def sampleTwo : FatVfs Path Tmpfs where
  nodes := [tmpfsNode [47, 116] [116] sampleTmpfsFile, fatNode samplePath (handleOf sampleFs sampleDisk ⟨3, 0⟩ [3]) 0]
  openFiles := Vector.replicate _ none
  world :=
    { files := [handleOf sampleFs sampleDisk ⟨3, 0⟩ [3]]
      dev := ⟨sampleDisk, none⟩
      rest := { tmpfsReset.putFile 0 (some sampleTmpfsFile) with nodeCount := 1 } }

theorem sampleTwo_tmpfs : HoldsTmpfs sampleTwo [47, 116] 0 (List.replicate 5 0) :=
  ⟨rfl, _, [116], 0, sampleTmpfsFile, rfl, rfl, rfl, rfl, rfl, ⟨by decide +kernel, rfl⟩, by decide +kernel⟩

theorem sampleTwo_fat : HoldsFat sampleFs [2] sampleTwo samplePath 1 (List.replicate 5 0) :=
  ⟨sample_fatOk, by decide, _, 0, _, [3], rfl, rfl, rfl, rfl, rfl, rfl,
    ⟨by decide, ⟨by decide, by decide⟩, sample_openable.chain, rfl⟩, by decide +kernel⟩

theorem sampleTwo_room {n : Nat} (h : clustersFor sampleFs n ≤ 1) : FatRoom sampleFs sampleTwo 1 n := by
  have hgood : ∀ x < 7, nextOf sampleFs sampleDisk x ≠ clusterBad := by decide +kernel
  refine ⟨rfl, ⟨by decide, fun x hx => hgood x ?_⟩, ?_, fun node i file l hnode hctx hfile hc => ?_⟩
  · have hroom := hx.room
    simp only [lbaOf, dataBase, sampleFs] at hroom
    omega
  · have hmul := Nat.mul_le_mul_right (clusterBytesOf sampleFs) h
    exact hmul.trans (by decide)
  · cases hnode
    cases hctx
    cases hfile
    obtain rfl : [3] = l := hc.unique sample_openable.chain
    have hnone : clustersFor sampleFs n - [3].length = 0 := Nat.sub_eq_zero_of_le h
    rw [hnone]
    exact ⟨[], by simp⟩

/-- Five bytes written over five bytes: the two files show the same. -/
theorem write_backends_sample : ∃ vt vf,
    ShowsFile (fatCallbacks sampleFs tmpfsCallbacks) vt [47, 116] [1, 2, 3, 4, 5] ∧
      ShowsFile (fatCallbacks sampleFs tmpfsCallbacks) vf samplePath [1, 2, 3, 4, 5] := by
  obtain ⟨vt, vf, -, -, ht, hf, -⟩ := write_backends 0 [1, 2, 3, 4, 5] .path .path sampleTwo_tmpfs sampleTwo_fat
    trivial trivial (by decide) (by decide) (sampleTwo_room (by decide))
  exact ⟨vt, vf, ht, hf⟩

/-- One byte written over five bytes: tmpfs shows five bytes, FAT32 one. -/
theorem write_differs_between_backends : ¬∀ (vt vf vt' vf' : FatVfs Path Tmpfs) (pt pf : Path) (kt kf off : Nat)
    (c ct cf buf : List UInt8), HoldsTmpfs vt pt kt c → HoldsFat sampleFs [2] vf pf kf c → off ≤ c.length →
    off + buf.length ≤ tmpfsMaxFileSize → FatRoom sampleFs vf kf (off + buf.length) →
    vfsWrite (fatCallbacks sampleFs tmpfsCallbacks) pt off buf vt = .ok buf.length vt' →
    vfsWrite (fatCallbacks sampleFs tmpfsCallbacks) pf off buf vf = .ok buf.length vf' →
    ShowsFile (fatCallbacks sampleFs tmpfsCallbacks) vt' pt ct →
    ShowsFile (fatCallbacks sampleFs tmpfsCallbacks) vf' pf cf → ct = cf := by
  intro hall
  have hroom : FatRoom sampleFs sampleTwo 1 (0 + [1].length) := sampleTwo_room (by decide)
  have hwriteT : Wp (writeBy (fatCallbacks sampleFs tmpfsCallbacks) [47, 116] 0 [1] .path) sampleTwo _ _ :=
    sampleTwo_tmpfs.writeBy sampleFs .path trivial (by decide) (by decide)
  have hwriteF : Wp (writeBy (fatCallbacks sampleFs tmpfsCallbacks) samplePath 0 [1] .path) sampleTwo _ _ :=
    sampleTwo_fat.writeBy tmpfsCallbacks .path trivial (by decide) hroom
  obtain ⟨m, vt', hrunT, rfl, ht'⟩ := hwriteT.returns
  obtain ⟨n, vf', hrunF, rfl, hf'⟩ := hwriteF.returns
  have heq := hall sampleTwo sampleTwo vt' vf' _ _ 0 1 0 _ _ _ [1] sampleTwo_tmpfs sampleTwo_fat (by decide) (by decide)
    hroom hrunT hrunF ht'.shows hf'.shows
  exact absurd heq (by decide)

end Armonios
