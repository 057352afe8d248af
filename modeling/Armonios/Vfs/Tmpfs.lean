import Armonios.Vfs.Fat
import Armonios.Lib.Overlay

/-!
# Files in memory

`kernel/tmpfs.c` keeps eight files of at most 256 bytes in static storage. A VFS node of it has the name
of its file as the context, so tmpfs is one of the other filesystems of `Vfs.Fat`.

A slot that is not in use is `none`: its bytes are cleared when it is taken again.
-/

namespace Armonios

def tmpfsMaxFiles : Nat := 8
def tmpfsMaxFileSize : Nat := 256
def tmpfsMaxName : Nat := 32

/-- `tmpfs_file_t` of a used slot. -/
structure TmpfsFile where
  name : Path
  data : List UInt8
  size : Nat
  length_data : data.length = tmpfsMaxFileSize
  size_le : size ≤ tmpfsMaxFileSize

/-- A new file. -/
def TmpfsFile.new (name : Path) : TmpfsFile where
  name := name
  data := List.replicate tmpfsMaxFileSize 0
  size := 0
  length_data := List.length_replicate
  size_le := Nat.zero_le _

/-- The bytes stored at `offset`, and the size if they end behind it. -/
def TmpfsFile.store (file : TmpfsFile) (offset : Nat) (bytes : List UInt8)
    (h : offset + bytes.length ≤ tmpfsMaxFileSize) : TmpfsFile where
  name := file.name
  data := overlay offset bytes file.data
  size := if file.size < offset + bytes.length then offset + bytes.length else file.size
  length_data := (length_overlay _ _ _).trans file.length_data
  size_le := by
    split
    · exact h
    · exact file.size_le

/-- `g_tmpfs_files` and `g_tmpfs_vfs_node_count`. -/
structure Tmpfs where
  files : Vector (Option TmpfsFile) tmpfsMaxFiles
  nodeCount : Nat

abbrev TmpfsM := EStateM Err Tmpfs

/-- The state after `tmpfs_reset`. -/
def tmpfsReset : Tmpfs := ⟨Vector.replicate _ none, 0⟩

/-- The slot `index`. -/
def Tmpfs.fileAt (t : Tmpfs) (index : Nat) : Option TmpfsFile := (t.files[index]?).join

def Tmpfs.putFile (t : Tmpfs) (index : Nat) (file : Option TmpfsFile) : Tmpfs :=
  { t with files := t.files.setIfInBounds index file }

def tmpfsFindFile (t : Tmpfs) (name : Path) : Option Nat :=
  if name = [] then none else t.files.toList.findIdx? (Option.any (·.name = name))

/-- The file of a name with its slot, or the -1 of the caller. -/
def tmpfsFileOf (name : Path) : TmpfsM (Nat × TmpfsFile) := do
  let t ← get
  match tmpfsFindFile t name with
  | none => throw .fail
  | some index =>
    match t.fileAt index with
    | none => throw .fail
    | some file => return (index, file)

def tmpfsCreate (name : Path) : TmpfsM Unit := do
  let t ← get
  if name = [] ∨ (tmpfsFindFile t name).isSome = true then throw .fail
  match t.files.toList.findIdx? Option.isNone with
  | none => throw .fail
  | some index =>
    if tmpfsMaxName ≤ name.length then throw .fail
    set (t.putFile index (some (.new name)))

def tmpfsDelete (name : Path) : TmpfsM Unit := do
  let (index, _) ← tmpfsFileOf name
  modify fun t => t.putFile index none

theorem tmpfs_fits {offset : Nat} (h : ¬tmpfsMaxFileSize < offset) (buffer : List UInt8) :
    offset + (buffer.take (tmpfsMaxFileSize - offset)).length ≤ tmpfsMaxFileSize := by
  have := List.length_take_le (tmpfsMaxFileSize - offset) buffer
  omega

/-- `tmpfs_write`; a write is cut at the end of the storage. -/
def tmpfsWrite (name : Path) (offset : Nat) (buffer : List UInt8) : TmpfsM Nat := do
  let (index, file) ← tmpfsFileOf name
  if h : tmpfsMaxFileSize < offset then throw .fail
  else
    modify fun t =>
      t.putFile index (some (file.store offset (buffer.take (tmpfsMaxFileSize - offset)) (tmpfs_fits h buffer)))
    return min buffer.length (tmpfsMaxFileSize - offset)

def tmpfsRead (name : Path) (offset capacity : Nat) : TmpfsM (List UInt8) := do
  let (_, file) ← tmpfsFileOf name
  if file.size < offset then throw .fail
  return (file.data.drop offset).take (min capacity (file.size - offset))

def tmpfsStat (name : Path) : TmpfsM Nat := do
  let (_, file) ← tmpfsFileOf name
  return file.size

/-- `tmpfs_vfs_read`, `tmpfs_vfs_write`, `tmpfs_vfs_stat`. -/
def tmpfsCallbacks : Callbacks Path Tmpfs where
  read := tmpfsRead
  write := tmpfsWrite
  stat := tmpfsStat

/-- The node that `tmpfs_mount_vfs` mounts. -/
def tmpfsNode (path name : Path) (file : TmpfsFile) : VfsNode (FatCtx Path) where
  path := path
  size := file.size
  read := true
  write := true
  stat := true
  context := .other name

def tmpfsMountVfs (path name : Path) : FatVfsM Path Tmpfs Unit := do
  let (_, file) ← onWorld (onRest (tmpfsFileOf name))
  let count := (← get).world.rest.nodeCount
  if path.head? ≠ some 47 ∨ tmpfsMaxFiles ≤ count ∨ tmpfsMaxName ≤ name.length then throw .fail
  vfsMountStatic [tmpfsNode path name file]
  modify fun v => { v with world := { v.world with rest := { v.world.rest with nodeCount := count + 1 } } }

/-! ## The contents -/

/-- The bytes of a file. -/
def TmpfsFile.contents (file : TmpfsFile) : List UInt8 := file.data.take file.size

theorem TmpfsFile.length_contents (file : TmpfsFile) : file.contents.length = file.size := by
  have hlen := file.length_data
  have hle := file.size_le
  unfold contents
  rw [List.length_take]
  omega

/-- A write that starts in the file: what stood behind its end stays. -/
theorem TmpfsFile.contents_store (file : TmpfsFile) {offset : Nat} {bytes : List UInt8}
    (h : offset + bytes.length ≤ tmpfsMaxFileSize) (hoff : offset ≤ file.size) :
    (file.store offset bytes h).contents =
      file.contents.take offset ++ bytes ++ file.contents.drop (offset + bytes.length) := by
  have hlen := file.length_data
  have htake : file.contents.take offset = file.data.take offset := by
    unfold contents
    rw [List.take_take, Nat.min_eq_left hoff]
  rw [htake]
  unfold contents store
  dsimp only
  split
  · -- the write ends behind the end of the file
    rename_i hend
    rw [take_overlay _ _ _ (by omega), List.drop_of_length_le (by rw [List.length_take]; omega), List.append_nil]
  · rename_i hend
    unfold overlay
    rw [List.take_of_length_le (by omega : bytes.length ≤ file.data.length - offset), ← List.append_assoc,
      List.take_append, List.take_of_length_le (by simp; omega)]
    congr 1
    rw [List.drop_take]
    congr 1
    simp
    omega

/-! ## The slot of a name -/

/-- The file of a name with its slot. -/
structure TmpfsAt (t : Tmpfs) (name : Path) (index : Nat) (file : TmpfsFile) : Prop where
  found : tmpfsFindFile t name = some index
  file : t.fileAt index = some file

theorem TmpfsAt.fileOf {t : Tmpfs} {name : Path} {index : Nat} {file : TmpfsFile} (h : TmpfsAt t name index file) :
    tmpfsFileOf name t = .ok (index, file) t := by
  refine Wp.eq_ok (wp_bind.mpr (wp_get.mpr ?_))
  rw [h.found]
  dsimp only
  rw [h.file]
  exact ⟨rfl, rfl⟩

/-- A file is replaced by one of the same name. -/
theorem TmpfsAt.putFile {t : Tmpfs} {name : Path} {index : Nat} {file file' : TmpfsFile}
    (h : TmpfsAt t name index file) (hname : file'.name = file.name) :
    TmpfsAt (t.putFile index (some file')) name index file' := by
  have hfound := h.found
  unfold tmpfsFindFile at hfound
  split at hfound
  · cases hfound
  rename_i hne
  obtain ⟨hlt, hhit, hbefore⟩ := List.findIdx?_eq_some_iff_getElem.mp hfound
  have hlt' : index < tmpfsMaxFiles := by simpa using hlt
  have hfile : t.files[index] = some file := by
    have := h.file
    unfold Tmpfs.fileAt at this
    rw [Vector.getElem?_eq_getElem hlt'] at this
    simpa using this
  have hnew : (t.putFile index (some file')).files = t.files.setIfInBounds index (some file') := rfl
  constructor
  · unfold tmpfsFindFile
    rw [if_neg hne, hnew]
    refine List.findIdx?_eq_some_iff_getElem.mpr ⟨by simpa using hlt', ?_, fun j hj => ?_⟩
    · simp only [Vector.getElem_toList] at hhit ⊢
      rw [hfile] at hhit
      rw [Vector.getElem_setIfInBounds_self]
      simpa [hname] using hhit
    · have := hbefore j hj
      simp only [Vector.getElem_toList] at this ⊢
      rw [Vector.getElem_setIfInBounds_ne (by omega) (by omega)]
      exact this
  · unfold Tmpfs.fileAt
    rw [hnew, Vector.getElem?_setIfInBounds, if_pos rfl, if_pos hlt']
    rfl

end Armonios
