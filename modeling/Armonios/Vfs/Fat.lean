import Armonios.Vfs.Table

/-!
# FAT32 files in the VFS

A FAT file that is opened under a path of `/fat/` gets a VFS node of its own with a handle of its own
(`fat32_mount_vfs_file`); neither the node nor the handle is ever taken away. `vfs_unlink` and
`vfs_rename` work on the disk only.

The nodes of the other filesystems (tmpfs, bootfs) have contexts `τ` and callbacks on a state `ρ` of
their own; they cannot reach the FAT volume.
-/

namespace Armonios

def fat32MaxVfsFiles : Nat := 8

/-- The context of a node: an index of `g_fat32_vfs_files`, or that of another filesystem. -/
inductive FatCtx (τ : Type)
  | fat (index : Nat)
  | other (context : τ)
  deriving DecidableEq

/-- What the callbacks work on: the handles of `g_fat32_vfs_files`, the device under the volume, the
other filesystems. -/
structure FatWorld (ρ : Type) where
  files : List Fat32File
  dev : Dev
  rest : ρ

variable {τ ρ α : Type}

abbrev FatVfs (τ ρ : Type) := Vfs (FatCtx τ) (FatWorld ρ)

abbrev FatVfsM (τ ρ : Type) := VfsM (FatCtx τ) (FatWorld ρ)

def onFatDev (m : Io α) : EStateM Err (FatWorld ρ) α := onPart (·.dev) (fun w d => { w with dev := d }) m

def onRest (m : EStateM Err ρ α) : EStateM Err (FatWorld ρ) α :=
  onPart (·.rest) (fun w s => { w with rest := s }) m

/-- A run on the handle `index` and the device. -/
def onFatFile (index : Nat) (m : FileIo α) : EStateM Err (FatWorld ρ) α := fun w =>
  match w.files[index]? with
  | none => .error .fail w
  | some file =>
    onPart (fun w => ⟨file, w.dev⟩) (fun w t => { w with files := w.files.set index t.file, dev := t.dev }) m w

/-- `fat32_vfs_read`, `fat32_vfs_write`, `fat32_vfs_stat`, and the callbacks `other` of the other
filesystems. -/
def fatCallbacks (fs : Fat32Fs) (other : Callbacks τ ρ) : Callbacks (FatCtx τ) (FatWorld ρ) where
  read
    | .fat index, offset, capacity => onFatFile index do
      let file := (← get).file
      onDev (fat32Read fs file offset capacity)
    | .other context, offset, capacity => onRest (other.read context offset capacity)
  write
    | .fat index, offset, buffer => onFatFile index (fat32Write fs offset buffer)
    | .other context, offset, buffer => onRest (other.write context offset buffer)
  stat
    | .fat index => onFatFile index do return (← get).file.size
    | .other context => onRest (other.stat context)

/-- The bytes of `/fat/`. -/
def fatRoot : Path := [47, 102, 97, 116, 47]

/-- The name in the root directory that a path of `/fat/` stands for. -/
def vfsFat32RootName (path : Path) : Option Path :=
  match vfsStripPrefix path fatRoot with
  | none => none
  | some name => if 47 ∈ name ∨ vfsMaxPath ≤ name.length then none else some name

/-- The node that `fat32_mount_vfs_file` mounts. -/
def fatNode (path : Path) (file : Fat32File) (index : Nat) : VfsNode (FatCtx τ) where
  path := path
  size := file.size
  read := true
  write := true
  stat := true
  context := .fat index

def fat32MountVfsFile (fs : Fat32Fs) (path name : Path) : FatVfsM τ ρ Unit := do
  let index := (← get).world.files.length
  if fs.mounted = false ∨ path.head? ≠ some 47 ∨ fat32MaxVfsFiles ≤ index then throw .fail
  let file ← onWorld (onFatDev (fat32OpenRoot fs name))
  vfsMountStatic [fatNode path file index]
  modify fun v => { v with world := { v.world with files := v.world.files ++ [file] } }

/-- The file of a path that has no node: it is looked up, and created if `VFS_O_CREAT` says so. -/
def lookupOrCreate (fs : Fat32Fs) (name : Path) (flags : UInt32) : Io Unit := do
  if (← attempt Err.isFail (fat32OpenRoot fs name)).isSome then return ()
  if flags &&& vfsOCreat = 0 then throw .fail
  let _ ← fat32Create fs name

def vfsOpenDynamicFat32Node (fs : Fat32Fs) (path : Path) (flags : UInt32) : FatVfsM τ ρ Nat := do
  match vfsFat32RootName path with
  | none => throw .fail
  | some name =>
    if fs.mounted = false then throw .fail
    onWorld (onFatDev (lookupOrCreate fs name flags))
    fat32MountVfsFile fs path name
    match vfsFind (← get).nodes path with
    | none => throw .fail
    | some index => return index

def vfsOpenFlags (fs : Fat32Fs) (path : Path) (flags : UInt32) : FatVfsM τ ρ Nat := do
  if vfsOpenFlagsValid flags = false then throw .fail
  match vfsFind (← get).nodes path with
  | some index => vfsOpenNode index (flags &&& vfsOAccmode)
  | none =>
    let index ← vfsOpenDynamicFat32Node fs path flags
    vfsOpenNode index (flags &&& vfsOAccmode)

def vfsUnlink (fs : Fat32Fs) (path : Path) : FatVfsM τ ρ Unit := do
  match vfsFat32RootName path with
  | none => throw .fail
  | some name =>
    if fs.mounted = false then throw .fail
    onWorld (onFatDev (fat32Delete fs name))

def vfsRename (fs : Fat32Fs) (oldPath newPath : Path) : FatVfsM τ ρ Unit := do
  match vfsFat32RootName oldPath, vfsFat32RootName newPath with
  | some oldName, some newName =>
    if fs.mounted = false then throw .fail
    onWorld (onFatDev (fat32Rename fs oldName newName))
  | _, _ => throw .fail

end Armonios
