import Armonios.Fat32.Driver

/-!
# The VFS tables

`kernel/vfs.c` keeps a table of nodes, which only grows, and a table of open files. A node has a
path, an optional read, write and stat callback and the context they are called with. The functions
here are over any contexts `κ` and callbacks on any state `ω` (`Callbacks`); a callback that is not
set is a `false` flag of the node. A path is given by its bytes before the terminating NUL, a pointer
to a node by its index in the table.

A function that returns -1 throws `Err.fail`, as in the FAT32 driver.
-/

namespace Armonios

def vfsMaxNodes : Nat := 24
def vfsMaxOpenFiles : Nat := 8
def vfsMaxPath : Nat := 64

/-- `VFS_O_ACCMODE` and the access modes, `VFS_O_CREAT`. -/
def vfsOAccmode : UInt32 := 3
def vfsORdonly : UInt32 := 0
def vfsOWronly : UInt32 := 1
def vfsORdwr : UInt32 := 2
def vfsOCreat : UInt32 := 0x40

/-- A path or a name, as bytes. -/
abbrev Path := List UInt8

/-- `vfs_strip_prefix`: what follows the prefix, if anything does. -/
def vfsStripPrefix (path pre : Path) : Option Path :=
  if pre = [] then none
  else if pre.isPrefixOf path ∧ path.length ≠ pre.length then some (path.drop pre.length) else none

/-- The callbacks behind the nodes: what a read returns, how much a write stored, the size. -/
structure Callbacks (κ ω : Type) where
  read : κ → (offset capacity : Nat) → EStateM Err ω (List UInt8)
  write : κ → (offset : Nat) → (buffer : List UInt8) → EStateM Err ω Nat
  stat : κ → EStateM Err ω Nat

/-- `vfs_node_t`; the flags say which callbacks are set. -/
structure VfsNode (κ : Type) where
  path : Path
  size : Nat
  read : Bool
  write : Bool
  stat : Bool
  context : κ

/-- `vfs_open_file_t` of a used entry. -/
structure VfsOpenFile where
  node : Nat
  offset : Nat
  flags : UInt32
  deriving DecidableEq, Repr

/-- The tables of the VFS and the state behind its callbacks. -/
structure Vfs (κ ω : Type) where
  nodes : List (VfsNode κ)
  openFiles : Vector (Option VfsOpenFile) vfsMaxOpenFiles
  world : ω

abbrev VfsM (κ ω : Type) := EStateM Err (Vfs κ ω)

section Table

variable {κ ω α : Type} (cb : Callbacks κ ω)

/-- The state after `vfs_reset`. -/
def vfsReset (w : ω) : Vfs κ ω := ⟨[], Vector.replicate _ none, w⟩

/-- A callback. -/
def onWorld (m : EStateM Err ω α) : VfsM κ ω α := onPart (·.world) (fun v w => { v with world := w }) m

def vfsPathIsMountable (path : Path) : Bool := path.head? = some 47 && path.length < vfsMaxPath

def vfsFind (nodes : List (VfsNode κ)) (path : Path) : Option Nat :=
  if path = [] then none else nodes.findIdx? (·.path = path)

/-- What `vfs_mount_static` checks of a node: `others` are the nodes before it in the array. -/
def vfsNodeMountable (nodes others : List (VfsNode κ)) (node : VfsNode κ) : Bool :=
  vfsPathIsMountable node.path && (node.read || node.write) && (vfsFind nodes node.path).isNone &&
    others.all (·.path ≠ node.path)

/-- The check of the array, node by node. -/
def vfsAllMountable (nodes : List (VfsNode κ)) : List (VfsNode κ) → List (VfsNode κ) → Bool
  | _, [] => true
  | others, node :: rest => vfsNodeMountable nodes others node && vfsAllMountable nodes (others ++ [node]) rest

def vfsMountStatic (new : List (VfsNode κ)) : VfsM κ ω Unit := do
  let nodes := (← get).nodes
  if new = [] ∨ vfsMaxNodes < (nodes.length + new.length) % 2 ^ 32 ∨ vfsAllMountable nodes [] new = false then
    throw .fail
  modify fun v => { v with nodes := v.nodes ++ new }

def vfsNodeSize (node : VfsNode κ) : VfsM κ ω Nat :=
  if node.stat then onWorld (cb.stat node.context) else return node.size

def vfsReadResultValid (offset fileSize capacity count : Nat) : Bool :=
  offset ≤ fileSize && count ≤ capacity && count ≤ fileSize - offset

def vfsWriteResultValid (offset requested count : Nat) : Bool :=
  count ≤ requested && offset ≤ 2 ^ 64 - 1 - count

/-- The part that `vfs_read` and `vfs_read_fd` have in common. -/
def readNode (node : VfsNode κ) (offset capacity : Nat) : VfsM κ ω (List UInt8) := do
  if node.read = false then throw .fail
  let size ← vfsNodeSize cb node
  if size < offset then throw .fail
  let bytes ← onWorld (cb.read node.context offset capacity)
  if vfsReadResultValid offset size capacity bytes.length = false then throw .fail
  return bytes

/-- The part that `vfs_write` and `vfs_write_fd` have in common. -/
def writeNode (node : VfsNode κ) (offset : Nat) (buffer : List UInt8) : VfsM κ ω Nat := do
  if node.write = false then throw .fail
  let size ← vfsNodeSize cb node
  if size < offset then throw .fail
  let count ← onWorld (cb.write node.context offset buffer)
  if vfsWriteResultValid offset buffer.length count = false then throw .fail
  return count

/-- The node of a path, or the -1 of the caller. -/
def vfsNodeOf (path : Path) : VfsM κ ω (VfsNode κ) := do
  let nodes := (← get).nodes
  match vfsFind nodes path >>= (nodes[·]?) with
  | some node => return node
  | none => throw .fail

def vfsRead (path : Path) (offset capacity : Nat) : VfsM κ ω (List UInt8) := do
  let node ← vfsNodeOf path
  readNode cb node offset capacity

def vfsWrite (path : Path) (offset : Nat) (buffer : List UInt8) : VfsM κ ω Nat := do
  let node ← vfsNodeOf path
  writeNode cb node offset buffer

def vfsStat (path : Path) : VfsM κ ω Nat := do
  let node ← vfsNodeOf path
  vfsNodeSize cb node

def vfsOpenFlagsValid (flags : UInt32) : Bool :=
  flags &&& ~~~(vfsOAccmode ||| vfsOCreat) = 0 &&
    (flags &&& vfsOAccmode = vfsORdonly || flags &&& vfsOAccmode = vfsOWronly || flags &&& vfsOAccmode = vfsORdwr)

/-- The last part of `vfs_open_flags`: the callbacks of the node `index` and a free descriptor. -/
def vfsOpenNode (index : Nat) (mode : UInt32) : VfsM κ ω Nat := do
  let v ← get
  match v.nodes[index]? with
  | none => throw .fail
  | some node =>
    if ((mode = vfsORdonly ∨ mode = vfsORdwr) ∧ node.read = false) ∨
        ((mode = vfsOWronly ∨ mode = vfsORdwr) ∧ node.write = false) then throw .fail
    match v.openFiles.toList.findIdx? Option.isNone with
    | none => throw .fail
    | some fd =>
      set { v with openFiles := v.openFiles.setIfInBounds fd (some ⟨index, 0, mode⟩) }
      return fd

/-- The open file of a descriptor. -/
def vfsFdAt (v : Vfs κ ω) (fd : Int) : Option VfsOpenFile :=
  if fd < 0 ∨ (vfsMaxOpenFiles : Int) ≤ fd then none else (v.openFiles[fd.toNat]?).join

/-- The open file of a descriptor with its node, or the -1 of the caller. -/
def vfsFdNode (fd : Int) : VfsM κ ω (VfsOpenFile × VfsNode κ) := do
  let v ← get
  match vfsFdAt v fd with
  | none => throw .fail
  | some file =>
    match v.nodes[file.node]? with
    | none => throw .fail
    | some node => return (file, node)

/-- `file->offset = offset`. -/
def vfsSetOffset (fd : Int) (file : VfsOpenFile) (offset : Nat) : VfsM κ ω Unit :=
  modify fun v => { v with openFiles := v.openFiles.setIfInBounds fd.toNat (some { file with offset := offset }) }

def vfsReadFd (fd : Int) (capacity : Nat) : VfsM κ ω (List UInt8) := do
  let (file, node) ← vfsFdNode fd
  if file.flags = vfsOWronly then throw .fail
  let bytes ← readNode cb node file.offset capacity
  vfsSetOffset fd file (file.offset + bytes.length)
  return bytes

def vfsWriteFd (fd : Int) (buffer : List UInt8) : VfsM κ ω Nat := do
  let (file, node) ← vfsFdNode fd
  if file.flags = vfsORdonly then throw .fail
  let count ← writeNode cb node file.offset buffer
  vfsSetOffset fd file (file.offset + count)
  return count

def vfsSeek (fd : Int) (offset : Nat) : VfsM κ ω Unit := do
  let (file, node) ← vfsFdNode fd
  let size ← vfsNodeSize cb node
  if size < offset then throw .fail
  vfsSetOffset fd file offset

def vfsClose (fd : Int) : VfsM κ ω Unit := do
  match vfsFdAt (← get) fd with
  | none => throw .fail
  | some _ => modify fun v => { v with openFiles := v.openFiles.setIfInBounds fd.toNat none }

end Table

end Armonios
