import Armonios.Vfs.Effect
import Armonios.Process.Trap

/-!
# File system calls

The system calls of `kernel/syscall.c` on files, over the VFS with its FAT volume. `FileState` is what
the rest of the kernel keeps, once the VFS is taken out of it: windows, messages and devices are the type
parameter `β`. `FileEnv.toEnv` is the environment of the trap code with these system calls.

A descriptor of a program is `FD_FILE_BASE` more than its index in the table; the functions of the VFS
take it as an `int`.
-/

namespace Armonios

def sysOpenNr : UInt64 := 40
def sysCloseNr : UInt64 := 41
def sysReadNr : UInt64 := 42
def sysWriteNr : UInt64 := 43
def sysSeekNr : UInt64 := 44
def sysStatNr : UInt64 := 45
def sysUnlinkNr : UInt64 := 47
def sysRenameNr : UInt64 := 48

def fdStdin : UInt64 := 0
def fdStdout : UInt64 := 1
def fdStderr : UInt64 := 2
def fdFileBase : UInt64 := 3

/-- `sizeof(vfs_stat_t)`. -/
def sizeofVfsStat : Nat := 8

/-- The VFS, and what the file system calls do not use. -/
structure FileState (τ σ β : Type) where
  vfs : FatVfs τ σ
  others : β

abbrev FileKernel (τ σ β : Type) := Kernel (FileState τ σ β)

/-- The rest of the kernel. No function of it gets at the tables of the VFS. -/
structure FileEnv (τ σ β : Type) where
  fs : Fat32Fs
  /-- The callbacks of the other filesystems. -/
  callbacks : Callbacks τ σ
  bootfsFind : Path → Option (List UInt8)
  returnAddress : UInt64
  byte : Nat → UInt8
  destroyWindows : Nat → β → β
  poll : FileKernel τ σ β → Frame → β
  irqWork : FileKernel τ σ β → UInt32 → β
  /-- `input_queue_poll_char`. -/
  inputQueuePollChar : β → Option UInt8 × β
  /-- `uart_putc`, byte after byte. -/
  uartPuts : List UInt8 → β → β
  /-- The other system calls; `SYS_READDIR` may read the devices behind the filesystems. -/
  call : FileKernel τ σ β → Frame → Option (UInt64 × FatWorld σ × β)

variable {τ σ β α : Type}

/-- The `int` that a function of the VFS gets for a descriptor of a program. -/
def fileFd (fd : UInt64) : Int := toInt32 ((fd - fdFileBase).toNat % 2 ^ 32)

/-- `sys_user_buf_in` and `sys_user_buf_out` for the current process. -/
def bufArgument (k : FileKernel τ σ β) (ptr len : UInt64) : Bool :=
  k.current.any fun i => userBufRange (k.processes i) ptr.toNat len.toNat

/-- `sys_user_copy_cstr` for the current process. -/
def cstrArgument (env : FileEnv τ σ β) (k : FileKernel τ σ β) (ptr : UInt64) : Option Path :=
  k.current.bind fun i => sysUserCopyCstr env.byte (k.processes i) ptr.toNat vfsMaxPath 0

/-- A call of the VFS: `ok` is the result for a value, `err` the one for -1. -/
def onVfs (m : FatVfsM τ σ α) (ok : α → Int) (err : Int) (s : FileState τ σ β) : Int × FileState τ σ β :=
  match m s.vfs with
  | .ok a vfs => (ok a, { s with vfs })
  | .error _ vfs => (err, { s with vfs })

namespace FileEnv

variable (env : FileEnv τ σ β)

/-- All callbacks. -/
def allCallbacks : Callbacks (FatCtx τ) (FatWorld σ) := fatCallbacks env.fs env.callbacks

/-- `VFS_O_ALLOWED` has 32 bits, so the upper half of the flags is not looked at. -/
def sysOpen (pathPtr flags : UInt64) (k : FileKernel τ σ β) : Int × FileState τ σ β :=
  if flags &&& (~~~(vfsOAccmode ||| vfsOCreat)).toUInt64 ≠ 0 ∨
      flags &&& vfsOAccmode.toUInt64 = vfsOAccmode.toUInt64 then (errInval, k.rest)
  else
    match cstrArgument env k pathPtr with
    | none => (errInval, k.rest)
    | some path => onVfs (vfsOpenFlags env.fs path flags.toUInt32) (fun fd => fd + fdFileBase.toNat) errNoent k.rest

def sysClose (fd : UInt64) (k : FileKernel τ σ β) : Int × FileState τ σ β :=
  if fd < fdFileBase then (errBadf, k.rest) else onVfs (vfsClose (fileFd fd)) (fun _ => 0) errBadf k.rest

def sysSeek (fd offset whence : UInt64) (k : FileKernel τ σ β) : Int × FileState τ σ β :=
  if fd < fdFileBase ∨ whence ≠ 0 then (errInval, k.rest)
  else onVfs (vfsSeek env.allCallbacks (fileFd fd) offset.toNat) (fun _ => offset.toNat) errBadf k.rest

def sysRead (fd buf len : UInt64) (k : FileKernel τ σ β) : Int × FileState τ σ β :=
  if fd = fdStdin then
    if bufArgument k buf len = false then (errInval, k.rest)
    else if len = 0 then (0, k.rest)
    else
      let (char, others) := env.inputQueuePollChar k.rest.others
      (if char.isSome then 1 else errAgain, { k.rest with others })
  else if fd < fdFileBase then (errBadf, k.rest)
  else if bufArgument k buf len = false then (errInval, k.rest)
  else onVfs (vfsReadFd env.allCallbacks (fileFd fd) len.toNat) (fun bytes => bytes.length) errBadf k.rest

/-- The bytes of a buffer of the current process. -/
def bufBytes (buf len : UInt64) : List UInt8 := (List.range len.toNat).map fun i => env.byte (buf.toNat + i)

def sysWrite (fd buf len : UInt64) (k : FileKernel τ σ β) : Int × FileState τ σ β :=
  if bufArgument k buf len = false then (errInval, k.rest)
  else if fdFileBase ≤ fd then
    onVfs (vfsWriteFd env.allCallbacks (fileFd fd) (env.bufBytes buf len)) (fun count => count) errBadf k.rest
  else if fd ≠ fdStdout ∧ fd ≠ fdStderr then (errBadf, k.rest)
  else (len.toNat, { k.rest with others := env.uartPuts (env.bufBytes buf len) k.rest.others })

def sysStat (pathPtr statPtr : UInt64) (k : FileKernel τ σ β) : Int × FileState τ σ β :=
  match cstrArgument env k pathPtr with
  | none => (errInval, k.rest)
  | some path =>
    if bufArgument k statPtr (UInt64.ofNat sizeofVfsStat) = false then (errInval, k.rest)
    else onVfs (vfsStat env.allCallbacks path) (fun _ => 0) errNoent k.rest

def sysUnlink (pathPtr : UInt64) (k : FileKernel τ σ β) : Int × FileState τ σ β :=
  match cstrArgument env k pathPtr with
  | none => (errInval, k.rest)
  | some path => onVfs (vfsUnlink env.fs path) (fun _ => 0) errNoent k.rest

def sysRename (oldPtr newPtr : UInt64) (k : FileKernel τ σ β) : Int × FileState τ σ β :=
  match cstrArgument env k oldPtr, cstrArgument env k newPtr with
  | some oldPath, some newPath => onVfs (vfsRename env.fs oldPath newPath) (fun _ => 0) errNoent k.rest
  | _, _ => (errInval, k.rest)

/-- The system calls that work on the VFS, by their number. -/
def fileCall (frame : Frame) (k : FileKernel τ σ β) : Option (Int × FileState τ σ β) :=
  let nr := frame.arg 8
  if nr = sysOpenNr then some (env.sysOpen (frame.arg 0) (frame.arg 1) k)
  else if nr = sysCloseNr then some (sysClose (frame.arg 0) k)
  else if nr = sysReadNr then some (env.sysRead (frame.arg 0) (frame.arg 1) (frame.arg 2) k)
  else if nr = sysWriteNr then some (env.sysWrite (frame.arg 0) (frame.arg 1) (frame.arg 2) k)
  else if nr = sysSeekNr then some (env.sysSeek (frame.arg 0) (frame.arg 1) (frame.arg 2) k)
  else if nr = sysStatNr then some (env.sysStat (frame.arg 0) (frame.arg 1) k)
  else if nr = sysUnlinkNr then some (env.sysUnlink (frame.arg 0) k)
  else if nr = sysRenameNr then some (env.sysRename (frame.arg 0) (frame.arg 1) k)
  else none

/-- The environment of the process and trap code. -/
def toEnv : Env (FileState τ σ β) where
  destroyWindows pid s := { s with others := env.destroyWindows pid s.others }
  bootfsFind := env.bootfsFind
  byte := env.byte
  poll k frame := { k.rest with others := env.poll k frame }
  irqWork k irq := { k.rest with others := env.irqWork k irq }
  returnAddress := env.returnAddress
  other k frame :=
    match env.fileCall frame k with
    | some (value, s) => some (toWord value, s)
    | none => (env.call k frame).map fun (x0, world, others) => (x0, ⟨{ k.rest.vfs with world }, others⟩)

end FileEnv

/-! ## The boot filesystem

`kernel/bootfs.c` shows the images that are linked into the kernel as files that can only be read. -/

def bootfsRead (find : Path → Option (List UInt8)) (name : Path) (offset capacity : Nat) :
    EStateM Err σ (List UInt8) :=
  match find name with
  | none => throw .fail
  | some data =>
    if data.length < offset then throw .fail
    else return (data.drop offset).take (min capacity (data.length - offset))

/-- `bootfs_vfs_read`; the other callbacks are not set. -/
def bootfsCallbacks (find : Path → Option (List UInt8)) : Callbacks Path σ where
  read := bootfsRead find
  write _ _ _ := throw .fail
  stat _ := throw .fail

/-- The node that `bootfs_mount_vfs` mounts. -/
def bootfsNode (path name : Path) (data : List UInt8) : VfsNode (FatCtx Path) where
  path := path
  size := data.length
  read := true
  write := false
  stat := false
  context := .other name

end Armonios
