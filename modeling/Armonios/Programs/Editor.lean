import Armonios.Lib.Overlay
import Armonios.Vfs.Fat

/-!
# The editor

`programs/apps/editor.c`: how a note is loaded and saved, and the movements of the caret. The calls of libkarm are
those of the VFS, with the descriptor of the VFS; a call that returns a negative value is `none`.

* `EditorState.moves_same`: the movements change nothing but the caret.
-/

namespace Armonios

def editorFileCap : Nat := 512

inductive EditorStatus
  | empty | opened | openFailed | saved | saveFailed
  deriving DecidableEq, Repr

/-- `editor_state_t`. -/
structure EditorState where
  file : Vector UInt8 editorFileCap
  fileLen : Nat
  caret : Nat
  status : EditorStatus

namespace EditorState

def init : EditorState := ⟨Vector.replicate _ 0, 0, 0, .empty⟩

/-- The characters of the note. -/
def text (e : EditorState) : List UInt8 := e.file.toList.take e.fileLen

/-! ## The caret -/

/-- `editor_line_start`: the place behind the last newline before the caret. -/
def lineStart (e : EditorState) (caret : Nat) : Nat :=
  (List.range (min caret e.fileLen)).foldl (fun start i => if e.file[i]? = some 10 then i + 1 else start) 0

/-- `editor_line_end`. -/
def lineEnd (e : EditorState) (caret : Nat) : Nat :=
  ((List.range' (min caret e.fileLen) (e.fileLen - min caret e.fileLen)).find? fun i => e.file[i]? = some 10).getD
    e.fileLen

inductive Move
  | left | right | up | down

def left (e : EditorState) : EditorState :=
  if e.lineStart e.caret < e.caret then { e with caret := e.caret - 1 } else e

def right (e : EditorState) : EditorState :=
  if e.caret < e.lineEnd e.caret then { e with caret := e.caret + 1 } else e

def up (e : EditorState) : EditorState :=
  let start := e.lineStart e.caret
  if start = 0 then e
  else
    let col := e.caret - start
    let prevEnd := start - 1
    let prevStart := e.lineStart prevEnd
    { e with caret := prevStart + min col (prevEnd - prevStart) }

def down (e : EditorState) : EditorState :=
  let stop := e.lineEnd e.caret
  if e.fileLen ≤ stop then e
  else
    let col := e.caret - e.lineStart e.caret
    let nextStart := stop + 1
    { e with caret := nextStart + min col (e.lineEnd nextStart - nextStart) }

def move (e : EditorState) : Move → EditorState
  | .left => e.left
  | .right => e.right
  | .up => e.up
  | .down => e.down

/-- Only the caret moves. -/
theorem move_same (e : EditorState) (way : Move) : ∃ caret, e.move way = { e with caret } := by
  cases way with
  | left =>
    simp only [move, left]
    split
    · exact ⟨_, rfl⟩
    · exact ⟨e.caret, rfl⟩
  | right =>
    simp only [move, right]
    split
    · exact ⟨_, rfl⟩
    · exact ⟨e.caret, rfl⟩
  | up =>
    simp only [move, up]
    split
    · exact ⟨e.caret, rfl⟩
    · exact ⟨_, rfl⟩
  | down =>
    simp only [move, down]
    split
    · exact ⟨e.caret, rfl⟩
    · exact ⟨_, rfl⟩

theorem moves_same (e : EditorState) (ways : List Move) : ∃ caret, ways.foldl move e = { e with caret } := by
  induction ways generalizing e with
  | nil => exact ⟨e.caret, rfl⟩
  | cons way ways ih =>
    obtain ⟨caret, hmove⟩ := e.move_same way
    rw [List.foldl_cons, hmove]
    exact ih { e with caret }

end EditorState

/-! ## Loading and saving -/

variable {τ ρ : Type}

def isFatPath (path : Path) : Bool := fatRoot.isPrefixOf path && path.length ≠ fatRoot.length

section Calls

variable (fs : Fat32Fs) (other : Callbacks τ ρ)

/-- `load_note`: what it puts into the buffer, with the NUL behind it, or the -1. -/
def loadNote (path : Path) (cap : Nat) : FatVfsM τ ρ (Option (List UInt8)) := do
  let flags := if isFatPath path then vfsORdwr ||| vfsOCreat else vfsORdonly
  match ← attempt Err.isFail (vfsOpenFlags fs path flags) with
  | none => return none
  | some fd =>
    let n ← attempt Err.isFail (vfsReadFd (fatCallbacks fs other) fd (cap - 1))
    let _ ← attempt Err.isFail (vfsClose fd)
    return n

/-- `save_note`: whether it returns 0. -/
def saveNote (path : Path) (buf : List UInt8) : FatVfsM τ ρ Bool := do
  let flags := if isFatPath path then vfsORdwr ||| vfsOCreat else vfsORdwr
  match ← attempt Err.isFail (vfsOpenFlags fs path flags) with
  | none => return false
  | some fd =>
    let _ ← attempt Err.isFail (vfsSeek (fatCallbacks fs other) fd 0)
    let written ← attempt Err.isFail (vfsWriteFd (fatCallbacks fs other) fd buf)
    let _ ← attempt Err.isFail (vfsClose fd)
    return written = some buf.length

/-- The bytes at the start of the buffer. -/
def putText (bytes : List UInt8) (file : Vector UInt8 editorFileCap) : Vector UInt8 editorFileCap :=
  ⟨(overlay 0 bytes file.toList).toArray, by simp [length_overlay]⟩

def editorLoad (path : Path) (e : EditorState) : FatVfsM τ ρ EditorState := do
  let e := match ← loadNote fs other path editorFileCap with
    | none => { e with file := putText [0] e.file, fileLen := 0, status := .openFailed }
    | some bytes => { e with file := putText (bytes ++ [0]) e.file, fileLen := bytes.length, status := .opened }
  return { e with caret := min e.caret e.fileLen }

def editorSave (path : Path) (e : EditorState) : FatVfsM τ ρ EditorState := do
  if ← saveNote fs other path e.text then return { e with status := .saved }
  return { e with status := .saveFailed }

end Calls

theorem putText_toList (bytes : List UInt8) (file : Vector UInt8 editorFileCap) :
    (putText bytes file).toList = overlay 0 bytes file.toList := by
  simp [putText]

/-- The text after a load that fits into the buffer. -/
theorem putText_take {bytes : List UInt8} (h : bytes.length < editorFileCap) (file : Vector UInt8 editorFileCap) :
    (putText (bytes ++ [0]) file).toList.take bytes.length = bytes := by
  have hlen : (bytes ++ [(0 : UInt8)]).length ≤ file.toList.length := by
    rw [List.length_append, List.length_singleton, Vector.length_toList]
    exact h
  have hall := take_overlay 0 (bytes ++ [0]) file.toList (by omega)
  rw [Nat.zero_add, List.take_zero, List.nil_append] at hall
  have htake := congrArg (List.take bytes.length) hall
  rw [List.take_take, Nat.min_eq_left (by simp), List.take_left] at htake
  rw [putText_toList]
  exact htake

end Armonios
