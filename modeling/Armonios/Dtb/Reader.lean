import Armonios.Lib.Reads

/-!
# Reading the device tree

The readers of a flattened device tree: `kernel/dtb_reader.h`, `dtb_get_memory` of `kernel/dtb.c` and
`dtb_get_framebuffer` of `kernel/dtb_framebuffer.c`, as programs that read memory at addresses. Both functions go over
the tokens with the same loop (`fdtLoop`); what they do at a node and at a property is a `FdtParser`.

A scan for a NUL has no bound of its own, so the loops have fuel; `none` if it runs out.
-/

namespace Armonios

def fdtMagic : UInt32 := 0xd00dfeed
def fdtBeginNode : UInt32 := 0x00000001
def fdtEndNode : UInt32 := 0x00000002
def fdtProp : UInt32 := 0x00000003
def fdtNop : UInt32 := 0x00000004
def fdtEnd : UInt32 := 0x00000009

/-- `sizeof(fdt_header_t)`. -/
def fdtHeaderSize : UInt32 := 40

/-! ## `dtb_reader.h` -/

/-- The byte at an address. -/
def byteAt (a : UInt64) : Reads UInt8 := .readByte a.toNat

/-- `c && m`, where `m` reads. -/
def Reads.andThen (c : Bool) (m : Reads Bool) : Reads Bool := if c then m else pure false

def fdtBe32 (ptr : UInt64) : Reads UInt32 := do
  let b0 ← byteAt ptr
  let b1 ← byteAt (ptr + 1)
  let b2 ← byteAt (ptr + 2)
  let b3 ← byteAt (ptr + 3)
  return b0.toUInt32 <<< 24 ||| b1.toUInt32 <<< 16 ||| b2.toUInt32 <<< 8 ||| b3.toUInt32

/-- `fdt_read_cells` from the next cell on, with the value so far. -/
def fdtReadCells (cells : UInt64) : (count : Nat) → (value : UInt64) → Reads UInt64
  | 0, value => pure value
  | count + 1, value => do
    let cell ← fdtBe32 cells
    fdtReadCells (cells + 4) count (value <<< 32 ||| cell.toUInt64)

def fdtAlign4 (value : UInt64) : UInt64 := (value + 3) &&& ~~~3

/-- `fdt_streq` with a string constant, given by its characters before the NUL. -/
def fdtStreq (a : UInt64) : (b : List UInt8) → Reads Bool
  | [] => do return (← byteAt a) = 0
  | c :: b => do
    if (← byteAt a) = c then fdtStreq (a + 1) b else return false

def fdtStartsWith (value : UInt64) : (pre : List UInt8) → Reads Bool
  | [] => pure true
  | c :: pre => do
    if (← byteAt value) = c then fdtStartsWith (value + 1) pre else return false

def fdtRangeValid (offset size totalSize : UInt32) : Bool := offset ≤ totalSize && size ≤ totalSize - offset

/-- `fdt_view_t`. -/
structure FdtView where
  strings : UInt64
  cursor : UInt64
  structEnd : UInt64
  totalSize : UInt32
  deriving DecidableEq

/-- `none` for −1. -/
def fdtViewInit (dtbAddr : UInt64) : Reads (Option FdtView) := do
  if dtbAddr = 0 then return none
  if (← fdtBe32 dtbAddr) ≠ fdtMagic then return none
  let totalSize ← fdtBe32 (dtbAddr + 4)
  let structOffset ← fdtBe32 (dtbAddr + 8)
  let structSize ← fdtBe32 (dtbAddr + 36)
  let stringsOffset ← fdtBe32 (dtbAddr + 12)
  let stringsSize ← fdtBe32 (dtbAddr + 32)
  if totalSize < fdtHeaderSize ∨ fdtRangeValid structOffset structSize totalSize = false ∨
      fdtRangeValid stringsOffset stringsSize totalSize = false then return none
  let cursor := dtbAddr + structOffset.toUInt64
  return some ⟨dtbAddr + stringsOffset.toUInt64, cursor, cursor + structSize.toUInt64, totalSize⟩

/-! ## The loop over the tokens -/

/-- What a function does at a node and at a property; an error is its return. -/
structure FdtParser (σ α : Type) where
  beginNode : (name : UInt64) → σ → Reads σ
  endNode : σ → Except α σ
  prop : (len : UInt32) → (name value : UInt64) → σ → Reads (Except α σ)
  /-- The return at the end of the tokens, and at a token that is none. -/
  finish : σ → α

/-- `while (*(const char *)cursor != '\0')`: where the NUL is. -/
def fdtSkipName : (fuel : Nat) → (cursor : UInt64) → Reads (Option UInt64)
  | 0, _ => pure none
  | fuel + 1, cursor => do
    if (← byteAt cursor) = 0 then return some cursor else fdtSkipName fuel (cursor + 1)

def fdtLoop {σ α : Type} (parser : FdtParser σ α) (strings structEnd : UInt64) :
    (fuel : Nat) → (cursor : UInt64) → σ → Reads (Option α)
  | 0, _, _ => pure none
  | fuel + 1, cursor, s =>
    if structEnd ≤ cursor then pure (some (parser.finish s))
    else do
      let token ← fdtBe32 cursor
      let cursor := cursor + 4
      if token = fdtBeginNode then
        let s ← parser.beginNode cursor s
        match ← fdtSkipName fuel cursor with
        | none => return none
        | some stop => fdtLoop parser strings structEnd fuel (fdtAlign4 (stop + 1)) s
      else if token = fdtEndNode then
        match parser.endNode s with
        | .error a => return some a
        | .ok s => fdtLoop parser strings structEnd fuel cursor s
      else if token = fdtProp then
        let len ← fdtBe32 cursor
        let nameoff ← fdtBe32 (cursor + 4)
        match ← parser.prop len (strings + nameoff.toUInt64) (cursor + 8) s with
        | .error a => return some a
        | .ok s => fdtLoop parser strings structEnd fuel (fdtAlign4 (cursor + 8 + len.toUInt64)) s
      else if token = fdtNop then fdtLoop parser strings structEnd fuel cursor s
      else return some (parser.finish s)

/-! ## `dtb_get_memory` -/

/-- "memory". -/
def memoryName : List UInt8 := [109, 101, 109, 111, 114, 121]

/-- "#address-cells". -/
def addressCellsName : List UInt8 := [35, 97, 100, 100, 114, 101, 115, 115, 45, 99, 101, 108, 108, 115]

/-- "#size-cells". -/
def sizeCellsName : List UInt8 := [35, 115, 105, 122, 101, 45, 99, 101, 108, 108, 115]

/-- "reg". -/
def regName : List UInt8 := [114, 101, 103]

structure DtbMemory where
  base : UInt64
  size : UInt64
  deriving DecidableEq

/-- The locals of `dtb_get_memory`. -/
structure MemoryScan where
  depth : Int
  inMemory : Bool
  rootAddressCells : UInt32
  rootSizeCells : UInt32

/-- The test of a `reg` property: it is too short, or the cells are too large. -/
def fdtRegInvalid (len addressCells sizeCells : UInt32) : Prop :=
  len < (addressCells + sizeCells) * 4 ∨ 2 < addressCells ∨ 2 < sizeCells

instance (len addressCells sizeCells : UInt32) : Decidable (fdtRegInvalid len addressCells sizeCells) := by
  unfold fdtRegInvalid; infer_instance

/-- The base and the size of a `reg` property. -/
def fdtReadReg (value : UInt64) (addressCells sizeCells : UInt32) : Reads (UInt64 × UInt64) := do
  let base ← fdtReadCells value addressCells.toNat 0
  let size ← fdtReadCells (value + 4 * addressCells.toUInt64) sizeCells.toNat 0
  return (base, size)

/-- What the function returns, with `none` for −1. -/
def dtbMemoryParser : FdtParser MemoryScan (Option DtbMemory) where
  beginNode name s := do
    let inMemory ← Reads.andThen (s.depth + 1 = 1) (fdtStartsWith name memoryName)
    return { s with depth := s.depth + 1, inMemory }
  endNode s :=
    .ok { s with
      inMemory := if s.inMemory ∧ s.depth = 1 then false else s.inMemory
      depth := s.depth - 1 }
  prop len name value s := do
    if (← Reads.andThen (s.depth = 0) (fdtStreq name addressCellsName)) && 4 ≤ len then
      let rootAddressCells ← fdtBe32 value
      return .ok { s with rootAddressCells }
    else if (← Reads.andThen (s.depth = 0) (fdtStreq name sizeCellsName)) && 4 ≤ len then
      let rootSizeCells ← fdtBe32 value
      return .ok { s with rootSizeCells }
    else if ← Reads.andThen s.inMemory (fdtStreq name regName) then
      if fdtRegInvalid len s.rootAddressCells s.rootSizeCells then return .error none
      let reg ← fdtReadReg value s.rootAddressCells s.rootSizeCells
      return .error (some ⟨reg.1, reg.2⟩)
    else return .ok s
  finish _ := none

/-- `dtb_get_memory`, with memory for its result. -/
def dtbGetMemory (fuel : Nat) (dtbAddr : UInt64) : Reads (Option (Option DtbMemory)) := do
  match ← fdtViewInit dtbAddr with
  | none => return some none
  | some view => fdtLoop dtbMemoryParser view.strings view.structEnd fuel view.cursor ⟨-1, false, 2, 1⟩

/-! ## `dtb_get_framebuffer` -/

/-- "framebuffer". -/
def framebufferName : List UInt8 := [102, 114, 97, 109, 101, 98, 117, 102, 102, 101, 114]

/-- "compatible". -/
def compatibleName : List UInt8 := [99, 111, 109, 112, 97, 116, 105, 98, 108, 101]

/-- "simple-framebuffer". -/
def simpleFramebufferName : List UInt8 :=
  [115, 105, 109, 112, 108, 101, 45, 102, 114, 97, 109, 101, 98, 117, 102, 102, 101, 114]

/-- "width". -/
def widthName : List UInt8 := [119, 105, 100, 116, 104]

/-- "height". -/
def heightName : List UInt8 := [104, 101, 105, 103, 104, 116]

/-- "stride". -/
def strideName : List UInt8 := [115, 116, 114, 105, 100, 101]

/-- `compatible_has` from the character `i` on, where a string starts at `start`. -/
def compatibleHas (value : UInt64) (needle : List UInt8) : (left : Nat) → (i start : UInt64) → Reads Bool
  | 0, _, _ => pure false
  | left + 1, i, start => do
    if (← byteAt (value + i)) = 0 then
      if ← fdtStreq (value + start) needle then return true else compatibleHas value needle left (i + 1) (i + 1)
    else compatibleHas value needle left (i + 1) start

structure DtbFramebuffer where
  base : UInt64
  size : UInt64
  width : UInt32
  height : UInt32
  strideBytes : UInt32

/-- The locals of `dtb_get_framebuffer`, and the result as far as it is written. -/
structure FramebufferScan where
  depth : Int
  inFramebuffer : Bool
  haveReg : Bool
  haveWidth : Bool
  haveHeight : Bool
  haveStride : Bool
  rootAddressCells : UInt32
  rootSizeCells : UInt32
  framebuffer : DtbFramebuffer

/-- The return value, and what is left in `*framebuffer`. -/
def dtbFramebufferParser : FdtParser FramebufferScan (Bool × DtbFramebuffer) where
  beginNode name s := do
    if s.depth + 1 = 1 then
      let inFramebuffer ← fdtStartsWith name framebufferName
      return { s with
        depth := s.depth + 1
        inFramebuffer
        haveReg := false
        haveWidth := false
        haveHeight := false
        haveStride := false }
    else return { s with depth := s.depth + 1 }
  endNode s :=
    if s.depth = 1 ∧ s.inFramebuffer ∧ s.haveReg ∧ s.haveWidth ∧ s.haveHeight ∧ s.haveStride then
      .error (true, s.framebuffer)
    else .ok { s with inFramebuffer := if s.depth = 1 then false else s.inFramebuffer, depth := s.depth - 1 }
  prop len name value s := do
    if (← Reads.andThen (s.depth = 0) (fdtStreq name addressCellsName)) && 4 ≤ len then
      let rootAddressCells ← fdtBe32 value
      return .ok { s with rootAddressCells }
    else if (← Reads.andThen (s.depth = 0) (fdtStreq name sizeCellsName)) && 4 ≤ len then
      let rootSizeCells ← fdtBe32 value
      return .ok { s with rootSizeCells }
    else if ← Reads.andThen (← Reads.andThen (s.depth = 1) (fdtStreq name compatibleName))
        (compatibleHas value simpleFramebufferName len.toNat 0 0) then
      return .ok { s with inFramebuffer := true }
    else if ← Reads.andThen (s.depth = 1 && s.inFramebuffer) (fdtStreq name regName) then
      if fdtRegInvalid len s.rootAddressCells s.rootSizeCells then return .error (false, s.framebuffer)
      let reg ← fdtReadReg value s.rootAddressCells s.rootSizeCells
      return .ok { s with framebuffer := { s.framebuffer with base := reg.1, size := reg.2 }, haveReg := true }
    else if (← Reads.andThen (s.depth = 1 && s.inFramebuffer) (fdtStreq name widthName)) && 4 ≤ len then
      let width ← fdtBe32 value
      return .ok { s with framebuffer := { s.framebuffer with width }, haveWidth := true }
    else if (← Reads.andThen (s.depth = 1 && s.inFramebuffer) (fdtStreq name heightName)) && 4 ≤ len then
      let height ← fdtBe32 value
      return .ok { s with framebuffer := { s.framebuffer with height }, haveHeight := true }
    else if (← Reads.andThen (s.depth = 1 && s.inFramebuffer) (fdtStreq name strideName)) && 4 ≤ len then
      let strideBytes ← fdtBe32 value
      return .ok { s with framebuffer := { s.framebuffer with strideBytes }, haveStride := true }
    else return .ok s
  finish s := (false, s.framebuffer)

/-- `dtb_get_framebuffer`, with memory for its result. -/
def dtbGetFramebuffer (fuel : Nat) (dtbAddr : UInt64) (framebuffer : DtbFramebuffer) :
    Reads (Option (Bool × DtbFramebuffer)) := do
  match ← fdtViewInit dtbAddr with
  | none => return some (false, framebuffer)
  | some view =>
    fdtLoop dtbFramebufferParser view.strings view.structEnd fuel view.cursor
      ⟨-1, false, false, false, false, false, 2, 1, framebuffer⟩

end Armonios
