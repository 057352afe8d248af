import Armonios.Mm.Pmm

/-!
# The kernel heap

The model of `kernel/mm/kheap.c`. Memory is a word of 64 bits for every address that is a multiple of 8; a pointer is an
address, with 0 for `NULL`. The header of a block is five words at the block's address, so a header that is written in
the wrong place overwrites what is there.

The walks over the list have fuel; `none` if it runs out. Arena ids are `Nat`: an arena has a page of its own and is never
given back, so there are fewer than `2 ^ 52` of them.
-/

namespace Armonios

abbrev Words := Nat → Nat

def kheapAlign : Nat := 16
def kheapMinSplit : Nat := 32

/-- The globals, memory, and the allocator below. -/
structure Kheap where
  mem : Words
  head : Nat
  tail : Nat
  totalBytes : Nat
  nextArenaId : Nat
  pmm : Pmm

/-! ## The fields of a block -/

def blockSize (mem : Words) (block : Nat) : Nat := mem block
def blockFree (mem : Words) (block : Nat) : Nat := mem (block + 8)
def blockNext (mem : Words) (block : Nat) : Nat := mem (block + 16)
def blockPrev (mem : Words) (block : Nat) : Nat := mem (block + 24)
def blockArena (mem : Words) (block : Nat) : Nat := mem (block + 32)

/-- `*addr = value`. -/
def Kheap.store (addr value : Nat) (h : Kheap) : Kheap := { h with mem := Function.update h.mem addr value }

def Kheap.setSize (block : Nat) : Nat → Kheap → Kheap := Kheap.store block
def Kheap.setFree (block : Nat) : Nat → Kheap → Kheap := Kheap.store (block + 8)
def Kheap.setNext (block : Nat) : Nat → Kheap → Kheap := Kheap.store (block + 16)
def Kheap.setPrev (block : Nat) : Nat → Kheap → Kheap := Kheap.store (block + 24)
def Kheap.setArena (block : Nat) : Nat → Kheap → Kheap := Kheap.store (block + 32)

/-! ## The functions -/

/-- `align_up` of `kheap.c`. -/
def kheapAlignUp (value : Nat) : Nat := (value + kheapAlign - 1) % 2 ^ 64 / kheapAlign * kheapAlign

/-- `align_up(sizeof(heap_block_t))`: five words, tiled up. -/
def headerSize : Nat := kheapAlignUp 40

def pageCountForPayload (payloadSize : Nat) : Nat :=
  if payloadSize > uint64Max - headerSize then 0
  else
    let needed := headerSize + payloadSize
    if needed > uint64Max - (pageSize - 1) then 0 else (needed + pageSize - 1) / pageSize

def blockPayloadCapacity (pageCount : Nat) : Nat := pageCount * pageSize - headerSize

def blocksAreAdjacent (mem : Words) (left right : Nat) : Bool := left + headerSize + blockSize mem left = right

def blocksCanCoalesce (mem : Words) (left right : Nat) : Bool :=
  left ≠ 0 && right ≠ 0 && blockFree mem right ≠ 0 && blockArena mem left = blockArena mem right &&
    blocksAreAdjacent mem left right

def appendBlock (block : Nat) (h : Kheap) : Kheap :=
  let h := h.setNext block 0
  let h := h.setPrev block h.tail
  let h := if h.tail ≠ 0 then h.setNext h.tail block else { h with head := block }
  { h with tail := block }

/-- The new block, 0 if there is none. -/
def extendHeap (minPayloadSize : Nat) (h : Kheap) : Nat × Kheap :=
  let pages := pageCountForPayload minPayloadSize
  if pages = 0 then (0, h)
  else
    let addr := (pmmAllocPages pages h.pmm).1
    let h := { h with pmm := (pmmAllocPages pages h.pmm).2 }
    if addr = 0 then (0, h)
    else
      let h := h.setSize addr (blockPayloadCapacity pages)
      let h := h.setFree addr 1
      let h := h.setArena addr h.nextArenaId
      let h := { h with nextArenaId := h.nextArenaId + 1 }
      let h := appendBlock addr h
      (addr, { h with totalBytes := h.totalBytes + blockSize h.mem addr })

def splitBlock (block size : Nat) (h : Kheap) : Kheap :=
  if blockSize h.mem block < (size + headerSize + kheapMinSplit) % 2 ^ 64 then h
  else
    let next := block + headerSize + size
    let h := h.setSize next (blockSize h.mem block - size - headerSize)
    let h := h.setFree next 1
    let h := h.setArena next (blockArena h.mem block)
    let h := h.setPrev next block
    let h := h.setNext next (blockNext h.mem block)
    let h := if blockNext h.mem block ≠ 0 then h.setPrev (blockNext h.mem block) next else { h with tail := next }
    let h := h.setNext block next
    h.setSize block size

def coalesceNext (block : Nat) (h : Kheap) : Kheap :=
  let next := blockNext h.mem block
  if blocksCanCoalesce h.mem block next then
    let h := h.setSize block (blockSize h.mem block + (headerSize + blockSize h.mem next))
    let h := h.setNext block (blockNext h.mem next)
    if blockNext h.mem next ≠ 0 then h.setPrev (blockNext h.mem next) block else { h with tail := block }
  else h

def kheapInit (h : Kheap) : Kheap := if h.head ≠ 0 then h else (extendHeap 1 h).2

/-- The loop of `kmalloc` from a block on: the first block that fits, 0 if there is none. -/
def findFit (mem : Words) (alignedSize : Nat) : (fuel : Nat) → (block : Nat) → Option Nat
  | 0, _ => none
  | fuel + 1, block =>
    if block = 0 then some 0
    else if blockFree mem block ≠ 0 ∧ alignedSize ≤ blockSize mem block then some block
    else findFit mem alignedSize fuel (blockNext mem block)

/-- The pointer, 0 for `NULL`. -/
def kmalloc (fuel size : Nat) (h : Kheap) : Option (Nat × Kheap) :=
  if size = 0 ∨ size > uint64Max - (kheapAlign - 1) then some (0, h)
  else
    let alignedSize := kheapAlignUp size
    let h := if h.head = 0 then kheapInit h else h
    match findFit h.mem alignedSize fuel h.head with
    | none => none
    | some 0 =>
      let block := (extendHeap alignedSize h).1
      let h := (extendHeap alignedSize h).2
      if block = 0 then some (0, h) else some (block + headerSize, (splitBlock block alignedSize h).setFree block 0)
    | some block => some (block + headerSize, (splitBlock block alignedSize h).setFree block 0)

def kfree (ptr : Nat) (h : Kheap) : Kheap :=
  if ptr = 0 then h
  else
    let block := ptr - headerSize
    if blockFree h.mem block ≠ 0 then h
    else
      let h := h.setFree block 1
      let h := coalesceNext block h
      if blockPrev h.mem block ≠ 0 ∧ blockFree h.mem (blockPrev h.mem block) ≠ 0 then
        coalesceNext (blockPrev h.mem block) h
      else h

/-- The loop of `kheap_free_bytes` from a block on. -/
def freeBytesFrom (mem : Words) : (fuel : Nat) → (block : Nat) → Option Nat
  | 0, _ => none
  | fuel + 1, block =>
    if block = 0 then some 0
    else (freeBytesFrom mem fuel (blockNext mem block)).map fun rest =>
      (if blockFree mem block ≠ 0 then blockSize mem block else 0) + rest

def kheapFreeBytes (fuel : Nat) (h : Kheap) : Option Nat := freeBytesFrom h.mem fuel h.head

def kheapTotalBytes (h : Kheap) : Nat := h.totalBytes

end Armonios
