import Armonios.Lib.Tree
import Armonios.Mm.Pmm

/-!
# Page tables

The model of `kernel/mm/vmm.c`. A page table is a tree of four levels of tables; each table is a page
of the physical allocator, 512 words long. `Vm` has the allocator and the words of the pages that are
tables: `mem t i` is `t[i]`. What programs keep in their pages is not in it.

Addresses and descriptors are `Nat`. The functions check their sums against `UINT64_MAX` as the source
does; where the source lets a sum wrap, the model takes it modulo `2 ^ 64`. A function that returns -1
(or a null table) throws.
-/

namespace Armonios

def vmmFlagRead : Nat := 1
def vmmFlagWrite : Nat := 2
def vmmFlagExec : Nat := 4
def vmmFlagDevice : Nat := 8
def vmmFlagUser : Nat := 16

def descValid : Nat := 1
def descTable : Nat := 2
def descPage : Nat := 2
def descAf : Nat := 2 ^ 10
def descShInner : Nat := 3 * 2 ^ 8
def descApRo : Nat := 2 ^ 7
def descApUser : Nat := 2 ^ 6
def descUxn : Nat := 2 ^ 54
def descPxn : Nat := 2 ^ 53
def descAttrNormal : Nat := 0
def descAttrDevice : Nat := 2 ^ 2
def descAddrMask : Nat := 0x0000fffffffff000

/-- The words of the tables. -/
abbrev TableMem := Nat → Fin 512 → Nat

structure Vm where
  pmm : Pmm
  mem : TableMem

abbrev VmM := EStateM Unit Vm

/-- A function of the allocator. -/
def onPmm {α : Type} (f : Pmm → α × Pmm) : VmM α := fun v => .ok (f v.pmm).1 { v with pmm := (f v.pmm).2 }

theorem wp_onPmm {α : Type} {f : Pmm → α × Pmm} {v : Vm} {Q : α → Vm → Prop} {E : Unit → Vm → Prop} :
    Wp (onPmm f) v Q E ↔ Q (f v.pmm).1 { v with pmm := (f v.pmm).2 } := Iff.rfl

/-- `value & ~(PAGE_SIZE - 1)`. -/
def pageAlignDown (value : Nat) : Nat := value / pageSize * pageSize

/-- `(value + PAGE_SIZE - 1) & ~(PAGE_SIZE - 1)`. -/
def pageAlignUp (value : Nat) : Nat := (value + pageSize - 1) % 2 ^ 64 / pageSize * pageSize

def pageSpan (offset size : Nat) : Option Nat :=
  if size = 0 ∨ pageSize ≤ offset then none
  else if size > uint64Max - offset then none
  else if (offset + size) % pageSize ≠ 0 ∧ offset + size > uint64Max - (pageSize - 1) then none
  else some (pageAlignUp (offset + size))

/-- `(vaddr >> (39 - level * 9)) & 0x1ff`. -/
def tableIndex (vaddr level : Nat) : Fin 512 := Fin.ofNat 512 (vaddr / 2 ^ (39 - level * 9))

def zeroTable (table : Nat) (mem : TableMem) : TableMem := Function.update mem table fun _ => 0

/-- `table[index] = entry`. -/
def setEntry (table : Nat) (index : Fin 512) (entry : Nat) (mem : TableMem) : TableMem :=
  Function.update mem table (Function.update (mem table) index entry)

def vmmNewTable : VmM Nat := do
  let paddr ← onPmm pmmAllocPage
  if paddr = 0 then throw ()
  modify fun v => { v with mem := zeroTable paddr v.mem }
  return paddr

/-- The table that an entry of a table points to. -/
def entryTable (entry : Nat) : Option Nat :=
  if entry &&& descValid ≠ 0 ∧ entry &&& descTable ≠ 0 then some (entry &&& descAddrMask) else none

/-- The tree of the tables. -/
def tableChild (mem : TableMem) (table : Nat) (index : Fin 512) : Option Nat := entryTable (mem table index)

/-- `free_table_level(table, 3 - depth)`. -/
def freeTableLevel (mem : TableMem) : (depth table : Nat) → Pmm → Pmm
  | 0, table, pmm => if table = 0 then pmm else pmmFreePage table pmm
  | depth + 1, table, pmm =>
    if table = 0 then pmm
    else pmmFreePage table ((List.finRange 512).foldl (fun pmm i => match tableChild mem table i with
      | some child => freeTableLevel mem depth child pmm
      | none => pmm) pmm)

def vmmFreeTable (pgd : Nat) (v : Vm) : Vm := { v with pmm := freeTableLevel v.mem 3 pgd v.pmm }

def nextTable (table : Nat) (index : Fin 512) : VmM Nat := do
  let entry := (← get).mem table index
  if entry &&& descValid ≠ 0 then
    if entry &&& descTable = 0 then throw ()
    return entry &&& descAddrMask
  else
    let child ← vmmNewTable
    modify fun v =>
      { v with mem := setEntry table index ((child &&& descAddrMask) ||| descValid ||| descTable) v.mem }
    return child

def pageDescriptor (paddr flags : Nat) : Nat :=
  let descriptor := (paddr &&& descAddrMask) ||| descValid ||| descPage ||| descAf
  let descriptor := descriptor ||| (if flags &&& vmmFlagDevice ≠ 0 then descAttrDevice ||| descUxn ||| descPxn
    else descAttrNormal ||| descShInner)
  let descriptor := descriptor ||| (if flags &&& vmmFlagWrite = 0 then descApRo else 0)
  let descriptor := descriptor ||| (if flags &&& vmmFlagUser ≠ 0 then descApUser else 0)
  descriptor ||| (if flags &&& vmmFlagExec = 0 then descUxn ||| descPxn
    else if flags &&& vmmFlagUser ≠ 0 then 0 else descUxn)

def vmmMapPage (pgd vaddr paddr flags : Nat) : VmM Unit := do
  if pgd = 0 ∨ vaddr % pageSize ≠ 0 ∨ paddr % pageSize ≠ 0 then throw ()
  let level1 ← nextTable pgd (tableIndex vaddr 0)
  let level2 ← nextTable level1 (tableIndex vaddr 1)
  let level3 ← nextTable level2 (tableIndex vaddr 2)
  let index3 := tableIndex vaddr 3
  if (← get).mem level3 index3 &&& descValid ≠ 0 then throw ()
  modify fun v => { v with mem := setEntry level3 index3 (pageDescriptor paddr flags) v.mem }

/-- The indices of the levels above the leaf. -/
def tablePath (vaddr : Nat) : List (Fin 512) := [tableIndex vaddr 0, tableIndex vaddr 1, tableIndex vaddr 2]

/-- The table of the last level; the loop of `leaf_table` is the walk along the path. -/
def leafTable (mem : TableMem) (pgd vaddr : Nat) : Option Nat :=
  if pgd = 0 then none else nodeAt (tableChild mem) pgd (tablePath vaddr)

def vmmUnmapPage (pgd vaddr : Nat) : VmM Unit := do
  if pgd = 0 ∨ vaddr % pageSize ≠ 0 then throw ()
  match leafTable (← get).mem pgd vaddr with
  | none => throw ()
  | some level3 =>
    let index3 := tableIndex vaddr 3
    if (← get).mem level3 index3 &&& descValid = 0 then throw ()
    modify fun v => { v with mem := setEntry level3 index3 0 v.mem }

/-- The undo loop of `vmm_map_range`: the first `count` pages are unmapped, whatever that returns. -/
def rollback (pgd vaddr : Nat) : (count : Nat) → VmM Unit
  | 0 => pure ()
  | count + 1 => do
    rollback pgd vaddr count
    let _ ← attempt (fun _ => true) (vmmUnmapPage pgd (vaddr + count * pageSize))

/-- The loop of `vmm_map_range` with `done` pages mapped and `left` to go. -/
def mapPages (pgd vaddr paddr flags : Nat) : (left done : Nat) → VmM Unit
  | 0, _ => pure ()
  | left + 1, done => do
    match ← attempt (fun _ => true)
        (vmmMapPage pgd (vaddr + done * pageSize) (paddr + done * pageSize) flags) with
    | some () => mapPages pgd vaddr paddr flags left (done + 1)
    | none =>
      rollback pgd vaddr done
      throw ()

def vmmMapRange (pgd vaddr paddr size flags : Nat) : VmM Unit := do
  if pgd = 0 ∨ vaddr % pageSize ≠ paddr % pageSize then throw ()
  if size = 0 then return ()
  let alignedVaddr := pageAlignDown vaddr
  let alignedPaddr := pageAlignDown paddr
  match pageSpan (vaddr - alignedVaddr) size with
  | none => throw ()
  | some span =>
    if alignedVaddr > uint64Max - span ∨ alignedPaddr > uint64Max - span then throw ()
    mapPages pgd alignedVaddr alignedPaddr flags (span / pageSize) 0

/-- The loop of `vmm_unmap_range`. -/
def unmapPages (pgd vaddr : Nat) : (left done : Nat) → VmM Unit
  | 0, _ => pure ()
  | left + 1, done => do
    vmmUnmapPage pgd (vaddr + done * pageSize)
    unmapPages pgd vaddr left (done + 1)

def vmmUnmapRange (pgd vaddr size : Nat) : VmM Unit := do
  if pgd = 0 then throw ()
  if size = 0 then return ()
  let alignedVaddr := pageAlignDown vaddr
  match pageSpan (vaddr - alignedVaddr) size with
  | none => throw ()
  | some span =>
    if alignedVaddr > uint64Max - span then throw ()
    unmapPages pgd alignedVaddr (span / pageSize) 0

/-- Returns 0 where there is no table. -/
def vmmLeafEntry (mem : TableMem) (pgd vaddr : Nat) : Nat :=
  match leafTable mem pgd vaddr with
  | none => 0
  | some table => mem table (tableIndex vaddr 3)

def vmmVirtToPhys (mem : TableMem) (pgd vaddr : Nat) : Nat :=
  let entry := vmmLeafEntry mem pgd vaddr
  if entry &&& descValid = 0 ∨ entry &&& descPage = 0 then 0
  else (entry &&& descAddrMask) ||| vaddr % pageSize

end Armonios
