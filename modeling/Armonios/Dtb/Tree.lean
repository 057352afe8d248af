import Armonios.Dtb.Inside
import Armonios.Lib.BigEndian

/-!
# Device trees and their blobs

A device tree as a tree, and what it is for a blob in memory to be its flattening. The memory of a tree is the first
pair of `reg` of the first child of the root that is called "memory" (`dtMemory`).
-/

namespace Armonios

/-! ## Trees -/

structure DtProp where
  name : List UInt8
  value : List UInt8
  deriving DecidableEq

/-- The children of a node, one after the other. -/
inductive DtNodes where
  | nil
  | node (name : List UInt8) (props : List DtProp) (children siblings : DtNodes)

structure DtTree where
  name : List UInt8
  props : List DtProp
  children : DtNodes

def dtProp (name : List UInt8) (props : List DtProp) : Option (List UInt8) :=
  (props.find? fun p => p.name = name).map DtProp.value

/-- The value of the first child with such a name that has a `reg` property. -/
def DtNodes.reg (named : List UInt8 → Bool) : DtNodes → Option (List UInt8)
  | .nil => none
  | .node name props _ siblings =>
    match dtProp regName props with
    | some value => if named name then some value else siblings.reg named
    | none => siblings.reg named

/-- The name without unit address is "memory". -/
def isMemory (name : List UInt8) : Bool := name.takeWhile (· ≠ 64) = memoryName

/-- The first address and size in a `reg` property. -/
def regPair (addressCells sizeCells : Nat) (value : List UInt8) : DtbMemory where
  base := UInt64.ofNat (beNumber (value.take (4 * addressCells)))
  size := UInt64.ofNat (beNumber ((value.drop (4 * addressCells)).take (4 * sizeCells)))

def dtMemory (addressCells sizeCells : Nat) (tree : DtTree) : Option DtbMemory :=
  (tree.children.reg isMemory).map (regPair addressCells sizeCells)

/-- Every `reg` of these nodes has one pair or more. -/
def DtNodes.RegsWhole (addressCells sizeCells : Nat) : DtNodes → Prop
  | .nil => True
  | .node _ props _ siblings =>
    (∀ p ∈ props, p.name = regName → 0 < p.value.length ∧ 4 * (addressCells + sizeCells) ∣ p.value.length) ∧
      siblings.RegsWhole addressCells sizeCells

/-- The root says how many cells there are, and the children keep to it. -/
structure DtTree.WellFormed (tree : DtTree) (addressCells sizeCells : Nat) : Prop where
  addressRange : 1 ≤ addressCells ∧ addressCells ≤ 2
  sizeRange : 1 ≤ sizeCells ∧ sizeCells ≤ 2
  names : (tree.props.map DtProp.name).Nodup
  address : ∃ value, ⟨addressCellsName, value⟩ ∈ tree.props ∧ value.length = 4 ∧ beNumber value = addressCells
  size : ∃ value, ⟨sizeCellsName, value⟩ ∈ tree.props ∧ value.length = 4 ∧ beNumber value = sizeCells
  regs : tree.children.RegsWhole addressCells sizeCells

/-! ## Tokens -/

inductive FdtToken where
  | beginNode (name : List UInt8)
  | endNode
  | prop (p : DtProp)
  | nop

def FdtToken.isNop : FdtToken → Bool
  | .nop => true
  | _ => false

def DtNodes.tokens : DtNodes → List FdtToken
  | .nil => []
  | .node name props children siblings =>
    .beginNode name :: (props.map .prop ++ (children.tokens ++ .endNode :: siblings.tokens))

def DtTree.tokens (tree : DtTree) : List FdtToken :=
  .beginNode tree.name :: (tree.props.map .prop ++ (tree.children.tokens ++ [.endNode]))

/-! ## Blobs -/

/-- A length, filled up to a multiple of 4. -/
def padded (n : Nat) : UInt64 := UInt64.ofNat ((n + 3) / 4 * 4)

/-- A string of the blob, without its NUL. -/
def StringAt (mem : Nat → UInt8) (a : UInt64) (str : List UInt8) : Prop := NameIs mem a str ∧ 0 ∉ str

/-- The tokens from `cursor` on, with `FDT_END` after them, in front of `structEnd`. -/
def TokensAt (mem : Nat → UInt8) (strings structEnd : UInt64) : List FdtToken → (cursor : UInt64) → Prop
  | [], cursor => cursor < structEnd ∧ wordAt mem cursor = fdtEnd
  | .beginNode name :: tokens, cursor =>
    cursor < structEnd ∧ wordAt mem cursor = fdtBeginNode ∧ StringAt mem (cursor + 4) name ∧
      TokensAt mem strings structEnd tokens (cursor + 4 + padded (name.length + 1))
  | .endNode :: tokens, cursor =>
    cursor < structEnd ∧ wordAt mem cursor = fdtEndNode ∧ TokensAt mem strings structEnd tokens (cursor + 4)
  | .prop p :: tokens, cursor =>
    cursor < structEnd ∧ wordAt mem cursor = fdtProp ∧ (wordAt mem (cursor + 4)).toNat = p.value.length ∧
      StringAt mem (strings + (wordAt mem (cursor + 8)).toUInt64) p.name ∧
      AgreesFor mem (cursor + 12) p.value p.value.length ∧
      TokensAt mem strings structEnd tokens (cursor + 12 + padded p.value.length)
  | .nop :: tokens, cursor =>
    cursor < structEnd ∧ wordAt mem cursor = fdtNop ∧ TokensAt mem strings structEnd tokens (cursor + 4)

section Decidable

variable (mem : Nat → UInt8)

instance (a : UInt64) (str : List UInt8) : Decidable (StringAt mem a str) := by unfold StringAt; infer_instance

instance decidableTokensAt (strings structEnd : UInt64) :
    (tokens : List FdtToken) → (cursor : UInt64) → Decidable (TokensAt mem strings structEnd tokens cursor)
  | [], _ => inferInstanceAs (Decidable (_ ∧ _))
  | .beginNode _ :: tokens, _ =>
    have := decidableTokensAt strings structEnd tokens
    inferInstanceAs (Decidable (_ ∧ _ ∧ _ ∧ _))
  | .endNode :: tokens, _ =>
    have := decidableTokensAt strings structEnd tokens
    inferInstanceAs (Decidable (_ ∧ _ ∧ _))
  | .prop _ :: tokens, _ =>
    have := decidableTokensAt strings structEnd tokens
    inferInstanceAs (Decidable (_ ∧ _ ∧ _ ∧ _ ∧ _ ∧ _))
  | .nop :: tokens, _ =>
    have := decidableTokensAt strings structEnd tokens
    inferInstanceAs (Decidable (_ ∧ _ ∧ _))

end Decidable

/-- The blob at `dtbAddr` is the tree, flattened: NOPs may be anywhere among the tokens. -/
structure Flattened (mem : Nat → UInt8) (dtbAddr : UInt64) (tree : DtTree) : Prop where
  aligned : dtbAddr.toNat % 4 = 0 ∧ (wordAt mem (dtbAddr + 8)).toNat % 4 = 0
  tokens : ∃ view tokens, HeaderAccepted mem dtbAddr view ∧ tokens.filter (!·.isNop) = tree.tokens ∧
    TokensAt mem view.strings view.structEnd tokens view.cursor

end Armonios
