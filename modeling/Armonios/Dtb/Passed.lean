import Armonios.Dtb.Inside

/-!
# The tokens that a reader has passed

The depth, the flags and the cells of the two readers as functions of the tokens (`depthAfter`, `InMemoryNode`,
`InFramebufferNode`, `HasField`, `cellsAfter`). A reader says with them where it returns and what of a property must be
inside, and the handlers of the code follow it (`Follows`).
-/

namespace Armonios

open Reads

/-- A token, with what a reader takes from it: where the name of the node is; the length of the property, where its name
and its value are. -/
inductive FdtPassed where
  | beginNode (name : UInt64)
  | endNode
  | prop (len : UInt32) (name value : UInt64)

/-! ## What the tokens say, the last one first -/

/-- 0 in the root, 1 in its children. -/
def depthAfter : List FdtPassed → Int
  | [] => -1
  | .beginNode _ :: passed => depthAfter passed + 1
  | .endNode :: passed => depthAfter passed - 1
  | .prop _ _ _ :: passed => depthAfter passed

section Passed

variable (mem : Nat → UInt8)

/-- The last such property of the root that has a cell, or `cells`. -/
def cellsAfter (str : List UInt8) (cells : UInt32) : List FdtPassed → UInt32
  | [] => cells
  | .beginNode _ :: passed => cellsAfter str cells passed
  | .endNode :: passed => cellsAfter str cells passed
  | .prop len name value :: passed =>
    if depthAfter passed = 0 ∧ NameIs mem name str ∧ 4 ≤ len then wordAt mem value else cellsAfter str cells passed

def addressCellsAfter (passed : List FdtPassed) : UInt32 := cellsAfter mem addressCellsName 2 passed

def sizeCellsAfter (passed : List FdtPassed) : UInt32 := cellsAfter mem sizeCellsName 1 passed

/-- Only properties have come since a child of the root began whose name starts with "memory". -/
def InMemoryNode : List FdtPassed → Prop
  | [] => False
  | .beginNode name :: passed => depthAfter passed = 0 ∧ AgreesFor mem name memoryName memoryName.length
  | .endNode :: _ => False
  | .prop _ _ _ :: passed => InMemoryNode passed

/-- The child of the root is a framebuffer, by its name or by its `compatible`. -/
def InFramebufferNode : List FdtPassed → Prop
  | [] => False
  | .beginNode name :: passed =>
    (depthAfter passed = 0 → AgreesFor mem name framebufferName framebufferName.length) ∧
      (depthAfter passed ≠ 0 → InFramebufferNode passed)
  | .endNode :: passed => depthAfter passed ≠ 1 ∧ InFramebufferNode passed
  | .prop len name value :: passed =>
    (depthAfter passed = 1 ∧ NameIs mem name compatibleName ∧ ListHas mem value simpleFramebufferName len.toNat) ∨
      InFramebufferNode passed

/-- The framebuffer node has had such a property, of `least` bytes or more. -/
def HasField (str : List UInt8) (least : UInt32) : List FdtPassed → Prop
  | [] => False
  | .beginNode _ :: passed => depthAfter passed ≠ 0 ∧ HasField str least passed
  | .endNode :: passed => HasField str least passed
  | .prop len name _ :: passed =>
    ((depthAfter passed = 1 ∧ InFramebufferNode mem passed) ∧ NameIs mem name str ∧ least ≤ len) ∨
      HasField str least passed

variable {mem}

section Token

variable (len : UInt32) (name value : UInt64) (passed : List FdtPassed)

@[simp] theorem depthAfter_prop : depthAfter (.prop len name value :: passed) = depthAfter passed := rfl

@[simp] theorem addressCellsAfter_prop : addressCellsAfter mem (.prop len name value :: passed) =
    if depthAfter passed = 0 ∧ NameIs mem name addressCellsName ∧ 4 ≤ len then wordAt mem value
    else addressCellsAfter mem passed := rfl

@[simp] theorem sizeCellsAfter_prop : sizeCellsAfter mem (.prop len name value :: passed) =
    if depthAfter passed = 0 ∧ NameIs mem name sizeCellsName ∧ 4 ≤ len then wordAt mem value
    else sizeCellsAfter mem passed := rfl

@[simp] theorem inMemoryNode_prop :
    InMemoryNode mem (.prop len name value :: passed) ↔ InMemoryNode mem passed := Iff.rfl

@[simp] theorem inFramebufferNode_prop : InFramebufferNode mem (.prop len name value :: passed) ↔
    (depthAfter passed = 1 ∧ NameIs mem name compatibleName ∧ ListHas mem value simpleFramebufferName len.toNat) ∨
      InFramebufferNode mem passed := Iff.rfl

@[simp] theorem hasField_prop (str : List UInt8) (least : UInt32) :
    HasField mem str least (.prop len name value :: passed) ↔
      ((depthAfter passed = 1 ∧ InFramebufferNode mem passed) ∧ NameIs mem name str ∧ least ≤ len) ∨
        HasField mem str least passed := Iff.rfl

end Token

theorem InMemoryNode.depth {passed : List FdtPassed} (h : InMemoryNode mem passed) : depthAfter passed = 1 := by
  induction passed with
  | nil => exact h.elim
  | cons token passed ih =>
    cases token with
    | beginNode name => rw [depthAfter, h.1, Int.zero_add]
    | endNode => exact h.elim
    | prop len name value => exact ih h

/-- The names of properties that the readers look for. -/
def fdtNames : List (List UInt8) :=
  [addressCellsName, sizeCellsName, compatibleName, regName, widthName, heightName, strideName]

/-- A name that is one of them is no other. -/
theorem only_name {name : UInt64} {str : List UInt8} (hstr : str ∈ fdtNames) (h : NameIs mem name str) :
    (NameIs mem name addressCellsName ↔ str = addressCellsName) ∧
      (NameIs mem name sizeCellsName ↔ str = sizeCellsName) ∧
      (NameIs mem name compatibleName ↔ str = compatibleName) ∧ (NameIs mem name regName ↔ str = regName) ∧
      (NameIs mem name widthName ↔ str = widthName) ∧ (NameIs mem name heightName ↔ str = heightName) ∧
      (NameIs mem name strideName ↔ str = strideName) := by
  have hnul : ∀ b ∈ fdtNames, 0 ∉ b := by decide
  have hother : ∀ str' ∈ fdtNames, NameIs mem name str' ↔ str = str' := by
    intro str' hstr'
    constructor
    · intro h'
      exact h.unique h' (hnul str hstr) (hnul str' hstr')
    · rintro rfl
      exact h
  simpa [fdtNames] using hother

end Passed

/-! ## Readers -/

/-- Where a reader returns, and what of a property it reads, after the tokens passed. -/
structure FdtReader where
  EndsAtNode : (passed : List FdtPassed) → Prop
  EndsAtProp : (len : UInt32) → (name value : UInt64) → (passed : List FdtPassed) → Prop
  PropInside : (len : UInt32) → (name value : UInt64) → (passed : List FdtPassed) → Prop

/-- A handler returns where `Ends` holds, and goes on in a state that is so where it does not. -/
def Handles {σ α : Type} (Ends : Prop) (After : σ → Prop) : Except α σ → Prop
  | .ok s => ¬Ends ∧ After s
  | .error _ => Ends

/-- The handlers do what the reader says, where `After passed s` says that the tokens passed leave `s`. -/
structure Follows {σ α : Type} (mem : Nat → UInt8) (P : UInt64 → Prop) (parser : FdtParser σ α) (reader : FdtReader)
    (After : List FdtPassed → σ → Prop) : Prop where
  beginNode {passed s} (name : UInt64) (h : After passed s) :
    After (.beginNode name :: passed) (run mem (parser.beginNode name s))
  endNode {passed s} (h : After passed s) :
    Handles (reader.EndsAtNode passed) (After (.endNode :: passed)) (parser.endNode s)
  prop {passed s} (len : UInt32) (name value : UInt64) (h : After passed s) :
    Handles (reader.EndsAtProp len name value passed) (After (.prop len name value :: passed))
      (run mem (parser.prop len name value s))
  nameInside {name n} (h : NameInside mem P name n) (s : σ) : Inside mem P (parser.beginNode name s)
  propInside {passed s} (len : UInt32) (name value : UInt64) (h : After passed s) :
    Inside mem P (parser.prop len name value s) ↔ reader.PropInside len name value passed

/-! ## `dtb_get_memory` -/

section Memory

variable (mem : Nat → UInt8) (P : UInt64 → Prop)

def MemoryPropInside (len : UInt32) (name value : UInt64) (passed : List FdtPassed) : Prop :=
  TestInside mem P (depthAfter passed = 0) name addressCellsName (4 ≤ len) (WordInside P value) <|
  TestInside mem P (depthAfter passed = 0) name sizeCellsName (4 ≤ len) (WordInside P value) <|
  TestInside mem P (InMemoryNode mem passed) name regName True
    (fdtRegInvalid len (addressCellsAfter mem passed) (sizeCellsAfter mem passed) ∨
      RegInside P value (addressCellsAfter mem passed) (sizeCellsAfter mem passed)) True

/-- It returns at the first `reg` of a memory node. -/
def memoryReader : FdtReader where
  EndsAtNode _ := False
  EndsAtProp _ name _ passed := InMemoryNode mem passed ∧ NameIs mem name regName
  PropInside := MemoryPropInside mem P

/-- The locals after the tokens. -/
structure MemoryScan.After (passed : List FdtPassed) (s : MemoryScan) : Prop where
  depth : s.depth = depthAfter passed
  inMemory : s.inMemory = true ↔ InMemoryNode mem passed
  addressCells : s.rootAddressCells = addressCellsAfter mem passed
  sizeCells : s.rootSizeCells = sizeCellsAfter mem passed

variable {mem P} {passed : List FdtPassed} {s : MemoryScan}

theorem MemoryScan.After.root (h : s.After mem passed) : decide (s.depth = 0) = true ↔ depthAfter passed = 0 := by
  rw [decide_eq_true_iff, h.depth]

theorem MemoryScan.After.beginNode (name : UInt64) (h : s.After mem passed) :
    (run mem (dtbMemoryParser.beginNode name s)).After mem (.beginNode name :: passed) where
  depth := by simp [dtbMemoryParser, depthAfter, h.depth]
  inMemory := by
    have hdepth : depthAfter passed + 1 = 1 ↔ depthAfter passed = 0 := by omega
    simp only [dtbMemoryParser, InMemoryNode, run_bind, run_andThen, run_pure, Bool.and_eq_true, decide_eq_true_iff,
      h.depth, run_fdtStartsWith, hdepth]
  addressCells := by simpa [dtbMemoryParser, addressCellsAfter, cellsAfter] using h.addressCells
  sizeCells := by simpa [dtbMemoryParser, sizeCellsAfter, cellsAfter] using h.sizeCells

/-- The flag is cleared at the end of the node that it is for, and it is not set at any other end. -/
theorem MemoryScan.After.endNode (h : s.After mem passed) :
    Handles False (MemoryScan.After mem (.endNode :: passed)) (dtbMemoryParser.endNode s) := by
  refine ⟨not_false, ?_, ?_, h.addressCells, h.sizeCells⟩
  · simp [depthAfter, h.depth]
  · have hdepth : s.inMemory = true → s.depth = 1 := fun hin => by rw [h.depth, (h.inMemory.mp hin).depth]
    simp only [InMemoryNode, iff_false, Bool.not_eq_true]
    split
    next => rfl
    next hnot => exact Bool.eq_false_iff.mpr fun hin => hnot ⟨hin, hdepth hin⟩

theorem MemoryScan.After.prop (len : UInt32) (name value : UInt64) (h : s.After mem passed) :
    Handles (InMemoryNode mem passed ∧ NameIs mem name regName) (MemoryScan.After mem (.prop len name value :: passed))
      (run mem (dtbMemoryParser.prop len name value s)) := by
  dsimp only [dtbMemoryParser]
  by_cases haddress : depthAfter passed = 0 ∧ NameIs mem name addressCellsName ∧ 4 ≤ len
  · have honly := only_name (by decide) haddress.2.1
    rw [run_nameTest h.root _ _ haddress, run_bind, run_fdtBe32, run_pure]
    refine ⟨by simp +decide [honly], h.depth, h.inMemory, ?_, ?_⟩
    · simp [haddress]
    · simp +decide [honly, h.sizeCells]
  rw [run_nameTest_not h.root _ _ haddress]
  have haddressCells : s.rootAddressCells = addressCellsAfter mem (.prop len name value :: passed) := by
    simp [haddress, h.addressCells]
  by_cases hsize : depthAfter passed = 0 ∧ NameIs mem name sizeCellsName ∧ 4 ≤ len
  · have honly := only_name (by decide) hsize.2.1
    rw [run_nameTest h.root _ _ hsize, run_bind, run_fdtBe32, run_pure]
    refine ⟨by simp +decide [honly], h.depth, h.inMemory, haddressCells, ?_⟩
    simp [hsize]
  rw [run_nameTest_not h.root _ _ hsize, run_bind, run_andThen]
  have hsizeCells : s.rootSizeCells = sizeCellsAfter mem (.prop len name value :: passed) := by
    simp [hsize, h.sizeCells]
  have htest : (s.inMemory && run mem (fdtStreq name regName)) = true ↔
      InMemoryNode mem passed ∧ NameIs mem name regName := by
    rw [Bool.and_eq_true, h.inMemory, run_fdtStreq]
  by_cases hends : InMemoryNode mem passed ∧ NameIs mem name regName
  · rw [if_pos (htest.mpr hends)]
    by_cases hinvalid : fdtRegInvalid len s.rootAddressCells s.rootSizeCells
    · rw [if_pos hinvalid]
      exact hends
    · rw [if_neg hinvalid, run_bind, run_pure]
      exact hends
  · rw [if_neg (mt htest.mp hends)]
    exact ⟨hends, h.depth, h.inMemory, haddressCells, hsizeCells⟩

theorem MemoryScan.After.propInside (len : UInt32) (name value : UInt64) (h : s.After mem passed) :
    Inside mem P (dtbMemoryParser.prop len name value s) ↔ MemoryPropInside mem P len name value passed := by
  unfold MemoryPropInside dtbMemoryParser
  rw [← h.depth, ← h.addressCells, ← h.sizeCells]
  refine (inside_test decide_eq_true_iff _ _ _ _ _).trans (testInside_congr (by simp) ?_)
  refine (inside_test decide_eq_true_iff _ _ _ _ _).trans (testInside_congr (by simp) ?_)
  refine (inside_test_name h.inMemory _ _ _ _).trans (testInside_congr ?_ (by simp))
  by_cases hinvalid : fdtRegInvalid len s.rootAddressCells s.rootSizeCells <;> simp [hinvalid]

theorem inside_memoryBeginNode {name : UInt64} {n : Nat} (h : NameInside mem P name n) (s : MemoryScan) :
    Inside mem P (dtbMemoryParser.beginNode name s) := by
  have hstarts := inside_fdtStartsWith name memoryName (h.compared (by decide))
  simp [dtbMemoryParser, hstarts]

theorem memory_follows : Follows mem P dtbMemoryParser (memoryReader mem P) (MemoryScan.After mem) where
  beginNode name h := h.beginNode name
  endNode h := h.endNode
  prop len name value h := h.prop len name value
  nameInside h s := inside_memoryBeginNode h s
  propInside len name value h := h.propInside len name value

end Memory

/-! ## `dtb_get_framebuffer` -/

section Framebuffer

variable (mem : Nat → UInt8) (P : UInt64 → Prop)

/-- The properties of the framebuffer node. -/
def FramebufferFieldInside (len : UInt32) (name value : UInt64) (passed : List FdtPassed) : Prop :=
  TestInside mem P (depthAfter passed = 1 ∧ InFramebufferNode mem passed) name regName True
    (fdtRegInvalid len (addressCellsAfter mem passed) (sizeCellsAfter mem passed) ∨
      RegInside P value (addressCellsAfter mem passed) (sizeCellsAfter mem passed)) <|
  TestInside mem P (depthAfter passed = 1 ∧ InFramebufferNode mem passed) name widthName (4 ≤ len)
    (WordInside P value) <|
  TestInside mem P (depthAfter passed = 1 ∧ InFramebufferNode mem passed) name heightName (4 ≤ len)
    (WordInside P value) <|
  TestInside mem P (depthAfter passed = 1 ∧ InFramebufferNode mem passed) name strideName (4 ≤ len)
    (WordInside P value) True

def FramebufferPropInside (len : UInt32) (name value : UInt64) (passed : List FdtPassed) : Prop :=
  TestInside mem P (depthAfter passed = 0) name addressCellsName (4 ≤ len) (WordInside P value) <|
  TestInside mem P (depthAfter passed = 0) name sizeCellsName (4 ≤ len) (WordInside P value) <|
  (depthAfter passed = 1 → ComparedInside mem P name compatibleName) ∧
  (depthAfter passed = 1 ∧ NameIs mem name compatibleName →
    CompatibleInside mem P value simpleFramebufferName len.toNat) ∧
  (¬((depthAfter passed = 1 ∧ NameIs mem name compatibleName) ∧ ListHas mem value simpleFramebufferName len.toNat) →
    FramebufferFieldInside mem P len name value passed)

/-- It returns at the end of a framebuffer node with all fields, and at a `reg` that it refuses. -/
def framebufferReader : FdtReader where
  EndsAtNode passed :=
    depthAfter passed = 1 ∧ InFramebufferNode mem passed ∧ HasField mem regName 0 passed ∧
      HasField mem widthName 4 passed ∧ HasField mem heightName 4 passed ∧ HasField mem strideName 4 passed
  EndsAtProp len name _ passed :=
    (depthAfter passed = 1 ∧ InFramebufferNode mem passed) ∧ NameIs mem name regName ∧
      fdtRegInvalid len (addressCellsAfter mem passed) (sizeCellsAfter mem passed)
  PropInside := FramebufferPropInside mem P

/-- The locals after the tokens. -/
structure FramebufferScan.After (passed : List FdtPassed) (s : FramebufferScan) : Prop where
  depth : s.depth = depthAfter passed
  inFramebuffer : s.inFramebuffer = true ↔ InFramebufferNode mem passed
  haveReg : s.haveReg = true ↔ HasField mem regName 0 passed
  haveWidth : s.haveWidth = true ↔ HasField mem widthName 4 passed
  haveHeight : s.haveHeight = true ↔ HasField mem heightName 4 passed
  haveStride : s.haveStride = true ↔ HasField mem strideName 4 passed
  addressCells : s.rootAddressCells = addressCellsAfter mem passed
  sizeCells : s.rootSizeCells = sizeCellsAfter mem passed

variable {mem P} {passed : List FdtPassed} {s : FramebufferScan}

theorem FramebufferScan.After.root (h : s.After mem passed) :
    decide (s.depth = 0) = true ↔ depthAfter passed = 0 := by
  rw [decide_eq_true_iff, h.depth]

/-- The test of the node in front of each of its fields. -/
theorem FramebufferScan.After.inNode (h : s.After mem passed) :
    (decide (s.depth = 1) && s.inFramebuffer) = true ↔ depthAfter passed = 1 ∧ InFramebufferNode mem passed := by
  rw [Bool.and_eq_true, decide_eq_true_iff, h.depth, h.inFramebuffer]

theorem FramebufferScan.After.beginNode (name : UInt64) (h : s.After mem passed) :
    (run mem (dtbFramebufferParser.beginNode name s)).After mem (.beginNode name :: passed) := by
  dsimp only [dtbFramebufferParser]
  by_cases hroot : depthAfter passed = 0
  · rw [if_pos (by rw [h.depth]; omega), run_bind, run_pure]
    constructor <;> simp [depthAfter, InFramebufferNode, HasField, addressCellsAfter, sizeCellsAfter, cellsAfter, hroot,
      h.depth, run_fdtStartsWith, h.addressCells, h.sizeCells]
  · rw [if_neg (by rw [h.depth]; omega), run_pure]
    constructor <;> simp [depthAfter, InFramebufferNode, HasField, addressCellsAfter, sizeCellsAfter, cellsAfter, hroot,
      h.depth, h.inFramebuffer, h.haveReg, h.haveWidth, h.haveHeight, h.haveStride, h.addressCells, h.sizeCells]

theorem FramebufferScan.After.endNode (h : s.After mem passed) :
    Handles ((framebufferReader mem P).EndsAtNode passed) (FramebufferScan.After mem (.endNode :: passed))
      (dtbFramebufferParser.endNode s) := by
  have hends : (s.depth = 1 ∧ s.inFramebuffer ∧ s.haveReg ∧ s.haveWidth ∧ s.haveHeight ∧ s.haveStride) ↔
      (framebufferReader mem P).EndsAtNode passed := by
    rw [h.depth, h.inFramebuffer, h.haveReg, h.haveWidth, h.haveHeight, h.haveStride, framebufferReader]
  dsimp only [dtbFramebufferParser]
  by_cases hlast : (framebufferReader mem P).EndsAtNode passed
  · rw [if_pos (hends.mpr hlast)]
    exact hlast
  · rw [if_neg (mt hends.mp hlast)]
    refine ⟨hlast, ?_, ?_, h.haveReg, h.haveWidth, h.haveHeight, h.haveStride, h.addressCells, h.sizeCells⟩
    · simp [depthAfter, h.depth]
    · by_cases hone : depthAfter passed = 1 <;> simp [InFramebufferNode, hone, h.depth, h.inFramebuffer]

theorem FramebufferScan.After.prop (len : UInt32) (name value : UInt64) (h : s.After mem passed) :
    Handles ((framebufferReader mem P).EndsAtProp len name value passed)
      (FramebufferScan.After mem (.prop len name value :: passed))
      (run mem (dtbFramebufferParser.prop len name value s)) := by
  have hlist : (run mem (Reads.andThen (decide (s.depth = 1)) (fdtStreq name compatibleName)) &&
      run mem (compatibleHas value simpleFramebufferName len.toNat 0 0)) = true ↔
      depthAfter passed = 1 ∧ NameIs mem name compatibleName ∧
        ListHas mem value simpleFramebufferName len.toNat := by
    rw [run_andThen, Bool.and_eq_true, Bool.and_eq_true, run_fdtStreq, decide_eq_true_iff,
      run_compatibleHas (by decide), and_assoc, h.depth]
  have hregTest : run mem (Reads.andThen (decide (s.depth = 1) && s.inFramebuffer) (fdtStreq name regName)) = true ↔
      (depthAfter passed = 1 ∧ InFramebufferNode mem passed) ∧ NameIs mem name regName := by
    rw [run_andThen, Bool.and_eq_true, h.inNode, run_fdtStreq]
  have hs := And.intro h.depth <| And.intro h.inFramebuffer <| And.intro h.haveReg <| And.intro h.haveWidth <|
    And.intro h.haveHeight <| And.intro h.haveStride <| And.intro h.addressCells h.sizeCells
  dsimp only [dtbFramebufferParser]
  by_cases haddress : depthAfter passed = 0 ∧ NameIs mem name addressCellsName ∧ 4 ≤ len
  · have honly := only_name (by decide) haddress.2.1
    rw [run_nameTest h.root _ _ haddress, run_bind, run_fdtBe32, run_pure]
    refine ⟨by simp +decide [framebufferReader, honly], ?_⟩
    constructor <;> simp +decide [honly, hs, haddress]
  rw [run_nameTest_not h.root _ _ haddress]
  by_cases hsize : depthAfter passed = 0 ∧ NameIs mem name sizeCellsName ∧ 4 ≤ len
  · have honly := only_name (by decide) hsize.2.1
    rw [run_nameTest h.root _ _ hsize, run_bind, run_fdtBe32, run_pure]
    refine ⟨by simp +decide [framebufferReader, honly], ?_⟩
    constructor <;> simp +decide [honly, hs, hsize]
  rw [run_nameTest_not h.root _ _ hsize, run_bind, run_bind, run_andThen]
  by_cases hcompatible : depthAfter passed = 1 ∧ NameIs mem name compatibleName ∧
      ListHas mem value simpleFramebufferName len.toNat
  · have honly := only_name (by decide) hcompatible.2.1
    rw [if_pos (hlist.mpr hcompatible), run_pure]
    refine ⟨by simp +decide [framebufferReader, honly], ?_⟩
    constructor <;> simp +decide [honly, hs, hcompatible]
  rw [if_neg (mt hlist.mp hcompatible), run_bind]
  by_cases hreg : (depthAfter passed = 1 ∧ InFramebufferNode mem passed) ∧ NameIs mem name regName
  · have honly := only_name (by decide) hreg.2
    rw [if_pos (hregTest.mpr hreg)]
    by_cases hinvalid : fdtRegInvalid len s.rootAddressCells s.rootSizeCells
    · rw [if_pos hinvalid, run_pure]
      exact ⟨hreg.1, hreg.2, by rwa [← h.addressCells, ← h.sizeCells]⟩
    · rw [if_neg hinvalid, run_bind, run_pure]
      refine ⟨?_, ?_⟩
      · rw [h.addressCells, h.sizeCells] at hinvalid
        exact fun hends => hinvalid hends.2.2
      · constructor <;> simp +decide [honly, hs, hreg]
  rw [if_neg (mt hregTest.mp hreg)]
  have hends : ¬(framebufferReader mem P).EndsAtProp len name value passed := fun hends => hreg ⟨hends.1, hends.2.1⟩
  by_cases hwidth : (depthAfter passed = 1 ∧ InFramebufferNode mem passed) ∧ NameIs mem name widthName ∧ 4 ≤ len
  · have honly := only_name (by decide) hwidth.2.1
    rw [run_nameTest h.inNode _ _ hwidth, run_bind, run_fdtBe32, run_pure]
    refine ⟨hends, ?_⟩
    constructor <;> simp +decide [honly, hs, hwidth]
  rw [run_nameTest_not h.inNode _ _ hwidth]
  by_cases hheight : (depthAfter passed = 1 ∧ InFramebufferNode mem passed) ∧ NameIs mem name heightName ∧ 4 ≤ len
  · have honly := only_name (by decide) hheight.2.1
    rw [run_nameTest h.inNode _ _ hheight, run_bind, run_fdtBe32, run_pure]
    refine ⟨hends, ?_⟩
    constructor <;> simp +decide [honly, hs, hheight]
  rw [run_nameTest_not h.inNode _ _ hheight]
  by_cases hstride : (depthAfter passed = 1 ∧ InFramebufferNode mem passed) ∧ NameIs mem name strideName ∧ 4 ≤ len
  · have honly := only_name (by decide) hstride.2.1
    rw [run_nameTest h.inNode _ _ hstride, run_bind, run_fdtBe32, run_pure]
    refine ⟨hends, ?_⟩
    constructor <;> simp +decide [honly, hs, hstride]
  rw [run_nameTest_not h.inNode _ _ hstride, run_pure]
  refine ⟨hends, ?_⟩
  have hreg0 : ¬((depthAfter passed = 1 ∧ InFramebufferNode mem passed) ∧ NameIs mem name regName ∧ 0 ≤ len) :=
    fun h0 => hreg ⟨h0.1, h0.2.1⟩
  constructor
  · exact h.depth
  · rw [inFramebufferNode_prop, or_iff_right hcompatible, h.inFramebuffer]
  · rw [hasField_prop, or_iff_right hreg0, h.haveReg]
  · rw [hasField_prop, or_iff_right hwidth, h.haveWidth]
  · rw [hasField_prop, or_iff_right hheight, h.haveHeight]
  · rw [hasField_prop, or_iff_right hstride, h.haveStride]
  · rw [addressCellsAfter_prop, if_neg haddress, h.addressCells]
  · rw [sizeCellsAfter_prop, if_neg hsize, h.sizeCells]

theorem FramebufferScan.After.propInside (len : UInt32) (name value : UInt64) (h : s.After mem passed) :
    Inside mem P (dtbFramebufferParser.prop len name value s) ↔ FramebufferPropInside mem P len name value passed := by
  have hcompatible : (decide (s.depth = 1) && run mem (fdtStreq name compatibleName)) = true ↔
      depthAfter passed = 1 ∧ NameIs mem name compatibleName := by
    rw [Bool.and_eq_true, run_fdtStreq, decide_eq_true_iff, h.depth]
  have hlist : run mem (compatibleHas value simpleFramebufferName len.toNat 0 0) = true ↔
      ListHas mem value simpleFramebufferName len.toNat := run_compatibleHas (by decide) _
  have hchild : decide (s.depth = 1) = true ↔ depthAfter passed = 1 := by rw [decide_eq_true_iff, h.depth]
  unfold FramebufferPropInside dtbFramebufferParser
  refine (inside_test h.root _ _ _ _ _).trans (testInside_congr (by simp) ?_)
  refine (inside_test h.root _ _ _ _ _).trans (testInside_congr (by simp) ?_)
  rw [inside_bind, inside_bind, inside_andThen, inside_andThen, run_andThen, run_andThen, hcompatible, inside_fdtStreq,
    inside_compatibleHas (by decide), hchild]
  refine and_congr_right fun _ => and_congr_right fun _ => ?_
  by_cases hfound : (depthAfter passed = 1 ∧ NameIs mem name compatibleName) ∧
      ListHas mem value simpleFramebufferName len.toNat
  · rw [if_pos (by rw [Bool.and_eq_true, hcompatible, hlist]; exact hfound)]
    simp [hfound]
  rw [if_neg (by rw [Bool.and_eq_true, hcompatible, hlist]; exact hfound)]
  simp only [hfound, not_false_eq_true, forall_const]
  rw [FramebufferFieldInside, ← h.addressCells, ← h.sizeCells]
  refine (inside_test_name h.inNode _ _ _ _).trans (testInside_congr ?_ ?_)
  · by_cases hinvalid : fdtRegInvalid len s.rootAddressCells s.rootSizeCells <;> simp [hinvalid]
  refine (inside_test h.inNode _ _ _ _ _).trans (testInside_congr (by simp) ?_)
  refine (inside_test h.inNode _ _ _ _ _).trans (testInside_congr (by simp) ?_)
  exact (inside_test h.inNode _ _ _ _ _).trans (testInside_congr (by simp) (by simp))

theorem inside_framebufferBeginNode {name : UInt64} {n : Nat} (h : NameInside mem P name n) (s : FramebufferScan) :
    Inside mem P (dtbFramebufferParser.beginNode name s) := by
  have hstarts := inside_fdtStartsWith name framebufferName (h.compared (by decide))
  unfold dtbFramebufferParser
  by_cases hdepth : s.depth + 1 = 1 <;> simp [hdepth, hstarts]

theorem framebuffer_follows :
    Follows mem P dtbFramebufferParser (framebufferReader mem P) (FramebufferScan.After mem) where
  beginNode name h := h.beginNode name
  endNode h := h.endNode
  prop len name value h := h.prop len name value
  nameInside h s := inside_framebufferBeginNode h s
  propInside len name value h := h.propInside len name value

end Framebuffer

end Armonios
