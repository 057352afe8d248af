import Armonios.Dtb.Tree

/-!
# The memory node

`dtb_get_memory` on a flattened tree. Its loop sees the tokens (`scanTokens`), and of the tokens of a tree it takes the
`reg` of the first child of the root whose name *starts with* "memory".
-/

namespace Armonios

open Reads

/-- With enough fuel the program returns `r`. -/
def ReturnsWith {α : Type} (mem : Nat → UInt8) (f : Nat → Reads (Option α)) (r : α) : Prop :=
  ∃ n, ∀ fuel ≥ n, run mem (f fuel) = some r

section Strings

variable {mem : Nat → UInt8} {a : UInt64} {str : List UInt8}

theorem agreesFor_iff_isPrefix {b : List UInt8} (h : StringAt mem a str) (hb : 0 ∉ b) :
    AgreesFor mem a b b.length ↔ b <+: str := by
  obtain ⟨⟨hagrees, hend⟩, -⟩ := h
  constructor
  · intro hb'
    have hle : b.length ≤ str.length := hb'.le hb hend
    rw [List.prefix_iff_getElem?]
    intro i hi
    rw [hagrees i (by omega), ← hb' i hi]
    simp [hi]
  · rintro ⟨rest, rfl⟩ i hi
    rw [← hagrees i (by simp; omega), List.getElem?_append_left hi]

theorem nameIs_iff {b : List UInt8} (h : StringAt mem a str) (hb : 0 ∉ b) : NameIs mem a b ↔ str = b := by
  constructor
  · intro hname
    exact h.1.unique hname h.2 hb
  · rintro rfl
    exact h.1

end Strings

/-! ## Values -/

section Values

variable {mem : Nat → UInt8} {a : UInt64} {value : List UInt8}

theorem AgreesFor.drop {n k : Nat} (h : AgreesFor mem a value n) :
    AgreesFor mem (a + UInt64.ofNat k) (value.drop k) (n - k) := by
  intro i hi
  have hat := h (k + i) (by omega)
  rw [List.getElem?_drop, hat, charAt_add]

theorem wordAt_toNat {n : Nat} (h : AgreesFor mem a value n) (hn : 4 ≤ n) :
    (wordAt mem a).toNat = beNumber (value.take 4) := by
  have htake : value.take 4 = [charAt mem a 0, charAt mem a 1, charAt mem a 2, charAt mem a 3] := by
    apply List.ext_getElem?
    intro i
    by_cases hi : i < 4
    · rw [List.getElem?_take_of_lt hi, h i (by omega)]
      obtain rfl | rfl | rfl | rfl : i = 0 ∨ i = 1 ∨ i = 2 ∨ i = 3 := by omega
      all_goals rfl
    · rw [List.getElem?_eq_none (by simp; omega), List.getElem?_eq_none (by simp; omega)]
  rw [htake, ← be32_toNat]
  simp [wordAt, fdtBe32, charAt]

theorem run_fdtReadCells (cells : UInt64) (count : Nat) (start : UInt64)
    (h : AgreesFor mem cells value (4 * count)) :
    run mem (fdtReadCells cells count start) =
      UInt64.ofNat (start.toNat * 256 ^ (4 * count) + beNumber (value.take (4 * count))) := by
  induction count generalizing cells start value with
  | zero => simp [fdtReadCells, beNumber]
  | succ count ih =>
    have hlen : 4 * (count + 1) ≤ value.length := by
      by_contra hlt
      have hlast := h value.length (by omega)
      simp at hlast
    have hrest : AgreesFor mem (cells + 4) (value.drop 4) (4 * count) := by
      have hdrop := h.drop (k := 4)
      rwa [show 4 * (count + 1) - 4 = 4 * count by omega] at hdrop
    have hsplit : value.take (4 * (count + 1)) = value.take 4 ++ (value.drop 4).take (4 * count) := by
      rw [show 4 * (count + 1) = 4 + 4 * count by omega, List.take_add]
    have hrestLen : ((value.drop 4).take (4 * count)).length = 4 * count := by
      rw [List.length_take, List.length_drop]
      omega
    unfold fdtReadCells
    rw [run_bind, run_fdtBe32, ih _ _ hrest, shiftIn, wordAt_toNat h (by omega), hsplit, beNumber_append, hrestLen,
      UInt64.toNat_ofNat']
    apply UInt64.toNat_inj.mp
    rw [UInt64.toNat_ofNat', UInt64.toNat_ofNat']
    have hpow : (256 : Nat) ^ (4 * (count + 1)) = 2 ^ 32 * 256 ^ (4 * count) := by
      rw [show 4 * (count + 1) = 4 + 4 * count by omega, Nat.pow_add]
      rfl
    rw [Nat.add_mod, Nat.mod_mul_mod, ← Nat.add_mod, hpow, Nat.add_mul, Nat.mul_assoc, Nat.add_assoc]

/-- The code's pair is the first pair of the value. -/
theorem run_fdtReadReg (addressCells sizeCells : UInt32)
    (h : AgreesFor mem a value (4 * (addressCells.toNat + sizeCells.toNat))) :
    run mem (fdtReadReg a addressCells sizeCells) =
      ((regPair addressCells.toNat sizeCells.toNat value).base,
        (regPair addressCells.toNat sizeCells.toNat value).size) := by
  have haddress : AgreesFor mem a value (4 * addressCells.toNat) := fun i hi => h i (by omega)
  have hsize : AgreesFor mem (a + 4 * addressCells.toUInt64) (value.drop (4 * addressCells.toNat))
      (4 * sizeCells.toNat) := by
    have hcells : UInt64.ofNat addressCells.toNat = addressCells.toUInt64 := by simp
    have hdrop := h.drop (k := 4 * addressCells.toNat)
    rw [UInt64.ofNat_mul, hcells, show 4 * (addressCells.toNat + sizeCells.toNat) - 4 * addressCells.toNat =
      4 * sizeCells.toNat by omega] at hdrop
    exact hdrop
  simp [fdtReadReg, regPair, run_fdtReadCells a _ 0 haddress, run_fdtReadCells _ _ 0 hsize]

end Values

/-! ## The tokens -/

/-- What the property handler makes of a property. -/
def scanProp (p : DtProp) (s : MemoryScan) : Except (Option DtbMemory) MemoryScan :=
  if s.depth = 0 ∧ p.name = addressCellsName ∧ 4 ≤ p.value.length then
    .ok { s with rootAddressCells := UInt32.ofNat (beNumber (p.value.take 4)) }
  else if s.depth = 0 ∧ p.name = sizeCellsName ∧ 4 ≤ p.value.length then
    .ok { s with rootSizeCells := UInt32.ofNat (beNumber (p.value.take 4)) }
  else if s.inMemory = true ∧ p.name = regName then
    if p.value.length < ((s.rootAddressCells + s.rootSizeCells) * 4).toNat ∨ 2 < s.rootAddressCells ∨
        2 < s.rootSizeCells then .error none
    else .error (some (regPair s.rootAddressCells.toNat s.rootSizeCells.toNat p.value))
  else .ok s

/-- The loop on tokens. -/
def scanTokens : List FdtToken → MemoryScan → Option DtbMemory
  | [], _ => none
  | .beginNode name :: tokens, s =>
    scanTokens tokens { s with
      depth := s.depth + 1
      inMemory := decide (s.depth + 1 = 1) && memoryName.isPrefixOf name }
  | .endNode :: tokens, s =>
    scanTokens tokens { s with
      inMemory := if s.inMemory ∧ s.depth = 1 then false else s.inMemory
      depth := s.depth - 1 }
  | .prop p :: tokens, s =>
    match scanProp p s with
    | .error r => r
    | .ok s => scanTokens tokens s
  | .nop :: tokens, s => scanTokens tokens s

section Scan

variable {α : Type} {mem : Nat → UInt8}

/-- A test of the name of a property in the blob. -/
theorem run_test {c : Bool} {C G : Prop} [Decidable C] [Decidable G] (hc : c = true ↔ C) {name : UInt64}
    {pname str : List UInt8} (hname : StringAt mem name pname) (hstr : 0 ∉ str) {g : Prop} [Decidable g] (hg : g ↔ G)
    (yes no : Reads α) :
    run mem (Reads.andThen c (fdtStreq name str) >>= fun found => if (found && g) = true then yes else no) =
      if C ∧ pname = str ∧ G then run mem yes else run mem no := by
  have htest : (C ∧ NameIs mem name str ∧ g) ↔ C ∧ pname = str ∧ G := by rw [nameIs_iff hname hstr, hg]
  by_cases h : C ∧ pname = str ∧ G
  · rw [if_pos h, run_nameTest hc yes no (htest.mpr h)]
  · rw [if_neg h, run_nameTest_not hc yes no (mt htest.mp h)]

theorem run_memoryProp {len : UInt32} {name value : UInt64} {p : DtProp} (hlen : len.toNat = p.value.length)
    (hname : StringAt mem name p.name) (hvalue : AgreesFor mem value p.value p.value.length) (s : MemoryScan) :
    run mem (dtbMemoryParser.prop len name value s) = scanProp p s := by
  have hword : 4 ≤ p.value.length → wordAt mem value = UInt32.ofNat (beNumber (p.value.take 4)) := by
    intro h4
    apply UInt32.toNat_inj.mp
    rw [UInt32.toNat_ofNat', ← wordAt_toNat hvalue h4, Nat.mod_eq_of_lt (UInt32.toNat_lt _)]
  have hlen4 : 4 ≤ len ↔ 4 ≤ p.value.length := by rw [← hlen]; exact UInt32.le_iff_toNat_le
  have hinvalidIff : fdtRegInvalid len s.rootAddressCells s.rootSizeCells ↔
      p.value.length < ((s.rootAddressCells + s.rootSizeCells) * 4).toNat ∨ 2 < s.rootAddressCells ∨
        2 < s.rootSizeCells := by
    rw [fdtRegInvalid, UInt32.lt_iff_toNat_lt, hlen]
  have hreg : ¬fdtRegInvalid len s.rootAddressCells s.rootSizeCells →
      run mem (fdtReadReg value s.rootAddressCells s.rootSizeCells) =
        ((regPair s.rootAddressCells.toNat s.rootSizeCells.toNat p.value).base,
          (regPair s.rootAddressCells.toNat s.rootSizeCells.toNat p.value).size) := by
    intro hvalid
    refine run_fdtReadReg _ _ fun i hi => hvalue i ?_
    simp only [fdtRegInvalid, UInt32.lt_iff_toNat_lt, UInt32.toNat_mul, UInt32.toNat_add, UInt32.toNat_ofNat, hlen]
      at hvalid
    omega
  have hregTest : (s.inMemory && run mem (fdtStreq name regName)) = true ↔ s.inMemory = true ∧ p.name = regName := by
    rw [Bool.and_eq_true, run_fdtStreq, nameIs_iff hname (by decide)]
  unfold scanProp dtbMemoryParser
  refine (run_test decide_eq_true_iff hname (by decide) hlen4 _ _).trans (if_ctx_congr Iff.rfl (fun htest => ?_) ?_)
  · rw [run_bind, run_fdtBe32, hword htest.2.2, run_pure]
  intro _
  refine (run_test decide_eq_true_iff hname (by decide) hlen4 _ _).trans (if_ctx_congr Iff.rfl (fun htest => ?_) ?_)
  · rw [run_bind, run_fdtBe32, hword htest.2.2, run_pure]
  intro _
  rw [run_bind, run_andThen]
  by_cases htest : s.inMemory = true ∧ p.name = regName
  · rw [if_pos htest, if_pos (hregTest.mpr htest)]
    by_cases hinvalid : fdtRegInvalid len s.rootAddressCells s.rootSizeCells
    · rw [if_pos hinvalid, if_pos (hinvalidIff.mp hinvalid), run_pure]
    · rw [if_neg hinvalid, if_neg (mt hinvalidIff.mpr hinvalid), run_bind, hreg hinvalid, run_pure]
  · rw [if_neg htest, if_neg (mt hregTest.mp htest), run_pure]

end Scan

/-! ## The loop -/

theorem fdtAlign4_toNat (value : UInt64) : (fdtAlign4 value).toNat = (value + 3).toNat / 4 * 4 := by
  unfold fdtAlign4
  rw [UInt64.toNat_and]
  have hnot : (~~~3 : UInt64).toNat = 2 ^ 64 - (3 + 1) := rfl
  rw [hnot]
  refine Nat.eq_of_testBit_eq fun i => ?_
  have hlow : Nat.testBit 3 i = decide (i < 2) := Nat.testBit_two_pow_sub_one 2 i
  rw [Nat.testBit_and, Nat.testBit_two_pow_sub_succ (by decide), hlow, show (4 : Nat) = 2 ^ 2 from rfl,
    Nat.testBit_mul_two_pow, Nat.testBit_div_two_pow]
  by_cases hi : 2 ≤ i
  · rw [decide_eq_true hi, decide_eq_false (Nat.not_lt.mpr hi), Nat.sub_add_cancel hi]
    by_cases h64 : i < 64
    · simp [h64]
    · have hx : (value + 3).toNat < 2 ^ i :=
        Nat.lt_of_lt_of_le (UInt64.toNat_lt _) (Nat.pow_le_pow_right (by decide) (Nat.le_of_not_lt h64))
      rw [Nat.testBit_lt_two_pow hx]
      rfl
  · simp [hi, Nat.lt_of_not_le hi]

/-- Alignment fills a part up when the part starts aligned. -/
theorem fdtAlign4_padded {cursor : UInt64} (h : cursor.toNat % 4 = 0) (n : Nat) :
    fdtAlign4 (cursor + UInt64.ofNat n) = cursor + padded n := by
  apply UInt64.toNat_inj.mp
  rw [fdtAlign4_toNat]
  simp only [padded, UInt64.toNat_add, UInt64.toNat_ofNat', UInt64.toNat_ofNat]
  omega

theorem aligned_add {cursor k : UInt64} (h : cursor.toNat % 4 = 0) (hk : k.toNat % 4 = 0) :
    (cursor + k).toNat % 4 = 0 := by
  rw [UInt64.toNat_add]
  omega

theorem padded_aligned (n : Nat) : (padded n).toNat % 4 = 0 := by
  rw [padded, UInt64.toNat_ofNat']
  omega

section Loop

variable {α : Type} {mem : Nat → UInt8} {f : Nat → Reads (Option α)} {r r' : α}

theorem returns_succ (n : Nat) (h : ∀ fuel ≥ n, run mem (f (fuel + 1)) = some r) : ReturnsWith mem f r := by
  refine ⟨n + 1, fun fuel hfuel => ?_⟩
  obtain ⟨fuel, rfl⟩ := Nat.exists_eq_add_one.mpr (show 0 < fuel by omega)
  exact h fuel (by omega)

theorem ReturnsWith.unique (h : ReturnsWith mem f r) (h' : ReturnsWith mem f r') : r = r' := by
  obtain ⟨n, hn⟩ := h
  obtain ⟨n', hn'⟩ := h'
  have hmax := (hn (max n n') (by omega)).symm.trans (hn' (max n n') (by omega))
  exact Option.some.inj hmax

theorem StringAt.nameInside {a : UInt64} {str : List UInt8} (h : StringAt mem a str) :
    NameInside mem (fun _ => True) a str.length := by
  obtain ⟨⟨hagrees, hend⟩, hnul⟩ := h
  refine ⟨⟨hend, fun i hi hzero => ?_⟩, fun _ _ => trivial⟩
  have hat := hagrees i hi
  rw [hzero] at hat
  exact hnul (List.mem_of_getElem? hat)

theorem run_memoryBeginNode {a : UInt64} {name : List UInt8} (h : StringAt mem a name) (s : MemoryScan) :
    run mem (dtbMemoryParser.beginNode a s) =
      { s with
        depth := s.depth + 1
        inMemory := decide (s.depth + 1 = 1) && memoryName.isPrefixOf name } := by
  have hstarts : run mem (fdtStartsWith a memoryName) = memoryName.isPrefixOf name := by
    rw [Bool.eq_iff_iff, run_fdtStartsWith, agreesFor_iff_isPrefix h (by decide), List.isPrefixOf_iff_prefix]
  simp [dtbMemoryParser, hstarts]

/-- The loop on memory is the loop on the tokens that are there. -/
theorem returns_fdtLoop {strings structEnd cursor : UInt64} {tokens : List FdtToken}
    (h : TokensAt mem strings structEnd tokens cursor) (haligned : cursor.toNat % 4 = 0) (s : MemoryScan) :
    ReturnsWith mem (fun fuel => fdtLoop dtbMemoryParser strings structEnd fuel cursor s) (scanTokens tokens s) := by
  induction tokens generalizing cursor s with
  | nil =>
    obtain ⟨hcursor, htoken⟩ := h
    have hend : fdtEnd ≠ fdtBeginNode ∧ fdtEnd ≠ fdtEndNode ∧ fdtEnd ≠ fdtProp ∧ fdtEnd ≠ fdtNop := by decide
    refine returns_succ 0 fun fuel _ => ?_
    simp [fdtLoop, UInt64.not_le.mpr hcursor, htoken, hend, dtbMemoryParser, scanTokens]
  | cons token tokens ih =>
    have haligned4 : (cursor + 4).toNat % 4 = 0 := aligned_add haligned (by decide)
    cases token with
    | beginNode name =>
      obtain ⟨hcursor, htoken, hname, hrest⟩ := h
      have hnext : fdtAlign4 (cursor + 4 + UInt64.ofNat name.length + 1) = cursor + 4 + padded (name.length + 1) := by
        rw [← fdtAlign4_padded haligned4, ofNat_add_one, UInt64.add_assoc (cursor + 4)]
      obtain ⟨m, hm⟩ := ih hrest (aligned_add haligned4 (padded_aligned _)) { s with
        depth := s.depth + 1
        inMemory := decide (s.depth + 1 = 1) && memoryName.isPrefixOf name }
      refine returns_succ (max m (name.length + 1)) fun fuel hfuel => ?_
      have hskip := (fdtSkipName_of_nameInside hname.nameInside (show name.length < fuel by omega)).1
      simpa [fdtLoop, UInt64.not_le.mpr hcursor, htoken, run_memoryBeginNode hname, hskip, hnext, scanTokens] using
        hm fuel (by omega)
    | endNode =>
      obtain ⟨hcursor, htoken, hrest⟩ := h
      obtain ⟨m, hm⟩ := ih hrest haligned4 { s with
        inMemory := if s.inMemory ∧ s.depth = 1 then false else s.inMemory
        depth := s.depth - 1 }
      refine returns_succ m fun fuel hfuel => ?_
      have hloop := hm fuel hfuel
      simp only [fdtLoop, UInt64.not_le.mpr hcursor, htoken, fdtTokens_ne, scanTokens, if_false, if_true, run_bind,
        run_fdtBe32]
      exact hloop
    | prop p =>
      obtain ⟨hcursor, htoken, hlen, hname, hvalue, hrest⟩ := h
      have h8 : cursor + 4 + 4 = cursor + 8 := UInt64.add_assoc cursor 4 4
      have h12 : cursor + 4 + 8 = cursor + 12 := UInt64.add_assoc cursor 4 8
      have hprop := run_memoryProp hlen hname hvalue s
      have hnext : fdtAlign4 (cursor + 12 + (wordAt mem (cursor + 4)).toUInt64) =
          cursor + 12 + padded p.value.length := by
        rw [← fdtAlign4_padded (aligned_add haligned (by decide)), ← hlen]
        simp
      cases hscan : scanProp p s with
      | error r =>
        refine returns_succ 0 fun fuel _ => ?_
        simp [fdtLoop, UInt64.not_le.mpr hcursor, htoken, fdtTokens_ne, h8, h12, hprop, hscan, scanTokens]
      | ok s' =>
        obtain ⟨m, hm⟩ := ih hrest (aligned_add (aligned_add haligned (by decide)) (padded_aligned _)) s'
        refine returns_succ m fun fuel hfuel => ?_
        simp [fdtLoop, UInt64.not_le.mpr hcursor, htoken, fdtTokens_ne, h8, h12, hprop, hscan, scanTokens, hnext,
          hm fuel hfuel]
    | nop =>
      obtain ⟨hcursor, htoken, hrest⟩ := h
      obtain ⟨m, hm⟩ := ih hrest haligned4 s
      refine returns_succ m fun fuel hfuel => ?_
      simp [fdtLoop, UInt64.not_le.mpr hcursor, htoken, fdtTokens_ne, scanTokens, hm fuel hfuel]

end Loop

/-! ## Tokens of a tree -/

section Tree

theorem scanTokens_filter (tokens : List FdtToken) (s : MemoryScan) :
    scanTokens (tokens.filter (!·.isNop)) s = scanTokens tokens s := by
  induction tokens generalizing s with
  | nil => rfl
  | cons token tokens ih =>
    cases token with
    | nop => exact ih s
    | beginNode name => exact ih _
    | endNode => exact ih _
    | prop p =>
      change scanTokens (.prop p :: tokens.filter (!·.isNop)) s = _
      unfold scanTokens
      cases scanProp p s with
      | error r => rfl
      | ok s' => exact ih s'

variable {rest : List FdtToken} {s : MemoryScan}

/-- Properties below the children of the root, or of another child. -/
theorem scanTokens_skipProps (hdepth : s.depth ≠ 0) (hin : s.inMemory = false) (props : List DtProp) :
    scanTokens (props.map .prop ++ rest) s = scanTokens rest s := by
  induction props with
  | nil => rfl
  | cons p props ih =>
    have hprop : scanProp p s = .ok s := by simp [scanProp, hdepth, hin]
    rw [List.map_cons, List.cons_append, scanTokens, hprop]
    exact ih

/-- The nodes below a child of the root change no more than the flag, which they do not set. -/
theorem scanTokens_below (nodes : DtNodes) (s : MemoryScan) (hdepth : 1 ≤ s.depth) (rest : List FdtToken) :
    ∃ inMemory, scanTokens (nodes.tokens ++ rest) s = scanTokens rest { s with inMemory } ∧
      (s.inMemory = false → inMemory = false) := by
  induction nodes generalizing s rest with
  | nil => exact ⟨s.inMemory, rfl, id⟩
  | node name props children siblings ihc ihs =>
    have hone : ¬s.depth + 1 = 1 := by omega
    obtain ⟨b, hchildren, hb⟩ := ihc { s with depth := s.depth + 1, inMemory := false } (by simp; omega)
      (.endNode :: (siblings.tokens ++ rest))
    obtain ⟨b', hsiblings, hb'⟩ := ihs { s with inMemory := false } hdepth rest
    refine ⟨b', ?_, fun _ => hb' rfl⟩
    have htokens : (DtNodes.node name props children siblings).tokens ++ rest =
        .beginNode name :: (props.map .prop ++ (children.tokens ++ .endNode :: (siblings.tokens ++ rest))) := by
      simp [DtNodes.tokens]
    rw [htokens, scanTokens, decide_eq_false hone, Bool.false_and,
      scanTokens_skipProps (by simp; omega) rfl, hchildren, hb rfl, scanTokens]
    simpa using hsiblings

/-- The properties of a child whose name starts with "memory". -/
theorem scanTokens_memoryProps (hdepth : s.depth ≠ 0) (hin : s.inMemory = true) {props : List DtProp}
    (hwhole : ∀ p ∈ props, p.name = regName →
      ((s.rootAddressCells + s.rootSizeCells) * 4).toNat ≤ p.value.length)
    (hcells : ¬2 < s.rootAddressCells ∧ ¬2 < s.rootSizeCells) :
    scanTokens (props.map .prop ++ rest) s =
      match dtProp regName props with
      | some value => some (regPair s.rootAddressCells.toNat s.rootSizeCells.toNat value)
      | none => scanTokens rest s := by
  induction props with
  | nil => rfl
  | cons p props ih =>
    rw [List.map_cons, List.cons_append, scanTokens]
    by_cases hreg : p.name = regName
    · have hlen := hwhole p List.mem_cons_self hreg
      have hprop : scanProp p s =
          .error (some (regPair s.rootAddressCells.toNat s.rootSizeCells.toNat p.value)) := by
        have hvalid : ¬(p.value.length < ((s.rootAddressCells + s.rootSizeCells) * 4).toNat ∨
            2 < s.rootAddressCells ∨ 2 < s.rootSizeCells) :=
          not_or.mpr ⟨Nat.not_lt.mpr hlen, not_or.mpr hcells⟩
        rw [scanProp, if_neg (fun h => hdepth h.1), if_neg (fun h => hdepth h.1), if_pos ⟨hin, hreg⟩, if_neg hvalid]
      simp [hprop, dtProp, hreg]
    · have hprop : scanProp p s = .ok s := by simp [scanProp, hdepth, hreg]
      have hfind : dtProp regName (p :: props) = dtProp regName props := by simp [dtProp, hreg]
      rw [hprop, hfind]
      exact ih fun q hq => hwhole q (List.mem_cons_of_mem _ hq)

/-- The loop takes the prefix of a name for its whole. -/
theorem scanTokens_children {addressCells sizeCells : Nat} (ha : addressCells ≤ 2) (hs : sizeCells ≤ 2)
    (nodes : DtNodes) (hwhole : nodes.RegsWhole addressCells sizeCells)
    (s : MemoryScan) (hdepth : s.depth = 0) (haddress : s.rootAddressCells = UInt32.ofNat addressCells)
    (hsize : s.rootSizeCells = UInt32.ofNat sizeCells) :
    scanTokens (nodes.tokens ++ [.endNode]) s =
      (nodes.reg memoryName.isPrefixOf).map (regPair addressCells sizeCells) := by
  have haNat : (UInt32.ofNat addressCells).toNat = addressCells := UInt32.toNat_ofNat_of_lt' (by
    show addressCells < 2 ^ 32
    omega)
  have hsNat : (UInt32.ofNat sizeCells).toNat = sizeCells := UInt32.toNat_ofNat_of_lt' (by
    show sizeCells < 2 ^ 32
    omega)
  have hcells : ¬2 < UInt32.ofNat addressCells ∧ ¬2 < UInt32.ofNat sizeCells := by
    simp only [UInt32.lt_iff_toNat_lt, haNat, hsNat]
    exact ⟨Nat.not_lt.mpr ha, Nat.not_lt.mpr hs⟩
  have hneeded : ((UInt32.ofNat addressCells + UInt32.ofNat sizeCells) * 4).toNat =
      4 * (addressCells + sizeCells) := by
    rw [UInt32.toNat_mul, UInt32.toNat_add, haNat, hsNat]
    show (addressCells + sizeCells) % 2 ^ 32 * 4 % 2 ^ 32 = _
    omega
  induction nodes generalizing s with
  | nil => rfl
  | node name props children siblings _ ihs =>
    obtain ⟨hregs, hsiblings⟩ := hwhole
    have hafter : ∀ inMemory, scanTokens (children.tokens ++ .endNode :: (siblings.tokens ++ [.endNode]))
        { s with depth := s.depth + 1, inMemory } =
        (siblings.reg memoryName.isPrefixOf).map (regPair addressCells sizeCells) := by
      intro inMemory
      obtain ⟨b, hchildren, -⟩ := scanTokens_below children { s with depth := s.depth + 1, inMemory }
        (by simp [hdepth]) (.endNode :: (siblings.tokens ++ [.endNode]))
      rw [hchildren, scanTokens]
      have hnext := ihs hsiblings { s with inMemory := false } hdepth haddress hsize
      simpa [hdepth] using hnext
    have htokens : (DtNodes.node name props children siblings).tokens ++ [.endNode] =
        .beginNode name :: (props.map .prop ++ (children.tokens ++ .endNode :: (siblings.tokens ++ [.endNode]))) := by
      simp [DtNodes.tokens]
    have hone : s.depth + 1 = 1 := by omega
    rw [htokens, scanTokens, decide_eq_true hone, Bool.true_and]
    cases hname : memoryName.isPrefixOf name with
    | false =>
      rw [scanTokens_skipProps (by simp; omega) rfl, hafter]
      cases hprop : dtProp regName props <;> simp [DtNodes.reg, hprop, hname]
    | true =>
      have hprops : ∀ p ∈ props, p.name = regName →
          ((s.rootAddressCells + s.rootSizeCells) * 4).toNat ≤ p.value.length := by
        intro p hp hreg
        obtain ⟨hpos', hdvd⟩ := hregs p hp hreg
        rw [haddress, hsize, hneeded]
        exact Nat.le_of_dvd hpos' hdvd
      rw [scanTokens_memoryProps (s := { s with depth := s.depth + 1, inMemory := true }) (by simp; omega) rfl hprops
        (by rw [haddress, hsize]; exact hcells), hafter]
      cases hprop : dtProp regName props <;> simp [DtNodes.reg, hprop, hname, haddress, hsize, haNat, hsNat]

/-- The last value that a property of the root gives a number of cells. -/
def lastCells (name : List UInt8) (props : List DtProp) (cells : UInt32) : UInt32 :=
  props.foldl (fun cells p =>
    if p.name = name ∧ 4 ≤ p.value.length then UInt32.ofNat (beNumber (p.value.take 4)) else cells) cells

theorem scanTokens_rootProps (hdepth : s.depth = 0) (hin : s.inMemory = false) (props : List DtProp) :
    scanTokens (props.map .prop ++ rest) s =
      scanTokens rest { s with
        rootAddressCells := lastCells addressCellsName props s.rootAddressCells
        rootSizeCells := lastCells sizeCellsName props s.rootSizeCells } := by
  induction props generalizing s with
  | nil => rfl
  | cons p props ih =>
    rw [List.map_cons, List.cons_append, scanTokens]
    have hne : addressCellsName ≠ sizeCellsName := by decide
    by_cases haddress : p.name = addressCellsName ∧ 4 ≤ p.value.length
    · have hprop : scanProp p s = .ok { s with rootAddressCells := UInt32.ofNat (beNumber (p.value.take 4)) } := by
        simp [scanProp, hdepth, haddress]
      rw [hprop]
      refine (ih (s := { s with rootAddressCells := UInt32.ofNat (beNumber (p.value.take 4)) }) hdepth hin).trans ?_
      simp [lastCells, haddress, hne]
    by_cases hsize : p.name = sizeCellsName ∧ 4 ≤ p.value.length
    · have hprop : scanProp p s = .ok { s with rootSizeCells := UInt32.ofNat (beNumber (p.value.take 4)) } := by
        simp [scanProp, hdepth, hsize, hne.symm]
      rw [hprop]
      refine (ih (s := { s with rootSizeCells := UInt32.ofNat (beNumber (p.value.take 4)) }) hdepth hin).trans ?_
      simp [lastCells, hsize, hne.symm]
    · have hprop : scanProp p s = .ok s := by
        simp [scanProp, hdepth, hin, haddress, hsize]
      rw [hprop]
      refine (ih hdepth hin).trans ?_
      simp [lastCells, haddress, hsize]

theorem lastCells_of_forall_ne {name : List UInt8} {props : List DtProp} (h : ∀ p ∈ props, p.name ≠ name)
    (cells : UInt32) : lastCells name props cells = cells := by
  induction props with
  | nil => rfl
  | cons p props ih =>
    have hp : ¬(p.name = name ∧ 4 ≤ p.value.length) := fun hp => h p List.mem_cons_self hp.1
    unfold lastCells
    rw [List.foldl_cons, if_neg hp]
    exact ih fun q hq => h q (List.mem_cons_of_mem _ hq)

theorem lastCells_of_mem {name value : List UInt8} {props : List DtProp} (hnames : (props.map DtProp.name).Nodup)
    (hmem : ⟨name, value⟩ ∈ props) (hlen : value.length = 4) (cells : UInt32) :
    lastCells name props cells = UInt32.ofNat (beNumber value) := by
  obtain ⟨front, back, rfl⟩ := List.append_of_mem hmem
  have hback : ∀ p ∈ back, p.name ≠ name := by
    rw [List.map_append, List.nodup_append, List.map_cons, List.nodup_cons] at hnames
    intro p hp hname
    exact hnames.2.1.1 (List.mem_map.mpr ⟨p, hp, hname⟩)
  unfold lastCells
  rw [List.foldl_append, List.foldl_cons, if_pos ⟨rfl, by simp [hlen]⟩, List.take_of_length_le (by simp [hlen])]
  exact lastCells_of_forall_ne hback _

/-- What the loop makes of the tokens of a tree. -/
theorem scanTokens_tree {tree : DtTree} {addressCells sizeCells : Nat} (h : tree.WellFormed addressCells sizeCells) :
    scanTokens tree.tokens ⟨-1, false, 2, 1⟩ =
      (tree.children.reg memoryName.isPrefixOf).map (regPair addressCells sizeCells) := by
  obtain ⟨address, haddressMem, haddressLen, haddress⟩ := h.address
  obtain ⟨size, hsizeMem, hsizeLen, hsize⟩ := h.size
  rw [DtTree.tokens, scanTokens, scanTokens_rootProps (by simp) (by simp)]
  refine scanTokens_children h.addressRange.2 h.sizeRange.2 tree.children h.regs _ (by simp) ?_ ?_
  · rw [lastCells_of_mem h.names haddressMem haddressLen, haddress]
  · rw [lastCells_of_mem h.names hsizeMem hsizeLen, hsize]

end Tree

/-! ## The function -/

/-- `dtb_get_memory` on a flattened tree. -/
theorem dtbGetMemory_tree {mem : Nat → UInt8} {dtbAddr : UInt64} {tree : DtTree} {addressCells sizeCells : Nat}
    (hflat : Flattened mem dtbAddr tree) (hwf : tree.WellFormed addressCells sizeCells) :
    ReturnsWith mem (fun fuel => dtbGetMemory fuel dtbAddr)
      ((tree.children.reg memoryName.isPrefixOf).map (regPair addressCells sizeCells)) := by
  obtain ⟨view, tokens, hheader, hfilter, htokens⟩ := hflat.tokens
  have haligned : view.cursor.toNat % 4 = 0 := by
    rw [hheader.cursor]
    refine aligned_add hflat.aligned.1 ?_
    rw [UInt32.toNat_toUInt64]
    exact hflat.aligned.2
  obtain ⟨n, hn⟩ := returns_fdtLoop htokens haligned ⟨-1, false, 2, 1⟩
  rw [← scanTokens_filter, hfilter, scanTokens_tree hwf] at hn
  refine ⟨n, fun fuel hfuel => ?_⟩
  have hloop := hn fuel hfuel
  simp only [dtbGetMemory, run_bind, fdtViewInit_some.mpr hheader]
  exact hloop

/-- Before the first memory node with a `reg` there is no child of the root with a `reg` whose name only starts with
"memory", unless its pair is the same. -/
def DtNodes.NoImpostor (addressCells sizeCells : Nat) : DtNodes → Prop
  | .nil => True
  | .node name props _ siblings =>
    match dtProp regName props with
    | none => siblings.NoImpostor addressCells sizeCells
    | some value =>
      if isMemory name then True
      else if memoryName <+: name then
        (siblings.reg isMemory).map (regPair addressCells sizeCells) = some (regPair addressCells sizeCells value)
      else siblings.NoImpostor addressCells sizeCells

theorem isMemory_front {name : List UInt8} (h : isMemory name = true) : memoryName <+: name := by
  have htake : name.takeWhile (· ≠ 64) = memoryName := by simpa [isMemory] using h
  rw [← htake]
  exact List.takeWhile_prefix _

theorem reg_prefix_iff (addressCells sizeCells : Nat) (nodes : DtNodes) :
    (nodes.reg memoryName.isPrefixOf).map (regPair addressCells sizeCells) =
      (nodes.reg isMemory).map (regPair addressCells sizeCells) ↔ nodes.NoImpostor addressCells sizeCells := by
  induction nodes with
  | nil => simp [DtNodes.reg, DtNodes.NoImpostor]
  | node name props children siblings _ ihs =>
    unfold DtNodes.reg DtNodes.NoImpostor
    cases hprop : dtProp regName props with
    | none => exact ihs
    | some value =>
      by_cases hmemory : isMemory name = true
      · have hfront := List.isPrefixOf_iff_prefix.mpr (isMemory_front hmemory)
        simp [hmemory, hfront]
      by_cases hfront : memoryName <+: name
      · have his := List.isPrefixOf_iff_prefix.mpr hfront
        simp [hmemory, hfront, his, eq_comm]
      · have hnot : memoryName.isPrefixOf name = false := by
          rw [← Bool.not_eq_true, List.isPrefixOf_iff_prefix]
          exact hfront
        simpa [hmemory, hfront, hnot] using ihs

/-- The function returns the memory of the tree if and only if no impostor comes first. -/
theorem dtbGetMemory_returns_iff {mem : Nat → UInt8} {dtbAddr : UInt64} {tree : DtTree} {addressCells sizeCells : Nat}
    (hflat : Flattened mem dtbAddr tree) (hwf : tree.WellFormed addressCells sizeCells) :
    ReturnsWith mem (fun fuel => dtbGetMemory fuel dtbAddr) (dtMemory addressCells sizeCells tree) ↔
      tree.children.NoImpostor addressCells sizeCells := by
  rw [← reg_prefix_iff, dtMemory]
  have hreturns := dtbGetMemory_tree hflat hwf
  constructor
  · intro h
    exact hreturns.unique h
  · intro h
    rwa [h] at hreturns

/-! ## A memory controller in front of the memory -/

/-- Header, root with its cells, "memory-controller" with `reg = <1 2>`, a NOP, "memory@3" with `reg = <3 4>`. -/
def controllerBlob : List UInt8 :=
  [0xd0, 0x0d, 0xfe, 0xed, 0, 0, 0, 211, 0, 0, 0, 40, 0, 0, 0, 180, 0, 0, 0, 0, 0, 0, 0, 17, 0, 0, 0, 16, 0, 0, 0, 0,
    0, 0, 0, 31, 0, 0, 0, 140,
    0, 0, 0, 1, 0, 0, 0, 0,
    0, 0, 0, 3, 0, 0, 0, 4, 0, 0, 0, 0, 0, 0, 0, 1, 0, 0, 0, 3, 0, 0, 0, 4, 0, 0, 0, 15, 0, 0, 0, 1,
    0, 0, 0, 1, 109, 101, 109, 111, 114, 121, 45, 99, 111, 110, 116, 114, 111, 108, 108, 101, 114, 0, 0, 0,
    0, 0, 0, 3, 0, 0, 0, 8, 0, 0, 0, 27, 0, 0, 0, 1, 0, 0, 0, 2, 0, 0, 0, 2,
    0, 0, 0, 4,
    0, 0, 0, 1, 109, 101, 109, 111, 114, 121, 64, 51, 0, 0, 0, 0,
    0, 0, 0, 3, 0, 0, 0, 8, 0, 0, 0, 27, 0, 0, 0, 3, 0, 0, 0, 4, 0, 0, 0, 2,
    0, 0, 0, 2, 0, 0, 0, 9,
    35, 97, 100, 100, 114, 101, 115, 115, 45, 99, 101, 108, 108, 115, 0,
    35, 115, 105, 122, 101, 45, 99, 101, 108, 108, 115, 0, 114, 101, 103, 0]

def controllerTree : DtTree where
  name := []
  props := [⟨addressCellsName, [0, 0, 0, 1]⟩, ⟨sizeCellsName, [0, 0, 0, 1]⟩]
  children :=
    .node (memoryName ++ [45, 99, 111, 110, 116, 114, 111, 108, 108, 101, 114])
      [⟨regName, [0, 0, 0, 1, 0, 0, 0, 2]⟩] .nil <|
    .node (memoryName ++ [64, 51]) [⟨regName, [0, 0, 0, 3, 0, 0, 0, 4]⟩] .nil .nil

def controllerTokens : List FdtToken :=
  [.beginNode [], .prop ⟨addressCellsName, [0, 0, 0, 1]⟩, .prop ⟨sizeCellsName, [0, 0, 0, 1]⟩,
    .beginNode (memoryName ++ [45, 99, 111, 110, 116, 114, 111, 108, 108, 101, 114]),
    .prop ⟨regName, [0, 0, 0, 1, 0, 0, 0, 2]⟩, .endNode, .nop, .beginNode (memoryName ++ [64, 51]),
    .prop ⟨regName, [0, 0, 0, 3, 0, 0, 0, 4]⟩, .endNode, .endNode]

theorem controllerTree_flattened : Flattened (memoryWith controllerBlob) 4096 controllerTree := by
  refine ⟨by decide, ⟨4276, 4136, 4276, 211⟩, controllerTokens, fdtViewInit_some.mp (by decide), rfl, ?_⟩
  decide

theorem controllerTree_wellFormed : controllerTree.WellFormed 1 1 where
  addressRange := by decide
  sizeRange := by decide
  names := by decide
  address := ⟨[0, 0, 0, 1], by decide⟩
  size := ⟨[0, 0, 0, 1], by decide⟩
  regs := by simp [controllerTree, DtNodes.RegsWhole]

theorem dtbGetMemory_returns_controller :
    ReturnsWith (memoryWith controllerBlob) (fun fuel => dtbGetMemory fuel 4096) (dtMemory 1 1 controllerTree) ↔
      controllerTree.children.NoImpostor 1 1 :=
  dtbGetMemory_returns_iff controllerTree_flattened controllerTree_wellFormed

/-- The function takes the controller's registers for the memory. -/
theorem controller_taken :
    Flattened (memoryWith controllerBlob) 4096 controllerTree ∧ controllerTree.WellFormed 1 1 ∧
    dtMemory 1 1 controllerTree = some ⟨3, 4⟩ ∧
    ReturnsWith (memoryWith controllerBlob) (fun fuel => dtbGetMemory fuel 4096) (some ⟨1, 2⟩) ∧
    ¬ReturnsWith (memoryWith controllerBlob) (fun fuel => dtbGetMemory fuel 4096) (dtMemory 1 1 controllerTree) := by
  have hspec : dtMemory 1 1 controllerTree = some ⟨3, 4⟩ := by decide
  have htaken : ReturnsWith (memoryWith controllerBlob) (fun fuel => dtbGetMemory fuel 4096) (some ⟨1, 2⟩) :=
    dtbGetMemory_tree controllerTree_flattened controllerTree_wellFormed
  refine ⟨controllerTree_flattened, controllerTree_wellFormed, hspec, htaken, fun h => ?_⟩
  rw [hspec] at h
  exact absurd (htaken.unique h) (by decide)

end Armonios
