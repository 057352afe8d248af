import Armonios.Fat32.Name

/-!
# The names of the file manager

`valid_83_name` of `programs/apps/files.c` beside `make_short_name` of `kernel/fat32.c`, both with `char` signed or
unsigned. A character is the value that C gives it in a comparison.

* `makeShortNameChar_unsigned`: without signed characters this is `makeShortName`;
* `valid83Name_iff`: the two accept the same names.
-/

namespace Armonios

/-- The value of a `char`. -/
def charValue (isSigned : Bool) (c : UInt8) : Int := if isSigned = true ∧ 128 ≤ c.toNat then c.toNat - 256 else c.toNat

/-- `ascii_upper` on the value of a character. -/
def upperValue (c : Int) : Int := if 97 ≤ c ∧ c ≤ 122 then c - 32 else c

/-- The characters that both functions refuse, the slash apart. -/
def badValue (c : Int) : Bool :=
  c ≤ 32 || c = 34 || c = 42 || c = 43 || c = 44 || c = 58 || c = 59 || c = 60 || c = 61 || c = 62 || c = 63 || c = 91 ||
    c = 92 || c = 93 || c = 124

/-! ## The kernel -/

/-- A round of `make_short_name`. -/
def NameState.pushChar (isSigned : Bool) (st : NameState) (ch : UInt8) : Option NameState :=
  let c := upperValue (charValue isSigned ch)
  if c = 47 then none
  else if c = 46 then
    if st.inExt || st.base = 0 then none else some { st with inExt := true }
  else if badValue c then none
  else if st.inExt then
    if 3 ≤ st.ext then none
    else some { st with out := st.out.set (8 + st.ext) (UInt8.ofInt c), ext := st.ext + 1 }
  else if 8 ≤ st.base then none
  else some { st with out := st.out.set st.base (UInt8.ofInt c), base := st.base + 1 }

/-- `make_short_name` with the given `char`. -/
def makeShortNameChar (isSigned : Bool) (name : List UInt8) : Option (List UInt8) := do
  let chars ← dropSlash name
  let st ← chars.foldlM (NameState.pushChar isSigned) NameState.init
  if st.base = 0 ∨ (st.inExt = true ∧ st.ext = 0) then none else some st.out

theorem upperValue_unsigned (ch : UInt8) : upperValue (charValue false ch) = ((asciiUpper ch).toNat : Int) := by
  have hvalue : charValue false ch = (ch.toNat : Int) := if_neg (by simp)
  have h32 : (32 : UInt8).toNat = 32 := rfl
  rw [hvalue]
  unfold upperValue asciiUpper
  simp only [UInt8.le_iff_toNat_le, UInt8.reduceToNat]
  by_cases h : 97 ≤ ch.toNat ∧ ch.toNat ≤ 122
  · have hle : (32 : UInt8) ≤ ch := UInt8.le_iff_toNat_le.mpr (by rw [h32]; omega)
    rw [if_pos h, if_pos (by omega), UInt8.toNat_sub_of_le _ _ hle, h32]
    omega
  · rw [if_neg h, if_neg (by omega)]

theorem natCast_eq_iff (c : UInt8) (k : UInt8) : ((c.toNat : Int) = (k.toNat : Int)) ↔ c = k := by
  rw [Int.natCast_inj]
  exact UInt8.toNat_inj

theorem badValue_unsigned (c : UInt8) : badValue (c.toNat : Int) = badNameChar c := by
  have heq (k : UInt8) : ((c.toNat : Int) = (k.toNat : Int)) ↔ c = k := natCast_eq_iff c k
  have hle : ((c.toNat : Int) ≤ 32) ↔ c ≤ 32 := by
    rw [UInt8.le_iff_toNat_le, show (32 : UInt8).toNat = 32 from rfl]
    omega
  unfold badValue badNameChar
  simp only [hle, ← heq]
  rfl

/-- On the machine, where `char` is unsigned, this is `makeShortName`. -/
theorem makeShortNameChar_unsigned (name : List UInt8) : makeShortNameChar false name = makeShortName name := by
  have hpush : NameState.pushChar false = NameState.push := by
    funext st ch
    unfold NameState.pushChar NameState.push
    dsimp only
    rw [upperValue_unsigned, badValue_unsigned]
    have h47 : ((asciiUpper ch).toNat : Int) = 47 ↔ asciiUpper ch = 47 := natCast_eq_iff _ 47
    have h46 : ((asciiUpper ch).toNat : Int) = 46 ↔ asciiUpper ch = 46 := natCast_eq_iff _ 46
    have hback : UInt8.ofInt ((asciiUpper ch).toNat : Int) = asciiUpper ch := by
      have hmod : ((asciiUpper ch).toNat : Int) % 2 ^ 8 = ((asciiUpper ch).toNat : Int) := by
        have := (asciiUpper ch).toNat_lt
        omega
      rw [UInt8.ofInt, hmod, Int.toNat_natCast, UInt8.ofNat_toNat]
    simp only [h47, h46, hback]
  unfold makeShortNameChar makeShortName
  rw [hpush]

/-! ## The file manager -/

def isBad83Char (c : Int) : Bool := badValue c || c = 47

/-- The local variables of `valid_83_name`. -/
structure Valid83 where
  base : Nat
  ext : Nat
  inExt : Bool

/-- A round of the loop; `none` is its `return 0`. -/
def Valid83.push (isSigned : Bool) (st : Valid83) (ch : UInt8) : Option Valid83 :=
  let c := charValue isSigned ch
  if c = 46 then
    if st.inExt = true ∨ st.base = 0 then none else some { st with inExt := true }
  else if isBad83Char c then none
  else if st.inExt = false then
    if 8 < st.base + 1 then none else some { st with base := st.base + 1 }
  else if 3 < st.ext + 1 then none
  else some { st with ext := st.ext + 1 }

def valid83Name (isSigned : Bool) (name : List UInt8) : Bool :=
  if name = [] then false
  else
    match name.foldlM (Valid83.push isSigned) ⟨0, 0, false⟩ with
    | none => false
    | some st => 0 < st.base && (!st.inExt || 0 < st.ext)

/-! ## The comparison -/

variable {isSigned : Bool} {name : List UInt8}

/-- The counters that the two loops share. -/
def NameState.counters (st : NameState) : Valid83 := ⟨st.base, st.ext, st.inExt⟩

/-- Upper case does not change what a character is for the loops. -/
theorem upperValue_eq {c k : Int} (hk : k < 65 ∨ 122 < k) : upperValue c = k ↔ c = k := by
  unfold upperValue
  split <;> omega

theorem badValue_letter {c : Int} (h : (65 ≤ c ∧ c ≤ 90) ∨ (97 ≤ c ∧ c ≤ 122)) : badValue c = false := by
  simp only [badValue, Bool.or_eq_false_iff, decide_eq_false_iff_not]
  omega

theorem badValue_upper (c : Int) : badValue (upperValue c) = badValue c := by
  unfold upperValue
  split
  · rw [badValue_letter (by omega), badValue_letter (by omega)]
  · rfl

/-- One round of the two loops. -/
theorem push_counters (st : NameState) (ch : UInt8) :
    (st.pushChar isSigned ch).map NameState.counters = st.counters.push isSigned ch := by
  unfold NameState.pushChar Valid83.push isBad83Char
  dsimp only
  rw [badValue_upper]
  have hdot : upperValue (charValue isSigned ch) = 46 ↔ charValue isSigned ch = 46 := upperValue_eq (by omega)
  have hslash : upperValue (charValue isSigned ch) = 47 ↔ charValue isSigned ch = 47 := upperValue_eq (by omega)
  simp only [hdot, hslash, Nat.lt_add_one_iff]
  generalize charValue isSigned ch = c
  by_cases h47 : c = 47
  · subst h47
    rfl
  by_cases h46 : c = 46
  · subst h46
    by_cases hext : st.inExt = true ∨ st.base = 0
    · simp [NameState.counters, hext]
    · simp [NameState.counters, hext]
  by_cases hbad : badValue c = true
  · simp [h47, h46, hbad]
  cases hin : st.inExt with
  | true =>
    by_cases hfull : 3 ≤ st.ext
    · simp [h47, h46, hbad, NameState.counters, hin, hfull]
    · simp [h47, h46, hbad, NameState.counters, hin, hfull]
  | false =>
    by_cases hfull : 8 ≤ st.base
    · simp [h47, h46, hbad, NameState.counters, hin, hfull]
    · simp [h47, h46, hbad, NameState.counters, hin, hfull]

theorem fold_counters (chars : List UInt8) (st : NameState) :
    (chars.foldlM (NameState.pushChar isSigned) st).map NameState.counters =
      chars.foldlM (Valid83.push isSigned) st.counters := by
  induction chars generalizing st with
  | nil => rfl
  | cons ch chars ih =>
    rw [List.foldlM_cons, List.foldlM_cons, ← push_counters]
    cases st.pushChar isSigned ch with
    | none => rfl
    | some st' => exact ih st'

/-- The file manager and the kernel accept the same names. -/
theorem valid83Name_iff (isSigned : Bool) (name : List UInt8) (hslash : name.head? ≠ some 47) :
    valid83Name isSigned name = true ↔ (makeShortNameChar isSigned name).isSome = true := by
  cases name with
  | nil => simp [valid83Name, makeShortNameChar, dropSlash]
  | cons c rest =>
    have hdrop : dropSlash (c :: rest) = some (c :: rest) := by
      unfold dropSlash
      split
      · contradiction
      · rename_i h
        rw [h] at hslash
        exact absurd rfl hslash
      · rename_i h
        rw [h] at hslash
        exact absurd rfl hslash
      · rfl
    have hfold := @fold_counters isSigned (c :: rest) NameState.init
    unfold valid83Name makeShortNameChar
    rw [hdrop, if_neg (List.cons_ne_nil c rest)]
    show _ ↔ (Option.bind (List.foldlM (NameState.pushChar isSigned) NameState.init (c :: rest)) _).isSome = true
    rw [show (⟨0, 0, false⟩ : Valid83) = NameState.init.counters from rfl, ← hfold]
    cases List.foldlM (NameState.pushChar isSigned) NameState.init (c :: rest) with
    | none => simp
    | some st =>
      rw [Option.map_some, Option.bind_some]
      dsimp only [NameState.counters]
      by_cases hbase : st.base = 0
      · simp [hbase]
      · cases hin : st.inExt with
        | false => simp [hbase, Nat.pos_of_ne_zero hbase]
        | true =>
          by_cases hext : st.ext = 0
          · simp [hbase, hext]
          · simp [hbase, hext, Nat.pos_of_ne_zero]

theorem valid83Name_iff_note : valid83Name true [78, 111, 116, 101] = true ↔
    (makeShortNameChar true [78, 111, 116, 101]).isSome = true :=
  valid83Name_iff true _ (by decide)

end Armonios
