import Armonios.Dtb.Reader

/-!
# What the readers of the device tree read

A program of reads ends and stays inside a set of addresses (`EndsInside`). What that is of the pieces of a reader:
words, names up to their NUL, compared names up to the first difference, the list of a `compatible` property, values.
The header of an accepted blob is inside it.
-/

namespace Armonios

open Reads

/-! ## Addresses that a program reads -/

section Inside

variable {α β : Type} (mem : Nat → UInt8) (P : UInt64 → Prop)

/-- Every address that the program reads is in `P`. -/
def Inside (m : Reads α) : Prop := ∀ pos ∈ touched mem m, P (UInt64.ofNat pos)

/-- With enough fuel the program ends, and it has read addresses in `P` only. -/
def EndsInside (f : Nat → Reads (Option α)) : Prop :=
  ∃ n r, ∀ fuel ≥ n, run mem (f fuel) = some r ∧ Inside mem P (f fuel)

/-- The character `i` of a string. -/
def charAt (a : UInt64) (i : Nat) : UInt8 := mem (a + UInt64.ofNat i).toNat

def wordAt (a : UInt64) : UInt32 := run mem (fdtBe32 a)

def WordInside (a : UInt64) : Prop := P a ∧ P (a + 1) ∧ P (a + 2) ∧ P (a + 3)

/-- The string has its NUL at `n`. -/
def StringTo (a : UInt64) (n : Nat) : Prop := charAt mem a n = 0 ∧ ∀ i < n, charAt mem a i ≠ 0

/-- The first `n` characters of the string are those of `b`. -/
def AgreesFor (a : UInt64) (b : List UInt8) (n : Nat) : Prop := ∀ i < n, b[i]? = some (charAt mem a i)

/-- The string is `b`. -/
def NameIs (a : UInt64) (b : List UInt8) : Prop := AgreesFor mem a b b.length ∧ charAt mem a b.length = 0

instance (a : UInt64) (b : List UInt8) (n : Nat) : Decidable (AgreesFor mem a b n) := by
  unfold AgreesFor; infer_instance

instance (a : UInt64) (b : List UInt8) : Decidable (NameIs mem a b) := by unfold NameIs; infer_instance

/-- The characters up to the first one in which the string is not `b` are in `P`. -/
def ComparedInside (a : UInt64) (b : List UInt8) : Prop :=
  ∀ i ≤ b.length, AgreesFor mem a b i → P (a + UInt64.ofNat i)

variable {mem P}

@[simp] theorem inside_pure (a : α) : Inside mem P (pure a) := by simp [Inside]

@[simp] theorem inside_bind (m : Reads α) (f : α → Reads β) :
    Inside mem P (m >>= f) ↔ Inside mem P m ∧ Inside mem P (f (run mem m)) := by
  unfold Inside
  rw [touched_bind]
  simp only [List.mem_append, or_imp, forall_and]

@[simp] theorem inside_byteAt (a : UInt64) : Inside mem P (byteAt a) ↔ P a := by
  simp [Inside, byteAt]

@[simp] theorem run_byteAt (a : UInt64) : run mem (byteAt a) = charAt mem a 0 := by
  simp [byteAt, charAt]

@[simp] theorem inside_andThen (c : Bool) (m : Reads Bool) :
    Inside mem P (Reads.andThen c m) ↔ (c = true → Inside mem P m) := by
  cases c <;> simp [Reads.andThen]

@[simp] theorem run_andThen (c : Bool) (m : Reads Bool) : run mem (Reads.andThen c m) = (c && run mem m) := by
  cases c <;> simp [Reads.andThen]

@[simp] theorem inside_fdtBe32 (a : UInt64) : Inside mem P (fdtBe32 a) ↔ WordInside P a := by
  simp [fdtBe32, WordInside]

@[simp] theorem run_fdtBe32 (a : UInt64) : run mem (fdtBe32 a) = wordAt mem a := by rw [wordAt]

theorem ofNat_add_one (n : Nat) : UInt64.ofNat (n + 1) = UInt64.ofNat n + 1 := UInt64.ofNat_add n 1

theorem charAt_succ (a : UInt64) (i : Nat) : charAt mem (a + 1) i = charAt mem a (i + 1) := by
  unfold charAt
  rw [ofNat_add_one, UInt64.add_assoc, UInt64.add_comm 1]

theorem charAt_add (a : UInt64) (i n : Nat) : charAt mem (a + UInt64.ofNat i) n = charAt mem a (i + n) := by
  simp [charAt, UInt64.ofNat_add, UInt64.add_assoc]

theorem add_ofNat_succ (a : UInt64) (i : Nat) : a + 1 + UInt64.ofNat i = a + UInt64.ofNat (i + 1) := by
  rw [ofNat_add_one, UInt64.add_assoc, UInt64.add_comm 1]

theorem inside_fdtReadCells (cells : UInt64) (count : Nat) (value : UInt64) :
    Inside mem P (fdtReadCells cells count value) ↔ ∀ i < count, WordInside P (cells + 4 * UInt64.ofNat i) := by
  induction count generalizing cells value with
  | zero => simp [fdtReadCells]
  | succ count ih =>
    have hnext : ∀ i, cells + 4 + 4 * UInt64.ofNat i = cells + 4 * UInt64.ofNat (i + 1) := by
      intro i
      rw [ofNat_add_one, UInt64.mul_add, UInt64.mul_one, UInt64.add_assoc, UInt64.add_comm 4]
    unfold fdtReadCells
    rw [inside_bind, inside_fdtBe32, ih, Nat.forall_lt_succ_left]
    simp only [hnext]
    simp

/-! ## Names -/

theorem agreesFor_cons (a : UInt64) (c : UInt8) (b : List UInt8) (n : Nat) :
    AgreesFor mem a (c :: b) (n + 1) ↔ charAt mem a 0 = c ∧ AgreesFor mem (a + 1) b n := by
  unfold AgreesFor
  rw [Nat.forall_lt_succ_left]
  simp only [List.getElem?_cons_zero, List.getElem?_cons_succ, charAt_succ, Option.some.injEq, eq_comm]

theorem run_fdtStreq (a : UInt64) (b : List UInt8) : run mem (fdtStreq a b) = true ↔ NameIs mem a b := by
  induction b generalizing a with
  | nil => simp [fdtStreq, NameIs, AgreesFor]
  | cons c b ih =>
    have hlen : charAt mem a (c :: b).length = charAt mem (a + 1) b.length := by
      rw [charAt_succ, List.length_cons]
    unfold fdtStreq NameIs
    rw [run_bind, run_byteAt, hlen, List.length_cons, agreesFor_cons, and_assoc]
    by_cases hc : charAt mem a 0 = c
    · rw [if_pos hc, ih]
      simp [hc, NameIs]
    · simp [hc]

theorem inside_fdtStreq (a : UInt64) (b : List UInt8) : Inside mem P (fdtStreq a b) ↔ ComparedInside mem P a b := by
  induction b generalizing a with
  | nil => simp [fdtStreq, ComparedInside, AgreesFor]
  | cons c b ih =>
    unfold fdtStreq ComparedInside
    simp only [inside_bind, inside_byteAt, run_byteAt, List.length_cons, ← Nat.lt_succ_iff]
    rw [Nat.forall_lt_succ_left]
    have hzero : (AgreesFor mem a (c :: b) 0 → P (a + UInt64.ofNat 0)) ↔ P a := by simp [AgreesFor]
    rw [hzero]
    refine and_congr_right fun _ => ?_
    by_cases hc : charAt mem a 0 = c
    · rw [if_pos hc, ih]
      unfold ComparedInside
      simp only [agreesFor_cons, hc, true_and, add_ofNat_succ, Nat.lt_succ_iff]
    · simp [agreesFor_cons, hc]

/-- A string without NULs agrees with `b` up to the NUL of `a` at most. -/
theorem AgreesFor.le {a : UInt64} {b : List UInt8} {n k : Nat} (h : AgreesFor mem a b k) (hb : 0 ∉ b)
    (hend : charAt mem a n = 0) : k ≤ n := by
  by_contra hlt
  have hn := h n (by omega)
  rw [hend] at hn
  exact hb (List.mem_of_getElem? hn)

/-- A string is at most one list without NULs. -/
theorem NameIs.unique {a : UInt64} {b b' : List UInt8} (h : NameIs mem a b) (h' : NameIs mem a b') (hb : 0 ∉ b)
    (hb' : 0 ∉ b') : b = b' := by
  have hlen : b.length = b'.length := Nat.le_antisymm (h.1.le hb h'.2) (h'.1.le hb' h.2)
  apply List.ext_getElem?
  intro i
  by_cases hi : i < b.length
  · rw [h.1 i hi, h'.1 i (by omega)]
  · rw [List.getElem?_eq_none (by omega), List.getElem?_eq_none (by omega)]

theorem run_fdtStartsWith (a : UInt64) (pre : List UInt8) :
    run mem (fdtStartsWith a pre) = true ↔ AgreesFor mem a pre pre.length := by
  induction pre generalizing a with
  | nil => simp [fdtStartsWith, AgreesFor]
  | cons c pre ih =>
    unfold fdtStartsWith
    rw [run_bind, run_byteAt, List.length_cons, agreesFor_cons]
    by_cases hc : charAt mem a 0 = c
    · rw [if_pos hc, ih]
      simp [hc]
    · simp [hc]

theorem inside_fdtStartsWith (a : UInt64) (pre : List UInt8) (h : ComparedInside mem P a pre) :
    Inside mem P (fdtStartsWith a pre) := by
  induction pre generalizing a with
  | nil => simp [fdtStartsWith]
  | cons c pre ih =>
    unfold fdtStartsWith
    rw [inside_bind, inside_byteAt, run_byteAt]
    refine ⟨by simpa using h 0 (by simp) (by simp [AgreesFor]), ?_⟩
    split
    next hc =>
      refine ih (a + 1) fun i hi hagrees => ?_
      rw [add_ofNat_succ]
      exact h (i + 1) (by simpa using hi) ((agreesFor_cons a c pre i).mpr ⟨hc, hagrees⟩)
    next => simp

variable (mem P) in
/-- The string has its NUL at `n`, and is in `P`. -/
structure NameInside (a : UInt64) (n : Nat) : Prop where
  stringTo : StringTo mem a n
  inside : ∀ i ≤ n, P (a + UInt64.ofNat i)

/-- A comparison with a string without NULs stays in the name. -/
theorem NameInside.compared {a : UInt64} {n : Nat} (h : NameInside mem P a n) {b : List UInt8} (hb : 0 ∉ b) :
    ComparedInside mem P a b :=
  fun i _ hagrees => h.inside i (hagrees.le hb h.stringTo.1)

theorem nameInside_succ {a : UInt64} {n : Nat} :
    NameInside mem P a (n + 1) ↔ P a ∧ charAt mem a 0 ≠ 0 ∧ NameInside mem P (a + 1) n := by
  constructor
  · rintro ⟨⟨hend, hchars⟩, hin⟩
    refine ⟨by simpa using hin 0 (by omega), hchars 0 (by omega), ⟨?_, ?_⟩, ?_⟩
    · rwa [charAt_succ]
    · intro i hi
      rw [charAt_succ]
      exact hchars (i + 1) (by omega)
    · intro i hi
      rw [add_ofNat_succ]
      exact hin (i + 1) (by omega)
  · rintro ⟨ha, hne, ⟨⟨hend, hchars⟩, hin⟩⟩
    refine ⟨⟨by rwa [charAt_succ] at hend, ?_⟩, ?_⟩
    · rintro (_ | i) hi
      · exact hne
      · rw [← charAt_succ]
        exact hchars i (by omega)
    · rintro (_ | i) hi
      · simpa using ha
      · rw [← add_ofNat_succ]
        exact hin i (by omega)

theorem nameInside_zero {a : UInt64} : NameInside mem P a 0 ↔ P a ∧ charAt mem a 0 = 0 := by
  constructor
  · rintro ⟨⟨hend, -⟩, hin⟩
    exact ⟨by simpa using hin 0 (by omega), hend⟩
  · rintro ⟨ha, hend⟩
    refine ⟨⟨hend, by simp⟩, ?_⟩
    intro i hi
    obtain rfl : i = 0 := by omega
    simpa using ha

theorem fdtSkipName_of_nameInside {fuel n : Nat} {a : UInt64} (h : NameInside mem P a n) (hfuel : n < fuel) :
    run mem (fdtSkipName fuel a) = some (a + UInt64.ofNat n) ∧ Inside mem P (fdtSkipName fuel a) := by
  induction n generalizing fuel a with
  | zero =>
    obtain ⟨fuel, rfl⟩ := Nat.exists_eq_add_one.mpr hfuel
    obtain ⟨ha, hend⟩ := nameInside_zero.mp h
    simp [fdtSkipName, ha, hend]
  | succ n ih =>
    obtain ⟨fuel, rfl⟩ := Nat.exists_eq_add_one.mpr (show 0 < fuel by omega)
    obtain ⟨ha, hne, hrest⟩ := nameInside_succ.mp h
    obtain ⟨hrun, hin⟩ := ih hrest (show n < fuel by omega)
    rw [add_ofNat_succ] at hrun
    simp [fdtSkipName, ha, hne, hrun, hin]

theorem nameInside_of_fdtSkipName {fuel : Nat} {a stop : UInt64} (hrun : run mem (fdtSkipName fuel a) = some stop)
    (hin : Inside mem P (fdtSkipName fuel a)) : ∃ n, NameInside mem P a n ∧ stop = a + UInt64.ofNat n := by
  induction fuel generalizing a with
  | zero => simp [fdtSkipName] at hrun
  | succ fuel ih =>
    unfold fdtSkipName at hrun hin
    rw [run_bind, run_byteAt] at hrun
    rw [inside_bind, inside_byteAt, run_byteAt] at hin
    split at hrun
    next hend =>
      refine ⟨0, nameInside_zero.mpr ⟨hin.1, hend⟩, ?_⟩
      simpa using hrun.symm
    next hne =>
      rw [if_neg hne] at hin
      obtain ⟨n, hname, hstop⟩ := ih hrun hin.2
      exact ⟨n + 1, nameInside_succ.mpr ⟨hin.1, hne, hname⟩, by rw [hstop, add_ofNat_succ]⟩

/-! ## The list of a `compatible` property -/

variable (mem) in
/-- A string of the list is `str`, and its NUL is in the first `len` bytes. -/
def ListHas (value : UInt64) (str : List UInt8) (len : Nat) : Prop :=
  ∃ start, start + str.length < len ∧ (start = 0 ∨ charAt mem value (start - 1) = 0) ∧
    NameIs mem (value + UInt64.ofNat start) str

variable (mem P) in
/-- The bytes of the list up to the end of the first string that is `str` are in `P`. -/
def CompatibleInside (value : UInt64) (str : List UInt8) (len : Nat) : Prop :=
  ∀ i < len, ¬ListHas mem value str i → P (value + UInt64.ofNat i)

/-- The string at `start` has no NUL in front of `i`. -/
theorem run_compatibleHas_from {value : UInt64} {needle : List UInt8} (hneedle : 0 ∉ needle) (left : Nat)
    {i start : Nat} (hle : start ≤ i) (hseen : ∀ j, start ≤ j → j < i → charAt mem value j ≠ 0) :
    run mem (compatibleHas value needle left (UInt64.ofNat i) (UInt64.ofNat start)) = true ↔
      ∃ b, i ≤ b + needle.length ∧ b + needle.length < i + left ∧
        (b = start ∨ i < b ∧ charAt mem value (b - 1) = 0) ∧ NameIs mem (value + UInt64.ofNat b) needle := by
  have hnul : ∀ {b}, NameIs mem (value + UInt64.ofNat b) needle → charAt mem value (b + needle.length) = 0 :=
    fun h => by rw [← charAt_add]; exact h.2
  induction left generalizing i start with
  | zero =>
    simp only [compatibleHas, run_pure, Bool.false_eq_true, false_iff]
    rintro ⟨b, hlow, hhigh, -⟩
    omega
  | succ left ih =>
    have hchar : charAt mem (value + UInt64.ofNat i) 0 = charAt mem value i := by rw [charAt_add, Nat.add_zero]
    unfold compatibleHas
    rw [run_bind, run_byteAt, hchar]
    by_cases hend : charAt mem value i = 0
    · rw [if_pos hend, run_bind]
      by_cases hname : NameIs mem (value + UInt64.ofNat start) needle
      · rw [if_pos ((run_fdtStreq _ _).mpr hname), run_pure]
        simp only [true_iff]
        -- the NUL of the name is the first one
        have hlow : i ≤ start + needle.length := by
          by_contra hlt
          exact hseen (start + needle.length) (by omega) (by omega) (hnul hname)
        have hhigh : needle.length ≤ i - start := by
          refine hname.1.le hneedle ?_
          rw [charAt_add, show start + (i - start) = i by omega, hend]
        exact ⟨start, hlow, by omega, .inl rfl, hname⟩
      · have hrest := ih (show i + 1 ≤ i + 1 from Nat.le_refl _) (by omega)
        rw [if_neg (mt (run_fdtStreq _ _).mp hname), ← ofNat_add_one]
        refine hrest.trans ⟨?_, ?_⟩
        · rintro ⟨b, hlow, hhigh, hstart, hb⟩
          refine ⟨b, by omega, by omega, .inr ?_, hb⟩
          rcases hstart with rfl | ⟨hlt, hprev⟩
          · exact ⟨by omega, hend⟩
          · exact ⟨by omega, hprev⟩
        · rintro ⟨b, hlow, hhigh, rfl | ⟨hlt, hprev⟩, hb⟩
          · exact absurd hb hname
          · refine ⟨b, by omega, by omega, ?_, hb⟩
            rcases Nat.eq_or_lt_of_le hlt with h | h
            · exact .inl h.symm
            · exact .inr ⟨h, hprev⟩
    · have hnext : ∀ j, start ≤ j → j < i + 1 → charAt mem value j ≠ 0 := by
        intro j hj hlt
        rcases Nat.lt_succ_iff_lt_or_eq.mp hlt with hlt | rfl
        · exact hseen j hj hlt
        · exact hend
      have hrest := ih (show start ≤ i + 1 by omega) hnext
      rw [if_neg hend, ← ofNat_add_one]
      refine hrest.trans ⟨?_, ?_⟩
      · rintro ⟨b, hlow, hhigh, hstart, hb⟩
        exact ⟨b, by omega, by omega, hstart.imp_right fun h => ⟨by omega, h.2⟩, hb⟩
      · rintro ⟨b, hlow, hhigh, hstart, hb⟩
        have hne : i ≠ b + needle.length := by
          rintro rfl
          exact hend (hnul hb)
        refine ⟨b, by omega, by omega, hstart.imp_right fun h => ⟨?_, h.2⟩, hb⟩
        have hprev : b ≠ i + 1 := by
          rintro rfl
          exact hend h.2
        omega

theorem run_compatibleHas {value : UInt64} {needle : List UInt8} (hneedle : 0 ∉ needle) (len : Nat) :
    run mem (compatibleHas value needle len 0 0) = true ↔ ListHas mem value needle len := by
  refine (run_compatibleHas_from hneedle len (Nat.le_refl 0) (by omega)).trans (exists_congr fun start => ?_)
  rw [Nat.zero_add]
  constructor
  · rintro ⟨-, hlen, hstart, hname⟩
    exact ⟨hlen, hstart.imp_right And.right, hname⟩
  · rintro ⟨hlen, hstart, hname⟩
    refine ⟨Nat.zero_le _, hlen, ?_, hname⟩
    rcases Nat.eq_zero_or_pos start with h | h
    · exact .inl h
    · exact .inr ⟨h, hstart.resolve_left (by omega)⟩

/-- A string is compared when its NUL has been read, so the comparison stays in what has been read. -/
theorem inside_compatibleHas_from {value : UInt64} {needle : List UInt8} (hneedle : 0 ∉ needle) (left : Nat)
    {i start : UInt64} {n : Nat} (hi : i = start + UInt64.ofNat n)
    (hseen : ∀ j < n, charAt mem (value + start) j ≠ 0 ∧ P (value + start + UInt64.ofNat j)) :
    Inside mem P (compatibleHas value needle left i start) ↔
      ∀ k < left, run mem (compatibleHas value needle k i start) = false → P (value + i + UInt64.ofNat k) := by
  induction left generalizing i start n with
  | zero => simp [compatibleHas]
  | succ left ih =>
    have hat : value + i = value + start + UInt64.ofNat n := by rw [hi, UInt64.add_assoc]
    have hchar : charAt mem (value + i) 0 = charAt mem (value + start) n := by simp [charAt, hat]
    have hnext : ∀ k, value + i + UInt64.ofNat (k + 1) = value + (i + 1) + UInt64.ofNat k := by
      intro k
      rw [← add_ofNat_succ, UInt64.add_assoc value]
    have hfirst : (run mem (compatibleHas value needle 0 i start) = false → P (value + i + UInt64.ofNat 0)) ↔
        P (value + i) := by simp [compatibleHas]
    rw [Nat.forall_lt_succ_left, hfirst]
    unfold compatibleHas
    simp only [inside_bind, inside_byteAt, run_bind, run_byteAt, hnext]
    refine and_congr_right fun hin => ?_
    by_cases hend : charAt mem (value + i) 0 = 0
    · have hname : NameInside mem P (value + start) n := by
        refine ⟨⟨by rw [← hchar, hend], fun j hj => (hseen j hj).1⟩, fun j hj => ?_⟩
        rcases Nat.lt_or_eq_of_le hj with hj | rfl
        · exact (hseen j hj).2
        · rwa [← hat]
      have hcompared : Inside mem P (fdtStreq (value + start) needle) :=
        (inside_fdtStreq _ _).mpr (hname.compared hneedle)
      rw [if_pos hend, inside_bind]
      simp only [hend, if_true, run_bind, hcompared, true_and]
      cases run mem (fdtStreq (value + start) needle) with
      | true => simp
      | false => exact ih (show i + 1 = i + 1 + UInt64.ofNat 0 by simp) (by simp)
    · rw [if_neg hend]
      simp only [hend, if_false]
      refine ih (by rw [hi, ofNat_add_one, UInt64.add_assoc]) fun j hj => ?_
      rcases Nat.lt_succ_iff_lt_or_eq.mp hj with hj | rfl
      · exact hseen j hj
      · rw [← hat, ← hchar]
        exact ⟨hend, hin⟩

theorem inside_compatibleHas {value : UInt64} {needle : List UInt8} (hneedle : 0 ∉ needle) (len : Nat) :
    Inside mem P (compatibleHas value needle len 0 0) ↔ CompatibleInside mem P value needle len := by
  rw [inside_compatibleHas_from hneedle len (show (0 : UInt64) = 0 + UInt64.ofNat 0 by simp) (by simp)]
  simp only [CompatibleInside, ← run_compatibleHas hneedle, Bool.not_eq_true, UInt64.add_zero]

/-! ## Properties -/

theorem fdtTokens_ne : fdtEndNode ≠ fdtBeginNode ∧ fdtProp ≠ fdtBeginNode ∧ fdtProp ≠ fdtEndNode ∧
    fdtNop ≠ fdtBeginNode ∧ fdtNop ≠ fdtEndNode ∧ fdtNop ≠ fdtProp := by decide

variable (mem P) in
/-- Where `c` holds, the name is compared with `str` inside `P`; `yes` if it is `str` and `g` holds, else `no`. -/
def TestInside (c : Prop) (name : UInt64) (str : List UInt8) (g yes no : Prop) : Prop :=
  (c → ComparedInside mem P name str) ∧ (c ∧ NameIs mem name str ∧ g → yes) ∧
    (¬(c ∧ NameIs mem name str ∧ g) → no)

variable (P) in
/-- The cells of the base and of the size. -/
def RegInside (value : UInt64) (addressCells sizeCells : UInt32) : Prop :=
  (∀ i < addressCells.toNat, WordInside P (value + 4 * UInt64.ofNat i)) ∧
    ∀ i < sizeCells.toNat, WordInside P (value + 4 * addressCells.toUInt64 + 4 * UInt64.ofNat i)

@[simp] theorem inside_fdtReadReg (value : UInt64) (addressCells sizeCells : UInt32) :
    Inside mem P (fdtReadReg value addressCells sizeCells) ↔ RegInside P value addressCells sizeCells := by
  simp [fdtReadReg, RegInside, inside_fdtReadCells]

theorem nameTest_iff {c : Bool} {C : Prop} (hc : c = true ↔ C) (name : UInt64) (str : List UInt8) (g : Prop)
    [Decidable g] :
    ((run mem (Reads.andThen c (fdtStreq name str)) && decide g) = true) ↔ C ∧ NameIs mem name str ∧ g := by
  rw [run_andThen, Bool.and_eq_true, Bool.and_eq_true, hc, run_fdtStreq, decide_eq_true_iff, and_assoc]

theorem run_nameTest {c : Bool} {C : Prop} (hc : c = true ↔ C) {name : UInt64} {str : List UInt8} {g : Prop}
    [Decidable g] (yes no : Reads α) (h : C ∧ NameIs mem name str ∧ g) :
    run mem (Reads.andThen c (fdtStreq name str) >>= fun found => if (found && g) = true then yes else no) =
      run mem yes := by
  rw [run_bind, if_pos ((nameTest_iff hc name str g).mpr h)]

theorem run_nameTest_not {c : Bool} {C : Prop} (hc : c = true ↔ C) {name : UInt64} {str : List UInt8} {g : Prop}
    [Decidable g] (yes no : Reads α) (h : ¬(C ∧ NameIs mem name str ∧ g)) :
    run mem (Reads.andThen c (fdtStreq name str) >>= fun found => if (found && g) = true then yes else no) =
      run mem no := by
  rw [run_bind, if_neg (mt (nameTest_iff hc name str g).mp h)]

theorem inside_test {c : Bool} {C : Prop} (hc : c = true ↔ C) (name : UInt64) (str : List UInt8) (g : Prop)
    [Decidable g] (yes no : Reads α) :
    Inside mem P (Reads.andThen c (fdtStreq name str) >>= fun found => if (found && g) = true then yes else no) ↔
      TestInside mem P C name str g (Inside mem P yes) (Inside mem P no) := by
  unfold TestInside
  rw [inside_bind, inside_andThen, inside_fdtStreq, hc]
  refine and_congr_right fun _ => ?_
  by_cases h : C ∧ NameIs mem name str ∧ g
  · rw [if_pos ((nameTest_iff hc name str g).mpr h)]
    simp [h]
  · rw [if_neg (mt (nameTest_iff hc name str g).mp h)]
    simp [h]

theorem inside_test_name {c : Bool} {C : Prop} (hc : c = true ↔ C) (name : UInt64) (str : List UInt8)
    (yes no : Reads α) :
    Inside mem P (Reads.andThen c (fdtStreq name str) >>= fun found => if found = true then yes else no) ↔
      TestInside mem P C name str True (Inside mem P yes) (Inside mem P no) := by
  rw [← inside_test hc]
  simp

theorem testInside_congr {C : Prop} {name : UInt64} {str : List UInt8} {g yes yes' no no' : Prop}
    (hyes : yes ↔ yes') (hno : no ↔ no') :
    TestInside mem P C name str g yes no ↔ TestInside mem P C name str g yes' no' := by
  rw [hyes, hno]

end Inside

/-! ## The header -/

/-- The address is one of the `totalSize` bytes from `dtbAddr` on. -/
def InBlob (dtbAddr : UInt64) (totalSize : UInt32) (a : UInt64) : Prop := (a - dtbAddr).toNat < totalSize.toNat

instance (dtbAddr : UInt64) (totalSize : UInt32) (a : UInt64) : Decidable (InBlob dtbAddr totalSize a) := by
  unfold InBlob; infer_instance

section Header

variable {mem : Nat → UInt8} {dtbAddr : UInt64} {view : FdtView}

/-- What an accepted header says. -/
structure HeaderAccepted (mem : Nat → UInt8) (dtbAddr : UInt64) (view : FdtView) : Prop where
  nonzero : dtbAddr ≠ 0
  magic : wordAt mem dtbAddr = fdtMagic
  totalSize : view.totalSize = wordAt mem (dtbAddr + 4)
  large : fdtHeaderSize ≤ view.totalSize
  structValid : fdtRangeValid (wordAt mem (dtbAddr + 8)) (wordAt mem (dtbAddr + 36)) view.totalSize = true
  stringsValid : fdtRangeValid (wordAt mem (dtbAddr + 12)) (wordAt mem (dtbAddr + 32)) view.totalSize = true
  strings : view.strings = dtbAddr + (wordAt mem (dtbAddr + 12)).toUInt64
  cursor : view.cursor = dtbAddr + (wordAt mem (dtbAddr + 8)).toUInt64
  structEnd : view.structEnd = view.cursor + (wordAt mem (dtbAddr + 36)).toUInt64

theorem fdtViewInit_some : run mem (fdtViewInit dtbAddr) = some view ↔ HeaderAccepted mem dtbAddr view := by
  by_cases hzero : dtbAddr = 0
  · have hnot : ¬HeaderAccepted mem dtbAddr view := fun h => h.nonzero hzero
    simp only [fdtViewInit, hzero, if_true, run_pure] at hnot ⊢
    simp [hnot]
  by_cases hmagic : wordAt mem dtbAddr = fdtMagic
  · constructor
    · intro h
      simp only [fdtViewInit, hzero, hmagic, if_false, run_bind, run_fdtBe32, ne_eq, not_true_eq_false] at h
      by_cases hbad : wordAt mem (dtbAddr + 4) < fdtHeaderSize ∨
          fdtRangeValid (wordAt mem (dtbAddr + 8)) (wordAt mem (dtbAddr + 36)) (wordAt mem (dtbAddr + 4)) = false ∨
          fdtRangeValid (wordAt mem (dtbAddr + 12)) (wordAt mem (dtbAddr + 32)) (wordAt mem (dtbAddr + 4)) = false
      · simp [hbad] at h
      · rw [if_neg hbad] at h
        simp only [not_or, UInt32.not_lt, Bool.not_eq_false] at hbad
        obtain ⟨hlarge, hstruct, hstrings⟩ := hbad
        obtain rfl := Option.some.inj h
        exact ⟨hzero, hmagic, rfl, hlarge, hstruct, hstrings, rfl, rfl, rfl⟩
    · rintro ⟨-, -, htotal, hlarge, hstruct, hstrings, hstringsAt, hcursor, hend⟩
      obtain ⟨strings, cursor, structEnd, totalSize⟩ := view
      simp only at htotal hlarge hstruct hstrings hstringsAt hcursor hend
      subst htotal hstringsAt hcursor hend
      simp [fdtViewInit, hzero, hmagic, UInt32.not_lt.mpr hlarge, hstruct, hstrings]
  · have hnot : ¬HeaderAccepted mem dtbAddr view := fun h => hmagic h.magic
    simp [fdtViewInit, hzero, hmagic, hnot]

/-- The header is in the blob that it declares. -/
theorem inside_fdtViewInit (h : run mem (fdtViewInit dtbAddr) = some view) :
    Inside mem (InBlob dtbAddr view.totalSize) (fdtViewInit dtbAddr) := by
  obtain h := fdtViewInit_some.mp h
  have hbyte : ∀ i : UInt64, i.toNat < 40 → InBlob dtbAddr view.totalSize (dtbAddr + i) := by
    intro i hi
    have hlarge : 40 ≤ view.totalSize.toNat := UInt32.le_iff_toNat_le.mp h.large
    have hsub : dtbAddr + i - dtbAddr = i := by rw [UInt64.add_comm, UInt64.add_sub_cancel]
    unfold InBlob
    rw [hsub]
    omega
  have hword : ∀ i : UInt64, i.toNat ≤ 36 → WordInside (InBlob dtbAddr view.totalSize) (dtbAddr + i) := by
    intro i hi
    have hnext : ∀ j : UInt64, j.toNat ≤ 3 → InBlob dtbAddr view.totalSize (dtbAddr + i + j) := by
      intro j hj
      rw [UInt64.add_assoc]
      exact hbyte _ (by rw [UInt64.toNat_add]; omega)
    exact ⟨hbyte i (by omega), hnext 1 (by decide), hnext 2 (by decide), hnext 3 (by decide)⟩
  have hfirst : WordInside (InBlob dtbAddr view.totalSize) dtbAddr := by simpa using hword 0 (by decide)
  have hwords := And.intro (hword 4 (by decide)) <| And.intro (hword 8 (by decide)) <|
    And.intro (hword 36 (by decide)) <| And.intro (hword 12 (by decide)) (hword 32 (by decide))
  simp [fdtViewInit, h.nonzero, h.magic, ← h.totalSize, UInt32.not_lt.mpr h.large, h.structValid, h.stringsValid,
    hfirst, hwords]

/-- After an accepted header, a reader stays inside if its loop does. -/
theorem endsInside_after_view {α : Type} {P : UInt64 → Prop} {f : FdtView → Nat → Reads (Option α)} {a : α}
    (hview : run mem (fdtViewInit dtbAddr) = some view) (hin : Inside mem P (fdtViewInit dtbAddr)) :
    EndsInside mem P (fun fuel => do
      match ← fdtViewInit dtbAddr with
      | none => return some a
      | some view => f view fuel) ↔ EndsInside mem P (f view) := by
  unfold EndsInside
  simp [hview, hin]

end Header

/-- Memory with a blob at 4096. -/
def memoryWith (blob : List UInt8) (pos : Nat) : UInt8 := blob.getD (pos - 4096) 0

end Armonios
