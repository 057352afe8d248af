import Armonios.Lib.Decimal

/-!
# Numbers on the console

`parse_signed` of `kernel/console.c`. A string is the list of its characters before the NUL, and a cursor is the rest of
the string from there on.

* `parseDigits_spec`: the loop over the digits;
* `parseSigned_spec`: which strings have a number, and what is left of them.
-/

namespace Armonios

/-- The loop of `parse_signed`: the value and the cursor behind the digits. -/
def parseDigits (maxAbs : UInt32) : (value : UInt32) → (s : List UInt8) → Option (UInt32 × List UInt8)
  | value, [] => some (value, [])
  | value, c :: s =>
    if IsDigit c then
      let digit := (c - 48).toUInt32
      if (maxAbs - digit) / 10 < value then none else parseDigits maxAbs (value * 10 + digit) s
    else some (value, c :: s)

/-- The sums `value * 10U + digit` that the loop computes, as whole numbers. -/
def digitSums (maxAbs : UInt32) : (value : UInt32) → (s : List UInt8) → List Nat
  | _, [] => []
  | value, c :: s =>
    if IsDigit c then
      let digit := (c - 48).toUInt32
      if (maxAbs - digit) / 10 < value then []
      else (value.toNat * 10 + digit.toNat) :: digitSums maxAbs (value * 10 + digit) s
    else []

/-- What the call returns, and what it leaves in `*cursor` and `*out`. -/
structure ParseResult where
  result : Int32
  cursor : List UInt8
  out : Int32
  deriving DecidableEq

/-- The sign of the number, and the limit of its digits. -/
def parseSign (cursor : List UInt8) : Bool × UInt32 × List UInt8 :=
  if cursor.head? = some 45 then (true, 2147483648, cursor.tail) else (false, 2147483647, cursor)

def parseSigned (cursor : List UInt8) (out : Int32) : ParseResult :=
  let (negative, maxAbs, s) := parseSign cursor
  if s.head?.all (fun c => ¬ IsDigit c) then ⟨-1, cursor, out⟩
  else
    match parseDigits maxAbs 0 s with
    | none => ⟨-1, cursor, out⟩
    | some (value, s) =>
      if negative ∧ value = 2147483648 then ⟨0, s, Int32.minValue⟩
      else ⟨0, s, if negative then -value.toInt32 else value.toInt32⟩

variable {c : UInt8} {s run rest cursor : List UInt8} {value maxAbs : UInt32} {v : Int} {out : Int32}

/-! ## The digits -/

theorem digit_toNat (h : IsDigit c) : (c - 48).toUInt32.toNat = digitValue c ∧ digitValue c ≤ 9 := by
  have hc := h.toNat
  rw [UInt8.toNat_toUInt32, UInt8.toNat_sub_of_le _ _ h.1, digitValue]
  exact ⟨rfl, by omega⟩

/-- The guard lets exactly those digits through with which the value is within the limit. -/
theorem guard_iff (hmax : 9 ≤ maxAbs.toNat) (h : IsDigit c) :
    (maxAbs - (c - 48).toUInt32) / 10 < value ↔ maxAbs.toNat < value.toNat * 10 + digitValue c := by
  obtain ⟨hdigit, hle⟩ := digit_toNat h
  have hsub : (maxAbs - (c - 48).toUInt32).toNat = maxAbs.toNat - digitValue c := by
    rw [UInt32.toNat_sub_of_le, hdigit]
    rw [UInt32.le_iff_toNat_le, hdigit]
    omega
  rw [UInt32.lt_iff_toNat_lt, UInt32.toNat_div, hsub]
  show (maxAbs.toNat - digitValue c) / 10 < value.toNat ↔ _
  omega

theorem step_toNat (h : IsDigit c) (hlt : value.toNat * 10 + digitValue c < 4294967296) :
    (value * 10 + (c - 48).toUInt32).toNat = value.toNat * 10 + digitValue c := by
  obtain ⟨hdigit, -⟩ := digit_toNat h
  rw [UInt32.toNat_add, UInt32.toNat_mul, hdigit]
  show (value.toNat * 10 % 4294967296 + digitValue c) % 4294967296 = _
  omega

/-- The value of digits after those that have the value `v`. -/
def valueFrom (v : Nat) (s : List UInt8) : Nat := s.foldl (fun value c => value * 10 + digitValue c) v

theorem le_valueFrom (v : Nat) (s : List UInt8) : v ≤ valueFrom v s := by
  induction s generalizing v with
  | nil => exact Nat.le_refl v
  | cons c s ih => exact Nat.le_trans (by omega) (ih (v * 10 + digitValue c))

theorem parseDigits_spec (hmax : 9 ≤ maxAbs.toNat) (hrun : ∀ c ∈ run, IsDigit c)
    (hrest : ∀ c ∈ rest.head?, ¬ IsDigit c) :
    parseDigits maxAbs value (run ++ rest) =
      if valueFrom value.toNat run ≤ maxAbs.toNat ∨ run = [] then
        some (UInt32.ofNat (valueFrom value.toNat run), rest)
      else none := by
  induction run generalizing value with
  | nil =>
    rw [List.nil_append, if_pos (.inr rfl)]
    cases rest with
    | nil => simp [parseDigits, valueFrom]
    | cons c rest =>
      rw [parseDigits, if_neg (hrest c rfl)]
      simp [valueFrom]
  | cons c run ih =>
    obtain ⟨hc, hrun⟩ := List.forall_mem_cons.mp hrun
    rw [List.cons_append, parseDigits, if_pos hc]
    dsimp only
    by_cases hlarge : maxAbs.toNat < value.toNat * 10 + digitValue c
    · rw [if_pos ((guard_iff hmax hc).mpr hlarge), if_neg]
      rintro (hle | hnil)
      · exact absurd (Nat.le_trans (le_valueFrom _ run) hle) (Nat.not_le.mpr hlarge)
      · cases hnil
    · have hstep := step_toNat hc (Nat.lt_of_le_of_lt (Nat.le_of_not_lt hlarge) maxAbs.toNat_lt)
      rw [if_neg fun h => hlarge ((guard_iff hmax hc).mp h), ih hrun, hstep]
      congr 1
      simp only [valueFrom, List.foldl_cons, eq_iff_iff, reduceCtorEq, or_false, or_iff_left_iff_imp]
      rintro rfl
      exact Nat.le_of_not_lt hlarge

theorem digitSums_le (hmax : 9 ≤ maxAbs.toNat) : ∀ n ∈ digitSums maxAbs value s, n ≤ maxAbs.toNat := by
  induction s generalizing value with
  | nil => simp [digitSums]
  | cons c s ih =>
    rw [digitSums]
    split
    · rename_i hc
      dsimp only
      split
      · simp
      · rename_i hguard
        refine List.forall_mem_cons.mpr ⟨?_, ih⟩
        rw [guard_iff hmax hc] at hguard
        rw [(digit_toNat hc).1]
        exact Nat.le_of_not_lt hguard
    · simp

/-! ## The number -/

/-- The string starts with the number `v`, and `rest` is behind its digits. -/
def SignedNumber (s rest : List UInt8) (v : Int) : Prop :=
  ∃ run, run ≠ [] ∧ (∀ c ∈ run, IsDigit c) ∧ (∀ c ∈ rest.head?, ¬ IsDigit c) ∧
    ((s = run ++ rest ∧ v = decimalValue run) ∨ (s = 45 :: (run ++ rest) ∧ v = -decimalValue run))

/-- The digits of a string, and what is behind them. -/
theorem digits_split (s : List UInt8) :
    ∃ run rest, s = run ++ rest ∧ (∀ c ∈ run, IsDigit c) ∧ ∀ c ∈ rest.head?, ¬ IsDigit c := by
  induction s with
  | nil => exact ⟨[], [], rfl, by simp, by simp⟩
  | cons c s ih =>
    by_cases hc : IsDigit c
    · obtain ⟨run, rest, rfl, hrun, hrest⟩ := ih
      exact ⟨c :: run, rest, rfl, List.forall_mem_cons.mpr ⟨hc, hrun⟩, hrest⟩
    · exact ⟨[], c :: s, rfl, by simp, by simpa using hc⟩

theorem parseSign_digits (hne : run ≠ []) (hrun : ∀ c ∈ run, IsDigit c) (rest : List UInt8) :
    parseSign (run ++ rest) = (false, 2147483647, run ++ rest) := by
  obtain ⟨c, run, rfl⟩ := List.exists_cons_of_ne_nil hne
  refine if_neg fun h => ?_
  have hc := hrun c (by simp)
  rw [Option.some.inj h] at hc
  exact absurd hc (by decide)

/-- The number is digits behind the sign. -/
theorem parseSigned_digits {negative : Bool} (hsign : parseSign cursor = (negative, maxAbs, run ++ rest))
    (hne : run ≠ []) (hmax : 9 ≤ maxAbs.toNat) (hrun : ∀ c ∈ run, IsDigit c) (hrest : ∀ c ∈ rest.head?, ¬ IsDigit c) :
    parseSigned cursor out =
      if decimalValue run ≤ maxAbs.toNat then
        if negative ∧ UInt32.ofNat (decimalValue run) = 2147483648 then ⟨0, rest, Int32.minValue⟩
        else ⟨0, rest, if negative then -Int32.ofNat (decimalValue run) else Int32.ofNat (decimalValue run)⟩
      else ⟨-1, cursor, out⟩ := by
  have hdigit : ¬ (run ++ rest).head?.all (fun c => ¬ IsDigit c) := by
    obtain ⟨c, run, rfl⟩ := List.exists_cons_of_ne_nil hne
    simpa using hrun c (by simp)
  have hloop : parseDigits maxAbs 0 (run ++ rest) =
      if decimalValue run ≤ maxAbs.toNat ∨ run = [] then some (UInt32.ofNat (decimalValue run), rest) else none :=
    parseDigits_spec hmax hrun hrest
  unfold parseSigned
  rw [hsign]
  dsimp only
  rw [if_neg hdigit]
  by_cases hle : decimalValue run ≤ maxAbs.toNat
  · rw [if_pos (.inl hle)] at hloop
    rw [hloop, if_pos hle]
    rfl
  · rw [if_neg (not_or.mpr ⟨hle, hne⟩)] at hloop
    rw [hloop, if_neg hle]

theorem parseSigned_number (h : SignedNumber s rest v) (out : Int32) :
    parseSigned s out = if -2147483648 ≤ v ∧ v ≤ 2147483647 then ⟨0, rest, Int32.ofInt v⟩ else ⟨-1, s, out⟩ := by
  obtain ⟨run, hne, hrun, hrest, ⟨rfl, rfl⟩ | ⟨rfl, rfl⟩⟩ := h
  · rw [parseSigned_digits (parseSign_digits hne hrun rest) hne (by decide) hrun hrest]
    by_cases hle : decimalValue run ≤ 2147483647
    · have hfits : -2147483648 ≤ (decimalValue run : Int) ∧ (decimalValue run : Int) ≤ 2147483647 := by omega
      rw [if_pos hfits]
      exact (if_pos hle).trans (if_neg (by simp))
    · have hlarge : ¬ (-2147483648 ≤ (decimalValue run : Int) ∧ (decimalValue run : Int) ≤ 2147483647) := by omega
      rw [if_neg hlarge]
      exact if_neg hle
  · rw [parseSigned_digits (rfl : parseSign (45 :: (run ++ rest)) = (true, 2147483648, run ++ rest)) hne
    (by decide) hrun hrest]
    by_cases hle : decimalValue run ≤ 2147483648
    · have hfits : -2147483648 ≤ (-decimalValue run : Int) ∧ (-decimalValue run : Int) ≤ 2147483647 := by omega
      rw [if_pos hfits]
      refine (if_pos hle).trans ?_
      by_cases hmin : UInt32.ofNat (decimalValue run) = 2147483648
      · have hvalue := congrArg UInt32.toNat hmin
        rw [UInt32.toNat_ofNat_of_lt' (Nat.lt_of_le_of_lt hle (by decide))] at hvalue
        rw [if_pos ⟨rfl, hmin⟩, hvalue]
        rfl
      · rw [if_neg fun h => hmin h.2, if_pos rfl, Int32.neg_ofNat]
    · have hlarge : ¬ (-2147483648 ≤ (-decimalValue run : Int) ∧ (-decimalValue run : Int) ≤ 2147483647) := by omega
      rw [if_neg hlarge]
      exact if_neg hle

/-- A string that starts with no number is left alone. -/
theorem parseSigned_other (h : ∀ rest v, ¬ SignedNumber s rest v) (out : Int32) : parseSigned s out = ⟨-1, s, out⟩ := by
  have hnone : (parseSign s).2.2.head?.all (fun c => ¬ IsDigit c) = true := by
    by_contra hdigit
    obtain ⟨run, rest, hsplit, hrun, hrest⟩ := digits_split (parseSign s).2.2
    have hne : run ≠ [] := by
      rintro rfl
      rw [hsplit, List.nil_append] at hdigit
      refine hdigit ?_
      cases rest with
      | nil => rfl
      | cons c rest => simpa using hrest
    unfold parseSign at hsplit
    split at hsplit
    · rename_i hsign
      obtain ⟨t, rfl⟩ := List.head?_eq_some_iff.mp hsign
      exact h rest _ ⟨run, hne, hrun, hrest, .inr ⟨congrArg (45 :: ·) hsplit, rfl⟩⟩
    · exact h rest _ ⟨run, hne, hrun, hrest, .inl ⟨hsplit, rfl⟩⟩
  unfold parseSigned
  dsimp only
  rw [if_pos hnone]

/-- What a call does with any string. -/
structure ParsesSigned (s : List UInt8) (out : Int32) : Prop where
  succeeds : (parseSigned s out).result = 0 ↔ ∃ rest v, SignedNumber s rest v ∧ -2147483648 ≤ v ∧ v ≤ 2147483647
  value : (parseSigned s out).result = 0 → ∀ rest v, SignedNumber s rest v →
    (parseSigned s out).cursor = rest ∧ (parseSigned s out).out.toInt = v
  failure : (parseSigned s out).result ≠ 0 → parseSigned s out = ⟨-1, s, out⟩
  sums : ∀ n ∈ digitSums (parseSign s).2.1 0 (parseSign s).2.2, n < 2 ^ 32

theorem parseSigned_spec (s : List UInt8) (out : Int32) : ParsesSigned s out := by
  have hfail : (-1 : Int32) ≠ 0 := by decide
  have hsums : ∀ n ∈ digitSums (parseSign s).2.1 0 (parseSign s).2.2, n < 2 ^ 32 := by
    intro n hn
    have hmax : 9 ≤ (parseSign s).2.1.toNat := by
      unfold parseSign
      split
      · exact (by decide : 9 ≤ (2147483648 : UInt32).toNat)
      · exact (by decide : 9 ≤ (2147483647 : UInt32).toNat)
    exact Nat.lt_of_le_of_lt (digitSums_le hmax n hn) (UInt32.toNat_lt _)
  by_cases hnumber : ∃ rest v, SignedNumber s rest v
  · obtain ⟨rest, v, h⟩ := hnumber
    have hall : ∀ rest v, SignedNumber s rest v →
        parseSigned s out = if -2147483648 ≤ v ∧ v ≤ 2147483647 then ⟨0, rest, Int32.ofInt v⟩ else ⟨-1, s, out⟩ :=
      fun rest v h => parseSigned_number h out
    have hrun := hall rest v h
    by_cases hfits : -2147483648 ≤ v ∧ v ≤ 2147483647
    · rw [if_pos hfits] at hrun
      refine ⟨?_, fun hzero rest' v' h' => ?_, fun hne => ?_, hsums⟩
      · rw [hrun]
        exact ⟨fun _ => ⟨rest, v, h, hfits⟩, fun _ => rfl⟩
      · have hrun' := hall rest' v' h'
        by_cases hfits' : -2147483648 ≤ v' ∧ v' ≤ 2147483647
        · rw [if_pos hfits'] at hrun'
          rw [hrun']
          exact ⟨rfl, Int32.toInt_ofInt_of_le hfits'.1 (by omega)⟩
        · rw [if_neg hfits'] at hrun'
          rw [hrun'] at hzero
          exact absurd hzero hfail
      · rw [hrun] at hne
        exact absurd rfl hne
    · rw [if_neg hfits] at hrun
      refine ⟨?_, fun hzero => ?_, fun _ => hrun, hsums⟩
      · rw [hrun]
        refine ⟨fun h => absurd h hfail, fun ⟨rest', v', h', hfits'⟩ => ?_⟩
        have hrun' := hall rest' v' h'
        rw [hrun, if_pos hfits'] at hrun'
        exact absurd (congrArg ParseResult.result hrun') hfail
      · rw [hrun] at hzero
        exact absurd hzero hfail
  · have hrun := parseSigned_other (fun rest v h => hnumber ⟨rest, v, h⟩) out
    refine ⟨?_, fun _ rest v h => absurd ⟨rest, v, h⟩ hnumber, fun _ => hrun, hsums⟩
    rw [hrun]
    exact ⟨fun h => absurd h hfail, fun ⟨rest, v, h, _⟩ => absurd ⟨rest, v, h⟩ hnumber⟩

end Armonios
