import Armonios.Fat32.Device

/-!
# Short names

`make_short_name` turns a C string into the eleven bytes of an 8.3 directory name: upper case, the
base in the first eight bytes, the extension in the last three, spaces in between. A string is
given by its bytes before the terminating NUL; `char` is unsigned on AArch64.

* `makeShortName_ok`: an accepted name has eleven bytes, and the first one is no end mark.
-/

namespace Armonios

/-- `ascii_upper`. -/
def asciiUpper (c : UInt8) : UInt8 := if 97 ≤ c ∧ c ≤ 122 then c - 32 else c

/-- The characters that `make_short_name` refuses, after upper-casing: everything up to the space
and `"*+,:;<=>?[\]|`. -/
def badNameChar (c : UInt8) : Bool :=
  c ≤ 32 || c = 34 || c = 42 || c = 43 || c = 44 || c = 58 || c = 59 || c = 60 || c = 61 || c = 62 ||
    c = 63 || c = 91 || c = 92 || c = 93 || c = 124

/-- The local variables of `make_short_name`: the buffer, the counters and the flag. -/
structure NameState where
  out : List UInt8
  base : Nat
  ext : Nat
  inExt : Bool

/-- `clear_short_name` and the initial counters. -/
def NameState.init : NameState := ⟨List.replicate 11 32, 0, 0, false⟩

/-- One round of the loop of `make_short_name`; `none` is its `return -1`. -/
def NameState.push (st : NameState) (ch : UInt8) : Option NameState :=
  let c := asciiUpper ch
  if c = 47 then none
  else if c = 46 then
    if st.inExt || st.base = 0 then none else some { st with inExt := true }
  else if badNameChar c then none
  else if st.inExt then
    if 3 ≤ st.ext then none
    else some { st with out := st.out.set (8 + st.ext) c, ext := st.ext + 1 }
  else if 8 ≤ st.base then none
  else some { st with out := st.out.set st.base c, base := st.base + 1 }

/-- The string after an optional leading slash; `none` where nothing is left. -/
def dropSlash (name : List UInt8) : Option (List UInt8) :=
  match name with
  | [] => none
  | [47] => none
  | 47 :: rest => some rest
  | _ => some name

/-- `make_short_name`. -/
def makeShortName (name : List UInt8) : Option (List UInt8) := do
  let chars ← dropSlash name
  let st ← chars.foldlM NameState.push NameState.init
  if st.base = 0 ∨ (st.inExt = true ∧ st.ext = 0) then none else some st.out

/-- The buffer keeps its length, and once a base character is in it the first byte is above the
space. -/
private def NameState.Good (st : NameState) : Prop :=
  st.out.length = 11 ∧ (0 < st.base → 32 < st.out.getD 0 0) ∧ (st.inExt = true → 0 < st.base)

private theorem NameState.push_good {st st' : NameState} {ch : UInt8} (hg : st.Good)
    (h : st.push ch = some st') : st'.Good := by
  obtain ⟨hlen, hfirst, hext⟩ := hg
  unfold push at h
  simp only [] at h
  generalize asciiUpper ch = c at h
  split at h
  · cases h
  split at h
  · split at h
    · cases h
    · rename_i hb
      simp only [Bool.or_eq_true, decide_eq_true_eq, not_or] at hb
      cases h
      exact ⟨hlen, hfirst, fun _ => Nat.pos_of_ne_zero hb.2⟩
  split at h
  · cases h
  rename_i hbad
  have hc : 32 < c := by
    simp only [badNameChar, Bool.or_eq_true, decide_eq_true_eq, not_or] at hbad
    exact UInt8.not_le.mp (by tauto)
  split at h
  · rename_i hin
    split at h
    · cases h
    · cases h
      refine ⟨by simpa using hlen, fun hb => ?_, hext⟩
      have := hfirst hb
      simpa [List.getD_eq_getElem?_getD, List.getElem?_set] using this
  · split at h
    · cases h
    · cases h
      refine ⟨by simpa using hlen, fun _ => ?_, fun _ => Nat.succ_pos _⟩
      by_cases h0 : st.base = 0
      · simp [List.getD_eq_getElem?_getD, h0, hlen, hc]
      · have := hfirst (by omega)
        simpa [List.getD_eq_getElem?_getD, List.getElem?_set, h0] using this

private theorem NameState.fold_good {chars : List UInt8} {st st' : NameState} (hg : st.Good)
    (h : chars.foldlM NameState.push st = some st') : st'.Good := by
  induction chars generalizing st with
  | nil => cases h; exact hg
  | cons c cs ih =>
    rw [List.foldlM_cons] at h
    obtain ⟨st1, h1, h2⟩ := Option.bind_eq_some_iff.mp h
    exact ih (push_good hg h1) h2

theorem makeShortName_ok {name short : List UInt8} (h : makeShortName name = some short) :
    short.length = 11 ∧ short.getD 0 0 ≠ 0 := by
  unfold makeShortName at h
  obtain ⟨chars, -, h⟩ := Option.bind_eq_some_iff.mp h
  obtain ⟨st, hst, h⟩ := Option.bind_eq_some_iff.mp h
  have hg : NameState.init.Good := by simp [NameState.Good, NameState.init]
  obtain ⟨hlen, hfirst, -⟩ := NameState.fold_good hg hst
  split at h
  · cases h
  · rename_i hb
    cases h
    refine ⟨hlen, fun h0 => ?_⟩
    have := hfirst (by omega)
    rw [h0] at this
    exact absurd this (by decide)

end Armonios
