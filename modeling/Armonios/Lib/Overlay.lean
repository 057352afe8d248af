import Mathlib.Data.List.Basic
import Mathlib.Algebra.Ring.Nat
import Mathlib.Tactic.Common

/-!
# Overwriting a part of a list

`overlay k new old`: the list `old` with the items from position `k` on replaced by those of `new`.
The length stays; items of `new` past the end are dropped. This is what a write to a buffer of a
fixed length does.

* `overlay_append`, `overlay_append_skip`: a write to a buffer made of two parts;
* `take_overlay`: what stands before the end of the write.
-/

namespace Armonios

variable {α : Type}

/-- `old` with `new` written at position `k`. -/
def overlay (k : Nat) (new old : List α) : List α :=
  old.take k ++ (new.take (old.length - k) ++ old.drop (k + new.length))

theorem getElem?_overlay (k : Nat) (new old : List α) (i : Nat) :
    (overlay k new old)[i]? =
      if k ≤ i ∧ i < k + new.length ∧ i < old.length then new[i - k]? else old[i]? := by
  unfold overlay
  by_cases hk : i < k
  · rw [if_neg (by omega)]
    by_cases hi : i < old.length
    · rw [List.getElem?_append_left (by simp; omega), List.getElem?_take_of_lt hk]
    · rw [List.getElem?_eq_none (by simp; omega), List.getElem?_eq_none (by omega)]
  · have hk' : k ≤ i := by omega
    rw [List.getElem?_append_right (by simp; omega)]
    by_cases hi : i < old.length
    · have e : i - (List.take k old).length = i - k := by simp; omega
      rw [e]
      by_cases hn : i < k + new.length
      · rw [if_pos ⟨hk', hn, hi⟩, List.getElem?_append_left (by simp; omega),
          List.getElem?_take_of_lt (by omega)]
      · rw [if_neg (by omega), List.getElem?_append_right (by simp; omega), List.getElem?_drop]
        congr 1
        simp
        omega
    · rw [if_neg (by omega), List.getElem?_eq_none (by simp; omega), List.getElem?_eq_none (by omega)]

@[simp] theorem length_overlay (k : Nat) (new old : List α) :
    (overlay k new old).length = old.length := by
  unfold overlay
  simp
  omega

@[simp] theorem overlay_nil (k : Nat) (old : List α) : overlay k [] old = old := by
  simp [overlay]

/-- A write that starts in the first of two parts. -/
theorem overlay_append (k : Nat) (new a b : List α) (hk : k ≤ a.length) :
    overlay k new (a ++ b) = overlay k new a ++ overlay 0 (new.drop (a.length - k)) b := by
  apply List.ext_getElem?
  intro i
  rw [getElem?_overlay, List.length_append]
  by_cases hi : i < a.length
  · rw [List.getElem?_append_left hi, List.getElem?_append_left (by simpa using hi),
      getElem?_overlay]
    by_cases hc : k ≤ i ∧ i < k + new.length
    · rw [if_pos ⟨hc.1, hc.2, by omega⟩, if_pos ⟨hc.1, hc.2, hi⟩]
    · rw [if_neg (by omega), if_neg (by omega)]
  · rw [List.getElem?_append_right (by omega), List.getElem?_append_right (by simpa using hi),
      length_overlay, getElem?_overlay, List.getElem?_drop, List.length_drop]
    by_cases hc : i < k + new.length ∧ i < a.length + b.length
    · rw [if_pos ⟨by omega, hc.1, hc.2⟩, if_pos ⟨by omega, by omega, by omega⟩]
      congr 1
      omega
    · rw [if_neg (by omega), if_neg (by omega)]

/-- A write that starts after the first of two parts. -/
theorem overlay_append_skip (k : Nat) (new a b : List α) (hk : a.length ≤ k) :
    overlay k new (a ++ b) = a ++ overlay (k - a.length) new b := by
  apply List.ext_getElem?
  intro i
  rw [getElem?_overlay, List.length_append]
  by_cases hi : i < a.length
  · rw [if_neg (by omega), List.getElem?_append_left hi, List.getElem?_append_left hi]
  · rw [List.getElem?_append_right (by omega), List.getElem?_append_right (by omega),
      getElem?_overlay]
    by_cases hc : k ≤ i ∧ i < k + new.length ∧ i < a.length + b.length
    · rw [if_pos hc, if_pos ⟨by omega, by omega, by omega⟩]
      congr 1
      omega
    · rw [if_neg hc, if_neg (by omega)]

/-- Only the part of `new` that fits matters. -/
theorem overlay_take (k m : Nat) (new old : List α) (hm : old.length - k ≤ m) :
    overlay k (new.take m) old = overlay k new old := by
  apply List.ext_getElem?
  intro i
  rw [getElem?_overlay, getElem?_overlay, List.length_take]
  by_cases hc : k ≤ i ∧ i < k + new.length ∧ i < old.length
  · rw [if_pos hc, if_pos ⟨hc.1, by omega, hc.2.2⟩, List.getElem?_take_of_lt (by omega)]
  · rw [if_neg hc, if_neg (by omega)]

/-- What stands before the end of a write that fits. -/
theorem take_overlay (k : Nat) (new old : List α) (h : k + new.length ≤ old.length) :
    (overlay k new old).take (k + new.length) = old.take k ++ new := by
  unfold overlay
  rw [List.take_of_length_le (by omega : new.length ≤ old.length - k), ← List.append_assoc,
    List.take_append_of_le_length (by simp only [List.length_append, List.length_take]; omega),
    List.take_of_length_le (by simp only [List.length_append, List.length_take]; omega)]

end Armonios
