import Mathlib.Order.Basic
import Mathlib.Tactic.Common

/-!
# Programs that read a buffer

A program is the tree of its reads: the position of the next byte, and what it does with the byte.

* `Reads.run`: its value on a buffer;
* `Reads.touched`: the positions that it reads of a buffer;
* `Reads.Within P`: it reads positions in `P` only, whatever the bytes are;
* `Reads.run_congr`: then its value is a matter of the bytes there.
-/

namespace Armonios

inductive Reads (α : Type) where
  | done (a : α)
  | byte (pos : Nat) (next : UInt8 → Reads α)

namespace Reads

variable {α β : Type} {P Q : Nat → Prop} {buffer buffer' : Nat → UInt8}

protected def bind : Reads α → (α → Reads β) → Reads β
  | done a, f => f a
  | byte pos next, f => byte pos fun b => (next b).bind f

instance : Monad Reads where
  pure := done
  bind := Reads.bind

/-- The byte at the position. -/
def readByte (pos : Nat) : Reads UInt8 := byte pos done

/-- `count` bytes from the position on. -/
def bytes (pos : Nat) : (count : Nat) → Reads (List UInt8)
  | 0 => pure []
  | count + 1 => do
    let b ← readByte pos
    let rest ← bytes (pos + 1) count
    return b :: rest

/-! ## Runs -/

def run (buffer : Nat → UInt8) : Reads α → α
  | done a => a
  | byte pos next => (next (buffer pos)).run buffer

@[simp] theorem run_pure (a : α) : run buffer (pure a) = a := rfl

@[simp] theorem run_readByte (pos : Nat) : run buffer (readByte pos) = buffer pos := rfl

@[simp] theorem run_bind (m : Reads α) (f : α → Reads β) : run buffer (m >>= f) = run buffer (f (run buffer m)) := by
  induction m with
  | done a => rfl
  | byte pos next ih => exact ih (buffer pos)

/-- The bytes of the buffer from `start` to `start + len`. -/
def window (buffer : Nat → UInt8) (start len : Nat) : List UInt8 := (List.range len).map fun i => buffer (start + i)

@[simp] theorem window_length (buffer : Nat → UInt8) (start len : Nat) : (window buffer start len).length = len := by
  simp [window]

@[simp] theorem run_bytes (pos count : Nat) : run buffer (bytes pos count) = window buffer pos count := by
  induction count generalizing pos with
  | zero => rfl
  | succ count ih =>
    unfold bytes window
    rw [run_bind, run_readByte, run_bind, ih, run_pure, List.range_succ_eq_map]
    simp [window, Function.comp_def, Nat.add_comm, Nat.add_left_comm]

theorem window_drop (buffer : Nat → UInt8) (start len skip : Nat) :
    (window buffer start len).drop skip = window buffer (start + skip) (len - skip) := by
  apply List.ext_getElem
  · simp
  · intro i _ _
    simp [window, Nat.add_assoc]

theorem window_take (buffer : Nat → UInt8) (start : Nat) {len count : Nat} (h : count ≤ len) :
    (window buffer start len).take count = window buffer start count := by
  apply List.ext_getElem
  · simp [h]
  · intro i _ _
    simp [window]

theorem window_getD (buffer : Nat → UInt8) (start : Nat) {len i : Nat} (h : i < len) :
    (window buffer start len).getD i 0 = buffer (start + i) := by
  simp [window, h]

theorem window_cons (buffer : Nat → UInt8) (start : Nat) {len : Nat} (h : 0 < len) :
    window buffer start len = buffer start :: window buffer (start + 1) (len - 1) := by
  obtain ⟨n, rfl⟩ := Nat.exists_eq_add_one.mpr h
  unfold window
  rw [List.range_succ_eq_map]
  simp [Function.comp_def, Nat.add_comm, Nat.add_left_comm]

/-! ## What is read -/

def touched (buffer : Nat → UInt8) : Reads α → List Nat
  | done _ => []
  | byte pos next => pos :: (next (buffer pos)).touched buffer

@[simp] theorem touched_pure (a : α) : touched buffer (pure a) = [] := rfl

@[simp] theorem touched_readByte (pos : Nat) : touched buffer (readByte pos) = [pos] := rfl

@[simp] theorem touched_bind (m : Reads α) (f : α → Reads β) :
    touched buffer (m >>= f) = touched buffer m ++ touched buffer (f (run buffer m)) := by
  induction m with
  | done a => rfl
  | byte pos next ih => exact congrArg (pos :: ·) (ih (buffer pos))

def Within (P : Nat → Prop) : Reads α → Prop
  | done _ => True
  | byte pos next => P pos ∧ ∀ b, (next b).Within P

theorem within_pure (a : α) : Within P (pure a) := trivial

theorem within_readByte {pos : Nat} (h : P pos) : Within P (readByte pos) := ⟨h, fun _ => trivial⟩

theorem Within.bind {m : Reads α} {f : α → Reads β} (hm : m.Within P) (hf : ∀ a, (f a).Within P) :
    Within P (m >>= f) := by
  induction m with
  | done a => exact hf a
  | byte pos next ih => exact ⟨hm.1, fun b => ih b (hm.2 b)⟩

theorem within_bytes {pos count : Nat} (h : ∀ i < count, P (pos + i)) : Within P (bytes pos count) := by
  induction count generalizing pos with
  | zero => exact trivial
  | succ count ih =>
    refine (within_readByte (h 0 (by omega))).bind fun b => (ih fun i hi => ?_).bind fun _ => within_pure _
    have hp := h (i + 1) (by omega)
    rwa [Nat.add_comm i 1, ← Nat.add_assoc] at hp

theorem Within.mono {m : Reads α} (h : m.Within P) (hpq : ∀ i, P i → Q i) : m.Within Q := by
  induction m with
  | done a => trivial
  | byte pos next ih => exact ⟨hpq pos h.1, fun b => ih b (h.2 b)⟩

theorem Within.touched {m : Reads α} (h : m.Within P) : ∀ pos ∈ touched buffer m, P pos := by
  induction m with
  | done a => simp [Reads.touched]
  | byte pos next ih =>
    intro i hi
    rcases List.mem_cons.mp hi with rfl | hi
    · exact h.1
    · exact ih _ (h.2 _) i hi

theorem run_congr {m : Reads α} (h : m.Within P) (hsame : ∀ i, P i → buffer i = buffer' i) :
    run buffer m = run buffer' m := by
  induction m with
  | done a => rfl
  | byte pos next ih =>
    unfold run
    rw [hsame pos h.1]
    exact ih _ (h.2 _)

end Reads

end Armonios
