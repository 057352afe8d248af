import Mathlib.Data.List.Chain
import Mathlib.Data.Nat.Basic

/-!
# Loops

`loop step fuel s` runs `step` from `s` on until there is no next state; `none` if the fuel runs out
before. `trail` has the states that it goes through, and `loop_counted` counts them: a loop whose invariant
knows how many steps are left ends, whatever fuel above that it has.

`Ends f a` says that `f` has the result `a` with enough fuel. Functions that end can be composed (`Ends.bind`,
`Ends.mapM`).

A loop over a list whose body may return from the function is a `foldlM` of `Except`: an error is a return, and
`leaves` has the state at the end of the function, however it ends.
-/

namespace Armonios

variable {σ : Type} {step : σ → Option σ} {s t : σ} {fuel : Nat}

def loop (step : σ → Option σ) : (fuel : Nat) → σ → Option σ
  | 0, _ => none
  | fuel + 1, s =>
    match step s with
    | none => some s
    | some s' => loop step fuel s'

/-- The states that the loop goes through, as far as the fuel reaches. -/
def trail (step : σ → Option σ) : (fuel : Nat) → σ → List σ
  | 0, _ => []
  | fuel + 1, s =>
    match step s with
    | none => [s]
    | some s' => s :: trail step fuel s'

/-- What the states of a loop with `count` steps are: the invariant counts them. -/
structure Trail (step : σ → Option σ) (Inv : Nat → σ → Prop) (first count : Nat) (s t : σ) (l : List σ) : Prop where
  length : l.length = count + 1
  head : l.head? = some s
  last : l.getLast? = some t
  stop : Inv (first + count) t
  steps : l.IsChain fun a b => step a = some b
  states : ∀ i a, l[i]? = some a → Inv (first + i) a
  runs : ∀ fuel, count < fuel → trail step fuel s = l ∧ loop step fuel s = some t

theorem loop_counted (Inv : Nat → σ → Prop) {last : Nat}
    (hstep : ∀ i s, i < last → Inv i s → ∃ t, step s = some t ∧ Inv (i + 1) t)
    (hend : ∀ s, Inv last s → step s = none) {first count : Nat} (hcount : first + count = last) (hs : Inv first s) :
    ∃ t l, Trail step Inv first count s t l := by
  induction count generalizing first s with
  | zero =>
    have hnone := hend s (hcount ▸ hs)
    refine ⟨s, [s], rfl, rfl, rfl, hs, .singleton s, ?_, fun fuel hfuel => ?_⟩
    · intro i a hi
      obtain rfl : i = 0 := by
        have := (List.getElem?_eq_some_iff.mp hi).1
        simpa using this
      cases hi
      exact hs
    · obtain ⟨fuel, rfl⟩ := Nat.exists_eq_add_one_of_ne_zero (n := fuel) (by omega)
      rw [trail, loop, hnone]
      exact ⟨rfl, rfl⟩
  | succ count ih =>
    obtain ⟨s', hnext, hs'⟩ := hstep first s (by omega) hs
    obtain ⟨t, l, hlength, hhead, hlast, hstop, hsteps, hstates, hruns⟩ := ih (by omega) hs'
    obtain ⟨l, rfl⟩ := List.head?_eq_some_iff.mp hhead
    refine ⟨t, s :: s' :: l, by simpa using hlength, rfl, by simpa using hlast, ?_, .cons_cons hnext hsteps, ?_,
      fun fuel hfuel => ?_⟩
    · rwa [Nat.add_comm count, ← Nat.add_assoc]
    · intro i a hi
      cases i with
      | zero =>
        cases hi
        exact hs
      | succ i =>
        have hInv := hstates i a hi
        rwa [Nat.add_right_comm] at hInv
    · obtain ⟨fuel, rfl⟩ := Nat.exists_eq_add_one_of_ne_zero (n := fuel) (by omega)
      obtain ⟨htrail, hloop⟩ := hruns fuel (by omega)
      rw [trail, loop, hnext]
      exact ⟨congrArg _ htrail, hloop⟩

/-- What is a function of the state is one of the number of steps, where the invariant says so. -/
theorem Trail.map_eq {α : Type} {Inv : Nat → σ → Prop} {count : Nat} {l : List σ} {f : σ → α} {g : Nat → α}
    (h : Trail step Inv 0 count s t l) (hf : ∀ i a, Inv i a → f a = g i) : l.map f = (List.range (count + 1)).map g := by
  apply List.ext_getElem
  · simp [h.length]
  · intro i hi hi'
    simp only [List.getElem_map, List.getElem_range]
    rw [List.length_map] at hi
    have hInv := h.states i l[i] (List.getElem?_eq_getElem hi)
    rw [Nat.zero_add] at hInv
    exact hf i _ hInv

theorem trail_next {i : Nat} {a : σ} (ha : (trail step fuel s)[i]? = some a) (hnext : step a = some t)
    (hfuel : i + 1 < fuel) : (trail step fuel s)[i + 1]? = some t := by
  induction fuel generalizing s i with
  | zero => omega
  | succ fuel ih =>
    rw [trail] at ha ⊢
    cases hs : step s with
    | none =>
      rw [hs] at ha
      obtain rfl : i = 0 := by
        have := (List.getElem?_eq_some_iff.mp ha).1
        simpa using this
      cases ha
      rw [hs] at hnext
      cases hnext
    | some s' =>
      rw [hs] at ha
      cases i with
      | zero =>
        cases ha
        rw [hs] at hnext
        cases hnext
        obtain ⟨fuel, rfl⟩ := Nat.exists_eq_add_one_of_ne_zero (n := fuel) (by omega)
        dsimp only
        rw [List.getElem?_cons_succ, trail]
        cases step t <;> rfl
      | succ i => exact ih ha (by omega)

theorem trail_subset {fuel' : Nat} (h : fuel ≤ fuel') : trail step fuel s ⊆ trail step fuel' s := by
  induction fuel generalizing s fuel' with
  | zero => exact List.nil_subset _
  | succ fuel ih =>
    obtain ⟨fuel', rfl⟩ := Nat.exists_eq_add_one_of_ne_zero (n := fuel') (by omega)
    rw [trail, trail]
    cases step s with
    | none => exact List.Subset.refl _
    | some s' => exact List.cons_subset_cons s (ih (by omega))

/-! ## Enough fuel -/

section Ends

variable {α β : Type}

/-- With enough fuel the result is `a`. -/
def Ends (f : Nat → Option α) (a : α) : Prop := ∃ n, ∀ fuel, n < fuel → f fuel = some a

theorem Ends.pure (a : α) : Ends (fun _ => some a) a := ⟨0, fun _ _ => rfl⟩

theorem Ends.unique {f : Nat → Option α} {a b : α} (ha : Ends f a) (hb : Ends f b) : a = b := by
  obtain ⟨n, hn⟩ := ha
  obtain ⟨m, hm⟩ := hb
  have h := hm (n + m + 1) (by omega)
  rw [hn (n + m + 1) (by omega)] at h
  exact Option.some.inj h

theorem Ends.bind {f : Nat → Option α} {g : Nat → α → Option β} {a : α} {b : β} (hf : Ends f a)
    (hg : Ends (fun fuel => g fuel a) b) : Ends (fun fuel => f fuel >>= g fuel) b := by
  obtain ⟨n, hn⟩ := hf
  obtain ⟨m, hm⟩ := hg
  refine ⟨n + m, fun fuel hfuel => ?_⟩
  simp only [hn fuel (by omega), Option.bind_eq_bind, Option.bind_some]
  exact hm fuel (by omega)

theorem Ends.map {f : Nat → Option α} {a : α} (hf : Ends f a) (g : α → β) :
    Ends (fun fuel => (f fuel).map g) (g a) := by
  obtain ⟨n, hn⟩ := hf
  exact ⟨n, fun fuel hfuel => by simp [hn fuel hfuel]⟩

theorem Ends.mapM {f : Nat → α → Option β} {g : α → β} {l : List α} (h : ∀ a ∈ l, Ends (fun fuel => f fuel a) (g a)) :
    Ends (fun fuel => l.mapM (f fuel)) (l.map g) := by
  induction l with
  | nil => exact ⟨0, fun _ _ => rfl⟩
  | cons a l ih =>
    simp only [List.mapM_cons, List.map_cons]
    refine (h a (by simp)).bind ((ih fun b hb => h b (by simp [hb])).bind ?_)
    exact .pure _

end Ends

/-! ## Early returns -/

section Leaves

variable {α : Type} {turn : σ → α → Except σ σ} {l : List α} {x : Except σ σ} {P P' Q : σ → Prop}

def leaves : Except σ σ → σ
  | .ok s => s
  | .error s => s

/-- `P` holds if the function goes on, and `Q` if it returns. -/
def Flows (P Q : σ → Prop) : Except σ σ → Prop
  | .ok s => P s
  | .error s => Q s

theorem flows_leaves : Flows P P x ↔ P (leaves x) := by
  cases x <;> rfl

theorem Flows.imp (h : Flows P Q x) (hP : ∀ s, P s → P' s) (hQ : ∀ s, Q s → P' s) : P' (leaves x) := by
  cases x with
  | ok s => exact hP s h
  | error s => exact hQ s h

theorem Flows.mono (h : Flows P Q x) (hP : ∀ s, P s → P' s) : Flows P' Q x := by
  cases x with
  | ok s => exact hP s h
  | error s => exact h

theorem Flows.bind {f : σ → Except σ σ} (h : Flows P Q x) (hf : ∀ s, P s → Flows P' Q (f s)) :
    Flows P' Q (x >>= f) := by
  cases x with
  | ok s => exact hf s h
  | error s => exact h

/-- The property before a turn may speak of the turns that are left. -/
theorem flows_foldlM {P : List α → σ → Prop} (hturn : ∀ a l s, P (a :: l) s → Flows (P l) Q (turn s a)) (hs : P l s) :
    Flows (P []) Q (l.foldlM turn s) := by
  induction l generalizing s with
  | nil => exact hs
  | cons a l ih =>
    rw [List.foldlM_cons]
    exact (hturn a l s hs).bind fun t ht => ih ht

end Leaves

end Armonios
