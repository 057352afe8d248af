import Mathlib.Data.List.Basic

/-!
# Switches

A log of switches that go on and off. `Tracks held log` says that each switch of the log goes on first and then
off and on in turn, and that `held` are those that are on at the end.
-/

namespace Armonios

structure Switch (κ : Type) where
  key : κ
  on : Bool
  deriving DecidableEq

/-- On, off, on, and so on. -/
def Alternates (l : List Bool) : Prop := ∀ i (h : i < l.length), l[i] = decide (i % 2 = 0)

@[simp] theorem alternates_nil : Alternates [] := fun _ h => absurd h (Nat.not_lt_zero _)

theorem alternates_concat {l : List Bool} {b : Bool} :
    Alternates (l ++ [b]) ↔ Alternates l ∧ b = decide (l.length % 2 = 0) := by
  constructor
  · intro h
    refine ⟨fun i hi => ?_, ?_⟩
    · have := h i (by simp; omega)
      rwa [List.getElem_append_left hi] at this
    · have := h l.length (by simp)
      rwa [List.getElem_append_right (Nat.le_refl _), List.getElem_singleton] at this
  · rintro ⟨h, hb⟩ i hi
    by_cases hlt : i < l.length
    · rw [List.getElem_append_left hlt]
      exact h i hlt
    · have hi : i = l.length := by simp at hi; omega
      subst hi
      rw [List.getElem_append_right (Nat.le_refl _), List.getElem_singleton]
      exact hb

/-- The last of them says how many there are. -/
theorem Alternates.getLast_on {l : List Bool} (h : Alternates l) : l.getLast? = some true ↔ l.length % 2 = 1 := by
  rcases List.eq_nil_or_concat l with rfl | ⟨l', b, rfl⟩
  · simp
  · rw [List.concat_eq_append] at h ⊢
    obtain ⟨-, rfl⟩ := alternates_concat.mp h
    simp only [List.getLast?_append, List.getLast?_singleton, Option.some_or, Option.some.injEq, decide_eq_true_eq,
      List.length_append, List.length_singleton]
    omega

section Log

variable {κ : Type} [DecidableEq κ] {k : κ} {log : List (Switch κ)} {held held' : κ → Prop}

/-- What the log says of one switch. -/
def switchesOf (k : κ) (log : List (Switch κ)) : List Bool := (log.filter (·.key = k)).map (·.on)

theorem switchesOf_append (k : κ) (log log' : List (Switch κ)) :
    switchesOf k (log ++ log') = switchesOf k log ++ switchesOf k log' := by
  simp [switchesOf]

theorem switchesOf_self (k : κ) (b : Bool) : switchesOf k [⟨k, b⟩] = [b] := by simp [switchesOf]

theorem switchesOf_of_ne {j : κ} (h : j ≠ k) (b : Bool) : switchesOf j [⟨k, b⟩] = [] := by
  simp [switchesOf, h.symm]

/-- The switch has gone on, and not off since. -/
def IsOn (k : κ) (log : List (Switch κ)) : Prop := (switchesOf k log).getLast? = some true

instance (k : κ) (log : List (Switch κ)) : Decidable (IsOn k log) := inferInstanceAs (Decidable (_ = _))

structure Tracks (held : κ → Prop) (log : List (Switch κ)) : Prop where
  alternates : ∀ k, Alternates (switchesOf k log)
  held : ∀ k, held k ↔ IsOn k log

theorem Tracks.nil : Tracks (fun _ : κ => False) [] where
  alternates k := by simp [switchesOf]
  held k := by simp [IsOn, switchesOf]

theorem Tracks.length_odd (h : Tracks held log) (k : κ) : held k ↔ (switchesOf k log).length % 2 = 1 :=
  (h.held k).trans (h.alternates k).getLast_on

/-- A switch goes the other way. -/
theorem Tracks.concat (h : Tracks held log) {b : Bool} (hk : held k ↔ b = false) (hself : held' k ↔ b = true)
    (hother : ∀ j, j ≠ k → (held' j ↔ held j)) : Tracks held' (log ++ [⟨k, b⟩]) where
  alternates j := by
    rw [switchesOf_append]
    by_cases hj : j = k
    · subst hj
      rw [switchesOf_self, alternates_concat]
      have hodd := h.length_odd j
      refine ⟨h.alternates j, ?_⟩
      cases b
      · have := hodd.mp (hk.mpr rfl)
        simp [this]
      · have : ¬ (switchesOf j log).length % 2 = 1 := fun hh => by simpa using hk.mp (hodd.mpr hh)
        symm
        rw [decide_eq_true_eq]
        omega
    · rw [switchesOf_of_ne hj, List.append_nil]
      exact h.alternates j
  held j := by
    rw [IsOn, switchesOf_append]
    by_cases hj : j = k
    · subst hj
      rw [switchesOf_self, hself]
      simp
    · rw [switchesOf_of_ne hj, List.append_nil, hother j hj]
      exact h.held j

/-- A switch that is off goes on. -/
theorem Tracks.switch_on (h : Tracks held log) (hk : ¬ held k) (hheld : ∀ j, held' j ↔ j = k ∨ held j) :
    Tracks held' (log ++ [⟨k, true⟩]) :=
  h.concat (by simpa using hk) (by simp [hheld]) fun j hj => by simp [hheld, hj]

/-- A switch that is on goes off. -/
theorem Tracks.switch_off (h : Tracks held log) (hk : held k) (hheld : ∀ j, held' j ↔ j ≠ k ∧ held j) :
    Tracks held' (log ++ [⟨k, false⟩]) :=
  h.concat (by simpa using hk) (by simp [hheld]) fun j hj => by simp [hheld, hj]

end Log

end Armonios
