import Mathlib.Logic.Relation

/-!
# Runs of a transition system

A system is a step relation on its states; a run is any finite number of steps. A property that every
step keeps holds in every state of a run (`Run.invariant`).

Where a step is a function of the state and an input, `Throughout` says that a property holds in every
state of the run over a list of inputs, and `EachStep` that a condition holds of each step. If the condition
is what a step needs to keep the property, then the one is as good as the other (`throughout_iff`).

Where a step also has an output, `outputs` has those of a run. Two systems whose steps have the same outputs and
keep a relation between their states have runs that do (`outputs_refine`).
-/

namespace Armonios

variable {σ : Type} {step step' : σ → σ → Prop} {s t u : σ}

/-- Any finite number of steps. -/
abbrev Run (step : σ → σ → Prop) : σ → σ → Prop := Relation.ReflTransGen step

/-- The invariant rule. -/
theorem Run.invariant (Inv : σ → Prop) (hstep : ∀ s t, Inv s → step s t → Inv t) (hs : Inv s)
    (hrun : Run step s t) : Inv t := by
  induction hrun with
  | refl => exact hs
  | tail _ hst ih => exact hstep _ _ ih hst

/-! ## Inputs -/

variable {ε : Type} {next : σ → ε → σ} {P Q : σ → Prop} {C : σ → ε → Prop} {es : List ε}

def Throughout (next : σ → ε → σ) (P : σ → Prop) : σ → List ε → Prop
  | s, [] => P s
  | s, e :: es => P s ∧ Throughout next P (next s e) es

def EachStep (next : σ → ε → σ) (C : σ → ε → Prop) : σ → List ε → Prop
  | _, [] => True
  | s, e :: es => C s e ∧ EachStep next C (next s e) es

instance decidableEachStep [∀ s e, Decidable (C s e)] : ∀ s es, Decidable (EachStep next C s es)
  | _, [] => isTrue trivial
  | s, e :: es =>
    have := decidableEachStep (next s e) es
    inferInstanceAs (Decidable (C s e ∧ EachStep next C (next s e) es))

theorem Throughout.start (h : Throughout next P s es) : P s := by
  cases es with
  | nil => exact h
  | cons e es => exact h.1

theorem Throughout.last (h : Throughout next P s es) : P (es.foldl next s) := by
  induction es generalizing s with
  | nil => exact h
  | cons e es ih => exact ih h.2

/-- In a run whose states all have `R`, the property holds in every state exactly if the condition holds of every
step. `Q` is what is known of every state then. -/
theorem throughout_iff_while {R : σ → Prop} (hQ : ∀ s e, Q s → R s → P s → Q (next s e))
    (hstep : ∀ s e, Q s → R s → P s → (P (next s e) ↔ C s e)) (hq : Q s) (hs : P s) (hR : Throughout next R s es) :
    Throughout next P s es ↔ EachStep next C s es := by
  induction es generalizing s with
  | nil => exact ⟨fun _ => trivial, fun _ => hs⟩
  | cons e es ih =>
    have hnext := hstep s e hq hR.1 hs
    constructor
    · intro h
      have hp := h.2.start
      exact ⟨hnext.mp hp, (ih (hQ s e hq hR.1 hs) hp hR.2).mp h.2⟩
    · intro h
      have hp := hnext.mpr h.1
      exact ⟨hs, (ih (hQ s e hq hR.1 hs) hp hR.2).mpr h.2⟩

theorem throughout_true : Throughout next (fun _ => True) s es := by
  induction es generalizing s with
  | nil => exact trivial
  | cons e es ih => exact ⟨trivial, ih⟩

/-- The property holds in every state exactly if the condition holds of every step. `Q` is what is known of
every state anyway. -/
theorem throughout_iff (hQ : ∀ s e, Q s → P s → Q (next s e)) (hstep : ∀ s e, Q s → P s → (P (next s e) ↔ C s e))
    (hq : Q s) (hs : P s) : Throughout next P s es ↔ EachStep next C s es :=
  throughout_iff_while (fun s e hq _ => hQ s e hq) (fun s e hq _ => hstep s e hq) hq hs throughout_true

/-- Conditions that amount to the same in the states of a run. -/
theorem eachStep_iff {D : σ → ε → Prop} (hQ : ∀ s e, Q s → Q (next s e)) (h : ∀ s e, Q s → (C s e ↔ D s e))
    (hq : Q s) : EachStep next C s es ↔ EachStep next D s es := by
  induction es generalizing s with
  | nil => exact Iff.rfl
  | cons e es ih => exact and_congr (h s e hq) (ih (hQ s e hq))

/-- Two conditions that amount to the same as long as the second one has held. -/
theorem eachStep_iff_while {D : σ → ε → Prop} (hQ : ∀ s e, Q s → D s e → Q (next s e))
    (h : ∀ s e, Q s → (C s e ↔ D s e)) (hq : Q s) : EachStep next C s es ↔ EachStep next D s es := by
  induction es generalizing s with
  | nil => exact Iff.rfl
  | cons e es ih =>
    have hhere := h s e hq
    constructor
    · intro hc
      have hd := hhere.mp hc.1
      exact ⟨hd, (ih (hQ s e hq hd)).mp hc.2⟩
    · intro hd
      exact ⟨hhere.mpr hd.1, (ih (hQ s e hq hd.1)).mpr hd.2⟩

/-- What each step keeps under its condition holds at the end. -/
theorem EachStep.last (hstep : ∀ s e, Q s → C s e → Q (next s e)) (hq : Q s) (h : EachStep next C s es) :
    Q (es.foldl next s) := by
  induction es generalizing s with
  | nil => exact hq
  | cons e es ih => exact ih (hstep s e hq h.1) h.2

theorem eachStep_append {es' : List ε} :
    EachStep next C s (es ++ es') ↔ EachStep next C s es ∧ EachStep next C (es.foldl next s) es' := by
  induction es generalizing s with
  | nil => simp [EachStep]
  | cons e es ih => simp [EachStep, ih, and_assoc]

/-! ## Outputs -/

section Outputs

variable {τ β : Type}

/-- The outputs of the inputs one after the other, and the last state. -/
def outputs (step : σ → ε → β × σ) (s : σ) : List ε → List β × σ
  | [] => ([], s)
  | e :: es => ((step s e).1 :: (outputs step (step s e).2 es).1, (outputs step (step s e).2 es).2)

theorem outputs_refine {step : σ → ε → β × σ} {step' : τ → ε → β × τ} (R : σ → τ → Prop)
    (hstep : ∀ s t e, R s t → (step s e).1 = (step' t e).1 ∧ R (step s e).2 (step' t e).2) {t : τ} (h : R s t)
    (es : List ε) : (outputs step s es).1 = (outputs step' t es).1 ∧
      R (outputs step s es).2 (outputs step' t es).2 := by
  induction es generalizing s t with
  | nil => exact ⟨rfl, h⟩
  | cons e es ih =>
    obtain ⟨hout, hnext⟩ := hstep s t e h
    obtain ⟨houts, hlast⟩ := ih hnext
    exact ⟨by rw [outputs, outputs, hout, houts], hlast⟩

end Outputs

end Armonios
