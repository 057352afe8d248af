import Mathlib.Algebra.Ring.Nat
import Mathlib.Order.Defs.Unbundled
import Mathlib.Tactic.Common

/-!
# Pre- and postconditions of programs with state and errors

`Wp m s Q E`: the program `m`, started in the state `s`, returns a value and a state that satisfy
`Q`, or fails with an error and a state that satisfy `E`. An error keeps the state that the program
had reached, so `E` is a statement about the effects before the failure.

Every definition in the programs here is total, so `Wp` is total correctness: what stands for a
loop that does not end is an error value of its own.

* `wp_bind`, `wp_ite`, ...: the rules, one for each way to build a program;
* `Wp.mono`: the rule of consequence, which is how a caller uses the specification of a callee;
* `Wp.of_ok`, `Wp.of_error`: what a specification says of a run that is known;
* `Moves R m`: what `m` does to the state is a step of the relation `R`, whether it returns or not;
* `Keeps part m s Q`: the run of `m` from `s` keeps a part of the state, and ends in `Q` if it returns.
-/

namespace Armonios

variable {ε σ α β : Type}

/-- `m` from `s` returns with `Q` or fails with `E` (module doc). -/
def Wp (m : EStateM ε σ α) (s : σ) (Q : α → σ → Prop) (E : ε → σ → Prop) : Prop :=
  match m s with
  | .ok a s' => Q a s'
  | .error e s' => E e s'

variable {m : EStateM ε σ α} {s s' : σ} {Q Q' : α → σ → Prop} {E E' : ε → σ → Prop}

theorem Wp.of_ok {a : α} (h : Wp m s Q E) (hr : m s = .ok a s') : Q a s' := by
  unfold Wp at h; rw [hr] at h; exact h

theorem Wp.of_error {e : ε} (h : Wp m s Q E) (hr : m s = .error e s') : E e s' := by
  unfold Wp at h; rw [hr] at h; exact h

/-- A program that cannot fail returns. -/
theorem Wp.returns (h : Wp m s Q fun _ _ => False) : ∃ a s', m s = .ok a s' ∧ Q a s' := by
  unfold Wp at h
  split at h
  · rename_i a s' hr; exact ⟨a, s', hr, h⟩
  · exact h.elim

theorem wp_of_ok {a : α} (hr : m s = .ok a s') (h : Q a s') : Wp m s Q E := by
  unfold Wp; rw [hr]; exact h

theorem wp_of_error {e : ε} (hr : m s = .error e s') (h : E e s') : Wp m s Q E := by
  unfold Wp; rw [hr]; exact h

/-- A specification with one outcome. -/
theorem Wp.eq_ok {a : α} (h : Wp m s (fun b t => b = a ∧ t = s') fun _ _ => False) : m s = .ok a s' := by
  obtain ⟨b, t, hr, rfl, rfl⟩ := h.returns
  exact hr

/-- The rule of consequence. -/
theorem Wp.mono (h : Wp m s Q E) (hq : ∀ a s', Q a s' → Q' a s') (he : ∀ e s', E e s' → E' e s') :
    Wp m s Q' E' := by
  unfold Wp at h ⊢
  split <;> rename_i hr <;> rw [hr] at h
  · exact hq _ _ h
  · exact he _ _ h

/-- What holds anyway. -/
theorem wp_const {P : Prop} (h : P) : Wp m s (fun _ _ => P) fun _ _ => True := by
  unfold Wp
  split
  · exact h
  · trivial

/-- Two specifications of one run. -/
theorem Wp.and (h : Wp m s Q E) (h' : Wp m s Q' E') :
    Wp m s (fun a s' => Q a s' ∧ Q' a s') (fun e s' => E e s' ∧ E' e s') := by
  unfold Wp at h h' ⊢
  split <;> rename_i hr <;> rw [hr] at h h' <;> exact ⟨h, h'⟩

@[simp] theorem wp_pure {a : α} : Wp (pure a : EStateM ε σ α) s Q E ↔ Q a s := Iff.rfl

@[simp] theorem wp_throw {e : ε} : Wp (throw e : EStateM ε σ α) s Q E ↔ E e s := Iff.rfl

@[simp] theorem wp_bind {f : α → EStateM ε σ β} {R : β → σ → Prop} :
    Wp (m >>= f) s R E ↔ Wp m s (fun a s' => Wp (f a) s' R E) E := by
  show Wp (EStateM.bind m f) s R E ↔ _
  unfold Wp EStateM.bind
  cases m s <;> rfl

@[simp] theorem wp_map {f : α → β} {R : β → σ → Prop} :
    Wp (f <$> m) s R E ↔ Wp m s (fun a s' => R (f a) s') E := by
  show Wp (EStateM.map f m) s R E ↔ _
  unfold Wp EStateM.map
  cases m s <;> rfl

@[simp] theorem wp_get {R : σ → σ → Prop} : Wp (get : EStateM ε σ σ) s R E ↔ R s s := Iff.rfl

@[simp] theorem wp_set {t : σ} {R : PUnit → σ → Prop} :
    Wp (set t : EStateM ε σ PUnit) s R E ↔ R ⟨⟩ t := Iff.rfl

@[simp] theorem wp_modify {f : σ → σ} {R : PUnit → σ → Prop} :
    Wp (modify f : EStateM ε σ PUnit) s R E ↔ R ⟨⟩ (f s) := Iff.rfl

/-- A step of which nothing is needed. -/
theorem wp_bind_any {f : α → EStateM ε σ β} {R : β → σ → Prop} (h : ∀ a s', Wp (f a) s' R fun _ _ => True) :
    Wp (m >>= f) s R fun _ _ => True :=
  wp_bind.mpr (Wp.mono (wp_const trivial) (fun a s' _ => h a s') fun _ _ h' => h')

/-- A step with its run. -/
theorem Wp.bind_run {f : α → EStateM ε σ β} {R : β → σ → Prop} {E' : ε → σ → Prop} (h : Wp m s Q E)
    (hf : ∀ a s', m s = .ok a s' → Q a s' → Wp (f a) s' R E') (he : ∀ e s', E e s' → E' e s') :
    Wp (m >>= f) s R E' := by
  refine wp_bind.mpr ?_
  unfold Wp at h ⊢
  split <;> rename_i hr <;> rw [hr] at h
  · exact hf _ _ hr h
  · exact he _ _ h

theorem wp_ite {c : Prop} [Decidable c] {m₁ m₂ : EStateM ε σ α} (h₁ : c → Wp m₁ s Q E)
    (h₂ : ¬c → Wp m₂ s Q E) : Wp (if c then m₁ else m₂) s Q E := by
  split
  · exact h₁ ‹_›
  · exact h₂ ‹_›

/-- An early exit: `if c then throw e` before the rest `k` of a program. -/
theorem wp_guard {c : Prop} [Decidable c] {e : ε} {k : Unit → EStateM ε σ α} (h₁ : c → E e s)
    (h₂ : ¬c → Wp (k ()) s Q E) : Wp (if c then throw e >>= k else k ()) s Q E := by
  split
  · exact h₁ ‹_›
  · exact h₂ ‹_›

/-- Whether a run returns, as a test that can be evaluated. -/
def isOk (m : EStateM ε σ α) (s : σ) : Bool :=
  match m s with
  | .ok _ _ => true
  | .error _ _ => false

theorem exists_of_isOk (h : isOk m s = true) : ∃ a s', m s = .ok a s' := by
  unfold isOk at h
  split at h
  · exact ⟨_, _, ‹_›⟩
  · cases h

/-- The value of a run that returns. -/
def valueOf (m : EStateM ε σ α) (s : σ) : Option α :=
  match m s with
  | .ok a _ => some a
  | .error _ _ => none

theorem exists_of_valueOf {a : α} (h : valueOf m s = some a) : ∃ s', m s = .ok a s' := by
  unfold valueOf at h
  split at h
  · cases h
    exact ⟨_, ‹_›⟩
  · cases h

/-- `m` from `s` ended in `s'`, and `ok` says whether it returned. -/
def Ran (m : EStateM ε σ α) (s : σ) (ok : Bool) (s' : σ) : Prop :=
  (ok = true ∧ ∃ a, m s = .ok a s') ∨ (ok = false ∧ ∃ e, m s = .error e s')

theorem wp_ran : Wp m s (fun _ s' => Ran m s true s') fun _ s' => Ran m s false s' := by
  unfold Wp Ran
  cases m s with
  | ok a s' => exact .inl ⟨rfl, a, rfl⟩
  | error e s' => exact .inr ⟨rfl, e, rfl⟩

/-- A run as its own specification. -/
theorem wp_self : Wp m s (fun a s' => m s = .ok a s') fun e s' => m s = .error e s' := by
  unfold Wp
  cases m s with
  | ok a s' => rfl
  | error e s' => rfl

/-! ## Programs that move along a relation -/

/-- Whatever `m` does, the state moves along `R`. -/
def Moves (R : σ → σ → Prop) (m : EStateM ε σ α) : Prop :=
  ∀ s, Wp m s (fun _ s' => R s s') fun _ s' => R s s'

section Moves

variable {R : σ → σ → Prop} {f : α → EStateM ε σ β}

theorem Moves.pure [Std.Refl R] (a : α) : Moves R (pure a : EStateM ε σ α) := fun s => Std.Refl.refl s

theorem Moves.error [Std.Refl R] (e : ε) : Moves R (throw e : EStateM ε σ α) := fun s => Std.Refl.refl s

theorem Moves.bind [IsTrans σ R] (h : Moves R m) (hf : ∀ a, Moves R (f a)) : Moves R (m >>= f) := by
  intro s
  refine wp_bind.mpr (Wp.mono (h s) (fun a s' h' => ?_) fun _ _ h' => h')
  exact Wp.mono (hf a s') (fun _ _ h'' => IsTrans.trans _ _ _ h' h'') fun _ _ h'' => IsTrans.trans _ _ _ h' h''

theorem Moves.get_bind {f : σ → EStateM ε σ β} (h : ∀ t, Moves R (f t)) : Moves R (get >>= f) :=
  fun s => wp_bind.mpr (wp_get.mpr (h s s))

theorem Moves.modify {g : σ → σ} (h : ∀ s, R s (g s)) : Moves R (modify g : EStateM ε σ PUnit) :=
  fun s => wp_modify.mpr (h s)

theorem Moves.guard [Std.Refl R] {c : Prop} [Decidable c] {e : ε} {k : Unit → EStateM ε σ α}
    (h : Moves R (k ())) : Moves R (if c then throw e >>= k else k ()) :=
  fun s => wp_guard (fun _ => Std.Refl.refl s) fun _ => h s

end Moves

/-! ## Running a program on a part of the state -/

/-- `m` on the part of the state that `get` reads and `put` writes back, also after an error. -/
def onPart {τ : Type} (part : τ → σ) (put : τ → σ → τ) (m : EStateM ε σ α) : EStateM ε τ α := fun t =>
  match m (part t) with
  | .ok a s => .ok a (put t s)
  | .error e s => .error e (put t s)

theorem wp_onPart {τ : Type} {part : τ → σ} {put : τ → σ → τ} {t : τ} {R : α → τ → Prop}
    {F : ε → τ → Prop} :
    Wp (onPart part put m) t R F ↔
      Wp m (part t) (fun a s => R a (put t s)) (fun e s => F e (put t s)) := by
  unfold Wp onPart
  cases m (part t) <;> rfl

/-- Whether `m` succeeds, as the value of a program: `skip e` says which errors count as "no"; the
others are passed on. -/
def attempt (skip : ε → Bool) (m : EStateM ε σ α) : EStateM ε σ (Option α) := fun s =>
  match m s with
  | .ok a s' => .ok (some a) s'
  | .error e s' => if skip e then .ok none s' else .error e s'

theorem wp_attempt {skip : ε → Bool} {R : Option α → σ → Prop} :
    Wp (attempt skip m) s R E ↔
      Wp m s (fun a s' => R (some a) s') (fun e s' => if skip e then R none s' else E e s') := by
  unfold Wp attempt
  cases m s with
  | ok a s' => rfl
  | error e s' => by_cases h : skip e = true <;> simp [h]

/-- An attempt that no error gets through. -/
theorem wp_attempt_all {R : Option α → σ → Prop} :
    Wp (attempt (fun _ => true) m) s R E ↔ Wp m s (fun a s' => R (some a) s') fun _ s' => R none s' := by
  rw [wp_attempt]
  simp only [if_true]

theorem Moves.attempt {R : σ → σ → Prop} {skip : ε → Bool} (h : Moves R m) : Moves R (attempt skip m) := by
  intro s
  refine wp_attempt.mpr (Wp.mono (h s) (fun _ _ h' => h') fun e s' h' => ?_)
  split <;> exact h'

/-- A run on a part moves the whole as the part moves. -/
theorem Moves.onPart {τ : Type} {part : τ → σ} {put : τ → σ → τ} {R : σ → σ → Prop} {T : τ → τ → Prop}
    (h : Moves R m) (hT : ∀ t s, R (part t) s → T t (put t s)) : Moves T (onPart part put m) :=
  fun t => wp_onPart.mpr (Wp.mono (h (part t)) (fun _ s => hT t s) fun _ s => hT t s)

/-! ## Runs that keep a part of the state -/

/-- The run keeps `part` of the state, and ends in `Q` if it returns. -/
def Keeps {φ : Type} (part : σ → φ) (m : EStateM ε σ α) (s : σ) (Q : α → σ → Prop) : Prop :=
  Wp m s (fun a s' => part s' = part s ∧ Q a s') fun _ s' => part s' = part s

section Keeps

variable {φ : Type} {part : σ → φ} {f : α → EStateM ε σ β} {R : β → σ → Prop}

theorem Keeps.pure {a : α} (h : Q a s) : Keeps part (pure a : EStateM ε σ α) s Q := ⟨rfl, h⟩

theorem Keeps.error (e : ε) : Keeps part (throw e : EStateM ε σ α) s Q := rfl

theorem Keeps.mono (h : Keeps part m s Q) (hq : ∀ a s', part s' = part s → Q a s' → Q' a s') :
    Keeps part m s Q' :=
  Wp.mono h (fun a s' h' => ⟨h'.1, hq a s' h'.1 h'.2⟩) fun _ _ h' => h'

theorem Keeps.bind (h : Keeps part m s Q) (hf : ∀ a s', part s' = part s → Q a s' → Keeps part (f a) s' R) :
    Keeps part (m >>= f) s R := by
  refine wp_bind.mpr (Wp.mono h (fun a s' h' => ?_) fun _ _ h' => h')
  exact Wp.mono (hf a s' h'.1 h'.2) (fun b s'' h'' => ⟨h''.1.trans h'.1, h''.2⟩) fun _ _ h'' => h''.trans h'.1

theorem Keeps.get_bind {f : σ → EStateM ε σ β} (h : Keeps part (f s) s R) : Keeps part (get >>= f) s R :=
  wp_bind.mpr (wp_get.mpr h)

theorem Keeps.ite {c : Prop} [Decidable c] {m₁ m₂ : EStateM ε σ α} (h₁ : c → Keeps part m₁ s Q)
    (h₂ : ¬c → Keeps part m₂ s Q) : Keeps part (if c then m₁ else m₂) s Q := wp_ite h₁ h₂

theorem Keeps.guard {c : Prop} [Decidable c] {e : ε} {k : Unit → EStateM ε σ α}
    (h : ¬c → Keeps part (k ()) s Q) : Keeps part (if c then throw e >>= k else k ()) s Q :=
  wp_guard (fun _ => rfl) h

end Keeps

end Armonios
