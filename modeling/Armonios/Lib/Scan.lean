import Mathlib

/-!
# Loops that keep the best candidate

`scan p beats l` is the loop over `l` that remembers one candidate: an element with the property `p`
replaces the remembered one if there is none or if it beats it. `scan_some` says which element that is;
with a key and `<` it is a least one (`scan_least`), with a key and `≥` a greatest one
(`scan_greatest`).
-/

namespace Armonios

variable {ι : Type} {p : ι → Prop} [DecidablePred p] {beats : ι → ι → Prop} [DecidableRel beats]

/-- The body of the loop. -/
def keepBest (p : ι → Prop) [DecidablePred p] (beats : ι → ι → Prop) [DecidableRel beats]
    (best : Option ι) (i : ι) : Option ι :=
  if p i ∧ ∀ b ∈ best, beats i b then some i else best

def scan (p : ι → Prop) [DecidablePred p] (beats : ι → ι → Prop) [DecidableRel beats] (l : List ι) :
    Option ι :=
  l.foldl (keepBest p beats) none

@[simp] theorem scan_nil : scan p beats [] = none := rfl

@[simp] theorem scan_append (l : List ι) (i : ι) :
    scan p beats (l ++ [i]) = keepBest p beats (scan p beats l) i := by
  simp [scan]

theorem scan_congr {q : ι → Prop} [DecidablePred q] {beats' : ι → ι → Prop} [DecidableRel beats']
    (hp : ∀ i, p i ↔ q i) (hbeats : ∀ i b, beats i b ↔ beats' i b) (l : List ι) : scan p beats l = scan q beats' l := by
  induction l using List.reverseRecOn with
  | nil => rfl
  | append_singleton l i ih =>
    rw [scan_append, scan_append, ih]
    simp only [keepBest, hp, hbeats]

theorem keepBest_some {best : Option ι} {i b : ι} (h : keepBest p beats best i = some b) :
    (b = i ∧ p i ∧ ∀ c ∈ best, beats i c) ∨ (best = some b ∧ (p i → ¬ beats i b)) := by
  unfold keepBest at h
  grind

theorem scan_none {l : List ι} : scan p beats l = none ↔ ∀ i ∈ l, ¬ p i := by
  induction l using List.reverseRecOn with
  | nil => simp
  | append_singleton l i ih =>
    simp only [scan_append, keepBest]
    grind

/-- The result has the property, beats every candidate before it, and no candidate after it beats it. -/
theorem scan_some {l : List ι} {b : ι} (h : scan p beats l = some b)
    (htrans : ∀ a b c, beats a b → beats b c → beats a c)
    (hneg : ∀ a b c, beats a b → ¬ beats c b → beats a c) :
    p b ∧ ∃ before after, l = before ++ b :: after ∧ (∀ i ∈ before, p i → beats b i) ∧
      ∀ i ∈ after, p i → ¬ beats i b := by
  induction l using List.reverseRecOn generalizing b with
  | nil => simp at h
  | append_singleton l i ih =>
    rw [scan_append] at h
    rcases keepBest_some h with ⟨rfl, hp, hbest⟩ | ⟨hb, hi⟩
    · refine ⟨hp, l, [], by simp, ?_, by simp⟩
      intro j hj hpj
      cases hscan : scan p beats l with
      | none => exact absurd hpj (scan_none.mp hscan j hj)
      | some c =>
        -- the candidate of the shorter loop has won against `j`, and `b` wins against it
        obtain ⟨-, before, after, rfl, hbefore, hafter⟩ := ih hscan
        have hbc : beats b c := hbest c (by simp [hscan])
        grind
    · obtain ⟨hp, before, after, rfl, hbefore, hafter⟩ := ih hb
      refine ⟨hp, before, after ++ [i], by simp, hbefore, ?_⟩
      grind

variable {κ : Type} [LinearOrder κ] {key : ι → κ}

/-- With a key and `<`, the result is the first of the candidates with the least key. -/
theorem scan_least {l : List ι} {b : ι} (h : scan p (fun i o => key i < key o) l = some b) :
    b ∈ l ∧ p b ∧ ∀ i ∈ l, p i → key b ≤ key i := by
  obtain ⟨hp, before, after, rfl, hbefore, hafter⟩ :=
    scan_some h (fun _ _ _ => lt_trans) (fun _ _ _ hbc hic => lt_of_lt_of_le hbc (not_lt.mp hic))
  refine ⟨by simp, hp, ?_⟩
  intro i hi hpi
  rcases List.mem_append.mp hi with hi | hi
  · exact (hbefore i hi hpi).le
  · rcases List.mem_cons.mp hi with rfl | hi
    · exact le_rfl
    · exact not_lt.mp (hafter i hi hpi)

/-- With a key and `≥`, the result is the last of the candidates with the greatest key. -/
theorem scan_greatest (key : ι → κ) {l : List ι} {b : ι} (h : scan p (fun i o => key o ≤ key i) l = some b) :
    p b ∧ ∃ before after, l = before ++ b :: after ∧ (∀ i ∈ before, p i → key i ≤ key b) ∧
      ∀ i ∈ after, p i → key i < key b := by
  obtain ⟨hp, before, after, rfl, hbefore, hafter⟩ :=
    scan_some h (fun _ _ _ hab hbc => le_trans hbc hab) (fun _ _ _ hab hcb => (not_le.mp hcb).le.trans hab)
  exact ⟨hp, before, after, rfl, hbefore, fun i hi hpi => not_le.mp (hafter i hi hpi)⟩

end Armonios
