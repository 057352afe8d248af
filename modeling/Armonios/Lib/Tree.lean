import Mathlib.Data.List.Nodup
import Mathlib.Data.List.Induction

/-!
# Trees in a memory

A memory says for every node and index which child stands there: `child a i`. From a root, a list of
indices leads to at most one node (`nodeAt`). A tree of depth `n` that no node is in twice has a
different node at every path (`PathsInj`).

* `nodeAt_insert`: a new leaf appears at one path and changes no other;
* `nodeAt_congr`: the memory outside of a tree does not matter to it;
* `treeNodes`: all nodes, children before parents, with `mem_treeNodes` and `treeNodes_nodup`.
-/

namespace Armonios

variable {α ι : Type} {child child' : α → ι → Option α} {n : Nat} {t a c : α} {i : ι} {p q : List ι}

/-- The node at the end of a path. -/
def nodeAt (child : α → ι → Option α) : α → List ι → Option α
  | t, [] => some t
  | t, i :: p => (child t i).bind fun c => nodeAt child c p

@[simp] theorem nodeAt_nil : nodeAt child t [] = some t := rfl

theorem nodeAt_append (child : α → ι → Option α) (t : α) (p q : List ι) :
    nodeAt child t (p ++ q) = (nodeAt child t p).bind fun a => nodeAt child a q := by
  induction p generalizing t with
  | nil => rfl
  | cons i p ih =>
    show (child t i).bind _ = ((child t i).bind _).bind _
    cases child t i with
    | none => rfl
    | some c => exact ih c

theorem nodeAt_concat (child : α → ι → Option α) (t : α) (p : List ι) (i : ι) :
    nodeAt child t (p ++ [i]) = (nodeAt child t p).bind fun a => child a i := by
  rw [nodeAt_append]
  congr 1
  funext a
  show (child a i).bind some = child a i
  cases child a i <;> rfl

/-- No node stands at two paths of length at most `n`. -/
def PathsInj (child : α → ι → Option α) (n : Nat) (t : α) : Prop :=
  ∀ p q a, p.length ≤ n → q.length ≤ n → nodeAt child t p = some a → nodeAt child t q = some a → p = q

theorem PathsInj.below (h : PathsInj child (n + 1) t) (hc : child t i = some c) : PathsInj child n c := by
  intro p q a hp hq hpa hqa
  have hstep : ∀ r, nodeAt child t (i :: r) = nodeAt child c r := fun r => by
    show (child t i).bind _ = _
    rw [hc]
    rfl
  have heq := h (i :: p) (i :: q) a (by simpa using hp) (by simpa using hq) (by rw [hstep]; exact hpa)
    (by rw [hstep]; exact hqa)
  exact (List.cons.inj heq).2

/-- Two memories that agree on the nodes of a tree, the deepest apart, have the same tree. -/
theorem nodeAt_congr (h : ∀ q a, q.length < n → nodeAt child t q = some a → child' a = child a)
    (hp : p.length ≤ n) : nodeAt child' t p = nodeAt child t p := by
  induction p using List.reverseRecOn with
  | nil => rfl
  | append_singleton p i ih =>
    rw [List.length_append, List.length_singleton] at hp
    rw [nodeAt_concat, nodeAt_concat, ih (by omega)]
    cases ha : nodeAt child t p with
    | none => rfl
    | some a =>
      show child' a i = child a i
      rw [h p a (by omega) ha]

/-- A node `c` that the tree does not have becomes the child of `a`, which stands at `p` only. -/
theorem nodeAt_insert (hp : nodeAt child t p = some a) (hn : p.length < n)
    (honly : ∀ q, q.length ≤ n → nodeAt child t q = some a → q = p) (hnone : child a i = none)
    (hfresh : ∀ q, q.length ≤ n → nodeAt child t q ≠ some c) (hleaf : ∀ j, child' c j = none)
    (hnew : child' a i = some c) (hsame : ∀ b j, b ≠ c → (b ≠ a ∨ j ≠ i) → child' b j = child b j) :
    q.length ≤ n → (q = p ++ [i] → nodeAt child' t q = some c) ∧
      (q ≠ p ++ [i] → nodeAt child' t q = nodeAt child t q) := by
  induction q using List.reverseRecOn with
  | nil => exact fun _ => ⟨fun h => by simp at h, fun _ => rfl⟩
  | append_singleton r j ih =>
    intro hq
    rw [List.length_append, List.length_singleton] at hq
    obtain ⟨ih1, ih2⟩ := ih (by omega)
    rw [nodeAt_concat, nodeAt_concat]
    by_cases hr : r = p ++ [i]
    · -- below the new leaf there is nothing, before and after
      have hold : nodeAt child t r = none := by
        rw [hr, nodeAt_concat, hp]
        exact hnone
      refine ⟨fun h => ?_, fun _ => ?_⟩
      · have hlen := congrArg List.length h
        rw [hr] at hlen
        simp at hlen
      · rw [ih1 hr, hold]
        exact hleaf j
    · rw [ih2 hr]
      refine ⟨fun h => ?_, fun h => ?_⟩
      · obtain ⟨rfl, hj⟩ := List.append_inj' h rfl
        cases hj
        rw [hp]
        exact hnew
      · cases hb : nodeAt child t r with
        | none => rfl
        | some b =>
          have hbc : b ≠ c := fun he => hfresh r (by omega) (he ▸ hb)
          refine hsame b j hbc ?_
          by_contra hno
          simp only [not_or, not_not] at hno
          obtain ⟨rfl, rfl⟩ := hno
          exact h (by rw [honly r (by omega) hb])

/-! ## All nodes -/

/-- The nodes of the tree of depth `n` under `t`, children first, in the order of the indices. -/
def treeNodes (child : α → ι → Option α) (indices : List ι) : Nat → α → List α
  | 0, t => [t]
  | n + 1, t => indices.flatMap (fun i => match child t i with
    | some c => treeNodes child indices n c
    | none => []) ++ [t]

theorem mem_treeNodes {indices : List ι} (hall : ∀ i, i ∈ indices) :
    a ∈ treeNodes child indices n t ↔ ∃ p, p.length ≤ n ∧ nodeAt child t p = some a := by
  induction n generalizing t with
  | zero =>
    simp only [treeNodes, List.mem_singleton, Nat.le_zero, List.length_eq_zero_iff]
    constructor
    · rintro rfl
      exact ⟨[], rfl, rfl⟩
    · rintro ⟨p, rfl, hp⟩
      exact (Option.some.inj hp).symm
  | succ n ih =>
    simp only [treeNodes, List.mem_append, List.mem_flatMap, List.mem_singleton]
    constructor
    · rintro (⟨i, -, hi⟩ | rfl)
      · cases hc : child t i with
        | none =>
          rw [hc] at hi
          cases hi
        | some c =>
          rw [hc] at hi
          obtain ⟨p, hp, ha⟩ := ih.mp hi
          refine ⟨i :: p, by simpa using hp, ?_⟩
          show (child t i).bind _ = _
          rw [hc]
          exact ha
      · exact ⟨[], Nat.zero_le _, rfl⟩
    · rintro ⟨_ | ⟨i, p⟩, hp, ha⟩
      · exact .inr (Option.some.inj ha).symm
      · refine .inl ⟨i, hall i, ?_⟩
        obtain ⟨c, hc, ha⟩ := Option.bind_eq_some_iff.mp ha
        rw [hc]
        exact ih.mpr ⟨p, by simpa using hp, ha⟩

theorem treeNodes_nodup {indices : List ι} (hall : ∀ i, i ∈ indices) (hnd : indices.Nodup)
    (h : PathsInj child n t) : (treeNodes child indices n t).Nodup := by
  induction n generalizing t with
  | zero => simp [treeNodes]
  | succ n ih =>
    -- the nodes under the child `i` are those at the paths that start with `i`
    have hunder : ∀ i a, (a ∈ match child t i with
        | some c => treeNodes child indices n c
        | none => []) → ∃ p, p.length ≤ n ∧ nodeAt child t (i :: p) = some a := by
      intro i a ha
      cases hc : child t i with
      | none =>
        rw [hc] at ha
        cases ha
      | some c =>
        rw [hc] at ha
        obtain ⟨p, hp, hpa⟩ := (mem_treeNodes hall).mp ha
        refine ⟨p, hp, ?_⟩
        show (child t i).bind _ = _
        rw [hc]
        exact hpa
    unfold treeNodes
    refine List.nodup_append.mpr ⟨List.nodup_flatMap.mpr ⟨fun i _ => ?_, ?_⟩, by simp, ?_⟩
    · cases hc : child t i with
      | none => simp
      | some c => exact ih (h.below hc)
    · refine hnd.imp fun {i j} hij => ?_
      intro a hai haj
      obtain ⟨p, hp, hpa⟩ := hunder i a hai
      obtain ⟨q, hq, hqa⟩ := hunder j a haj
      have heq := h (i :: p) (j :: q) a (by simpa using hp) (by simpa using hq) hpa hqa
      exact hij (List.cons.inj heq).1
    · intro a ha b hb hab
      rw [List.mem_singleton.mp hb] at hab
      obtain ⟨i, -, hi⟩ := List.mem_flatMap.mp ha
      obtain ⟨p, hp, hpa⟩ := hunder i a hi
      have heq := h (i :: p) [] a (by simpa using hp) (Nat.zero_le _) hpa (by rw [hab]; rfl)
      cases heq

end Armonios
