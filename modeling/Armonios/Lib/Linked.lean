import Mathlib.Data.List.Basic
import Mathlib.Tactic.Common

/-!
# Doubly linked lists

The nodes of a list in a memory that gives every node its next and its previous one. `Linked next prev p l q` says that
`l` are the nodes from the one after `p` to the one before `q`.

* `linked_append`: a list in two parts;
* `Linked.congr`: the memory of other nodes does not matter;
* `Linked.insert`, `Linked.remove`: a node after another one;
* `Linked.snoc`: a node at the end.
-/

namespace Armonios

variable {α : Type} {next prev next' prev' : α → α} {p q a b : α} {l r : List α}

/-- The first node, or what comes after the list. -/
def firstNode (l : List α) (q : α) : α := l.head?.getD q

/-- The last node, or what comes before the list. -/
def lastNode (p : α) (l : List α) : α := l.getLast?.getD p

@[simp] theorem firstNode_nil (q : α) : firstNode [] q = q := rfl

@[simp] theorem firstNode_cons (a : α) (l : List α) (q : α) : firstNode (a :: l) q = a := rfl

@[simp] theorem lastNode_nil (p : α) : lastNode p [] = p := rfl

@[simp] theorem lastNode_append_singleton (p : α) (l : List α) (a : α) : lastNode p (l ++ [a]) = a := by
  simp [lastNode]

theorem lastNode_cons (p a : α) (l : List α) : lastNode p (a :: l) = lastNode a l := by
  simp [lastNode, List.getLast?_cons]

theorem lastNode_append (p : α) (l r : List α) : lastNode p (l ++ r) = lastNode (lastNode p l) r := by
  induction l generalizing p with
  | nil => rfl
  | cons a l ih => rw [List.cons_append, lastNode_cons, lastNode_cons, ih]

theorem firstNode_append (l r : List α) (q : α) : firstNode (l ++ r) q = firstNode l (firstNode r q) := by
  cases l <;> rfl

def Linked (next prev : α → α) : (p : α) → List α → (q : α) → Prop
  | _, [], _ => True
  | p, a :: l, q => prev a = p ∧ next a = firstNode l q ∧ Linked next prev a l q

theorem linked_append : Linked next prev p (l ++ r) q ↔
    Linked next prev p l (firstNode r q) ∧ Linked next prev (lastNode p l) r q := by
  induction l generalizing p with
  | nil => simp [Linked]
  | cons a l ih =>
    rw [List.cons_append, Linked, Linked, ih, firstNode_append, lastNode_cons]
    simp only [and_assoc]

theorem Linked.congr (h : Linked next prev p l q) (hnext : ∀ a ∈ l, next' a = next a)
    (hprev : ∀ a ∈ l, prev' a = prev a) : Linked next' prev' p l q := by
  induction l generalizing p with
  | nil => trivial
  | cons a l ih =>
    obtain ⟨hp, hn, hrest⟩ := h
    refine ⟨by rw [hprev a List.mem_cons_self, hp], by rw [hnext a List.mem_cons_self, hn], ih hrest ?_ ?_⟩
    · exact fun b hb => hnext b (List.mem_cons_of_mem a hb)
    · exact fun b hb => hprev b (List.mem_cons_of_mem a hb)

/-- Only the last node knows what comes after the list. -/
theorem Linked.newNext {q' : α} (h : Linked next prev p (l ++ [a]) q) (hnext : ∀ b ∈ l, next' b = next b)
    (hprev : ∀ b ∈ l ++ [a], prev' b = prev b) (ha : next' a = q') : Linked next' prev' p (l ++ [a]) q' := by
  obtain ⟨hl, hlast⟩ := linked_append.mp h
  refine linked_append.mpr ⟨hl.congr hnext fun b hb => hprev b (List.mem_append_left _ hb), ?_, ha, trivial⟩
  rw [hprev a (by simp)]
  exact hlast.1

/-- Only the first node knows what comes before the list. -/
theorem Linked.newPrev {p' : α} (h : Linked next prev p (a :: l) q) (hnext : ∀ b ∈ a :: l, next' b = next b)
    (hprev : ∀ b ∈ l, prev' b = prev b) (ha : prev' a = p') : Linked next' prev' p' (a :: l) q := by
  obtain ⟨-, hn, hrest⟩ := h
  refine ⟨ha, by rw [hnext a List.mem_cons_self, hn], hrest.congr ?_ hprev⟩
  exact fun b hb => hnext b (List.mem_cons_of_mem a hb)

/-- `b` comes after `a`. -/
theorem Linked.insert (h : Linked next prev p (l ++ a :: r) q) (hnextA : next' a = b)
    (hnextB : next' b = firstNode r q) (hprevB : prev' b = a) (hfirst : ∀ c ∈ r.head?, prev' c = b)
    (hnext : ∀ c ∈ l ++ r, next' c = next c) (hprev : ∀ c ∈ l ++ [a] ++ r.tail, prev' c = prev c) :
    Linked next' prev' p (l ++ a :: b :: r) q := by
  obtain ⟨hl, hp, hn, hr⟩ := linked_append.mp h
  refine linked_append.mpr ⟨hl.congr ?_ ?_, ?_, hnextA, hprevB, hnextB, ?_⟩
  · exact fun c hc => hnext c (List.mem_append_left _ hc)
  · exact fun c hc => hprev c (by simp [hc])
  · rw [hprev a (by simp), hp]
  · cases r with
    | nil => trivial
    | cons c r =>
      refine hr.newPrev (fun d hd => hnext d (List.mem_append_right _ hd)) (fun d hd => ?_) (hfirst c rfl)
      exact hprev d (List.mem_append_right _ hd)

/-- The node `b` after `a` goes. -/
theorem Linked.remove (h : Linked next prev p (l ++ a :: b :: r) q) (hnextA : next' a = next b)
    (hfirst : ∀ c ∈ r.head?, prev' c = a) (hnext : ∀ c ∈ l ++ r, next' c = next c)
    (hprev : ∀ c ∈ l ++ [a] ++ r.tail, prev' c = prev c) : Linked next' prev' p (l ++ a :: r) q := by
  obtain ⟨hl, hp, hn, -, hnb, hr⟩ := linked_append.mp h
  refine linked_append.mpr ⟨hl.congr ?_ ?_, ?_, by rw [hnextA, hnb], ?_⟩
  · exact fun c hc => hnext c (List.mem_append_left _ hc)
  · exact fun c hc => hprev c (by simp [hc])
  · rw [hprev a (by simp), hp]
  · cases r with
    | nil => trivial
    | cons c r =>
      refine hr.newPrev (fun d hd => hnext d (List.mem_append_right _ hd)) (fun d hd => ?_) (hfirst c rfl)
      exact hprev d (List.mem_append_right _ hd)

/-- A node `b` at the end. -/
theorem Linked.snoc (h : Linked next prev p l q) (hlast : ∀ c ∈ l.getLast?, next' c = b) (hnextB : next' b = q)
    (hprevB : prev' b = lastNode p l) (hnext : ∀ c ∈ l.dropLast, next' c = next c)
    (hprev : ∀ c ∈ l, prev' c = prev c) : Linked next' prev' p (l ++ [b]) q := by
  refine linked_append.mpr ⟨?_, hprevB, hnextB, trivial⟩
  rcases List.eq_nil_or_concat l with rfl | ⟨front, a, rfl⟩
  · trivial
  · simp only [List.concat_eq_append] at *
    refine h.newNext (fun c hc => hnext c (by simpa using hc)) hprev ?_
    exact hlast a (by simp)

end Armonios
