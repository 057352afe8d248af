import Mathlib.Data.List.Basic
import Mathlib.Data.List.Nodup
import Mathlib.Algebra.Ring.Nat
import Mathlib.Tactic.Common

/-!
# Chains over a successor map

A linked structure that keeps its links in one table (the next index of every cell) is a map
`next : α → α` and a predicate `stop` on the values that end a chain. `Chain next stop a l`: the
walk from `a` visits the cells `l`, in this order, and then meets an end mark. The walk is
deterministic, so a chain that ends has no cell twice (`Chain.nodup`).

`Family next stop ok head`: every index `i` with a head owns a chain of cells that satisfy `ok`,
and the chains of two indices have no cell in common. The rules say how a family changes with the
table:

* `Family.congr_next`: a change outside all chains;
* `Family.extend`: a fresh cell after the last one of a chain;
* `Family.start`: a fresh cell as a new chain;
* `Family.restrict`: fewer heads.
-/

namespace Armonios

variable {α ι : Type} {next next' : α → α} {stop : α → Prop} {ok : α → Prop}

/-- The walk from `a` visits `l` and then meets an end mark. -/
inductive Chain (next : α → α) (stop : α → Prop) : α → List α → Prop
  | done {a : α} : stop a → Chain next stop a []
  | step {a : α} {l : List α} : ¬stop a → Chain next stop (next a) l → Chain next stop a (a :: l)

namespace Chain

variable {a b x : α} {l m : List α}

theorem head_eq (h : Chain next stop a (b :: l)) : a = b := by
  cases h; rfl

theorem tail (h : Chain next stop a (b :: l)) : Chain next stop (next b) l := by
  cases h; assumption

theorem stop_of_nil (h : Chain next stop a []) : stop a := by
  cases h; assumption

theorem not_stop (h : Chain next stop a l) (hx : x ∈ l) : ¬stop x := by
  induction h with
  | done _ => cases hx
  | step hs _ ih =>
    rcases List.mem_cons.mp hx with rfl | hx
    · exact hs
    · exact ih hx

/-- The walk is deterministic. -/
theorem unique (h : Chain next stop a l) : ∀ {m}, Chain next stop a m → l = m := by
  induction h with
  | done hs => intro m hm; cases hm with
    | done => rfl
    | step hn => exact absurd hs hn
  | step hs _ ih => intro m hm; cases hm with
    | done hn => exact absurd hn hs
    | step _ hm => rw [ih hm]

/-- The rest of a chain from one of its cells on. -/
theorem suffix : ∀ {p : List α}, Chain next stop a (p ++ b :: l) → Chain next stop b (b :: l) := by
  intro p
  induction p generalizing a with
  | nil => intro h; obtain rfl := head_eq h; exact h
  | cons y p ih => intro h; exact ih h.tail

/-- A chain that ends has no cell twice: the walk from the second visit would be the walk from the
first, and both end after different lengths. -/
theorem nodup (h : Chain next stop a l) : l.Nodup := by
  induction h with
  | done _ => exact List.nodup_nil
  | @step a l hs ht ih =>
    refine List.nodup_cons.mpr ⟨fun hmem => ?_, ih⟩
    obtain ⟨p, q, rfl⟩ := List.append_of_mem hmem
    have h1 := unique (suffix ht) (Chain.step hs ht)
    have h2 := congrArg List.length h1
    simp at h2
    omega

theorem congr (h : Chain next stop a l) (hn : ∀ y ∈ l, next' y = next y) :
    Chain next' stop a l := by
  induction h with
  | done hs => exact .done hs
  | step hs _ ih =>
    refine .step hs ?_
    rw [hn _ (by simp)]
    exact ih fun y hy => hn y (by simp [hy])

/-- More end marks, none of them on the chain. -/
theorem weaken {stop' : α → Prop} (h : Chain next stop a l) (hs : ∀ y, stop y → stop' y)
    (hl : ∀ y ∈ l, ¬stop' y) : Chain next stop' a l := by
  induction h with
  | done h => exact .done (hs _ h)
  | step _ _ ih => exact .step (hl _ (by simp)) (ih fun y hy => hl y (by simp [hy]))

/-- The successor of a cell is a cell of the chain or an end mark. -/
theorem next_mem_or_stop (h : Chain next stop a l) (hx : x ∈ l) : next x ∈ l ∨ stop (next x) := by
  obtain ⟨p, q, rfl⟩ := List.append_of_mem hx
  have ht := (suffix h).tail
  cases q with
  | nil => exact .inr ht.stop_of_nil
  | cons c q => left; rw [ht.head_eq]; simp

/-- A fresh cell `b` linked after the last cell `x`. -/
theorem extend (h : Chain next stop a (l ++ [x])) (hl : ∀ y ∈ l, next' y = next y)
    (hx : next' x = b) (hb : ¬stop b) (he : stop (next' b)) :
    Chain next' stop a (l ++ [x, b]) := by
  induction l generalizing a with
  | nil =>
    obtain rfl := h.head_eq
    refine .step (h.not_stop (by simp)) ?_
    rw [hx]
    exact .step hb (.done he)
  | cons y l ih =>
    obtain rfl := h.head_eq
    refine .step (h.not_stop (by simp)) ?_
    rw [hl _ (by simp)]
    exact ih h.tail fun z hz => hl z (by simp [hz])

theorem length_pos (h : Chain next stop a l) (ha : ¬stop a) : 0 < l.length := by
  cases h with
  | done hs => exact absurd hs ha
  | step => simp

/-- A chain that does not stop at once starts with its head. -/
theorem nil_of_stop (h : Chain next stop a l) (ha : stop a) : l = [] := by
  cases h with
  | done => rfl
  | step hs => exact absurd ha hs

theorem eq_cons (h : Chain next stop a l) (ha : ¬stop a) : ∃ t, l = a :: t := by
  cases h with
  | done hs => exact absurd hs ha
  | step => exact ⟨_, rfl⟩

end Chain

/-- `x` is met on the walk from `a`, whether the walk ends or not. -/
inductive Reaches (next : α → α) (stop : α → Prop) : α → α → Prop
  | here {a : α} : ¬stop a → Reaches next stop a a
  | later {a x : α} : ¬stop a → Reaches next stop (next a) x → Reaches next stop a x

/-- A walk that stops at least where the chain does stays on the chain. -/
theorem Chain.mem_of_reaches {stop' : α → Prop} {a x : α} {l : List α} (h : Chain next stop a l)
    (hstop : ∀ y, stop y → stop' y) (hr : Reaches next stop' a x) : x ∈ l := by
  induction hr generalizing l with
  | here hs => obtain ⟨t, rfl⟩ := h.eq_cons (fun h => hs (hstop _ h)); simp
  | later hs _ ih =>
    obtain ⟨t, rfl⟩ := h.eq_cons (fun h => hs (hstop _ h))
    exact List.mem_cons_of_mem _ (ih h.tail)

theorem Chain.reaches_of_mem {stop' : α → Prop} {a x : α} {l : List α} (h : Chain next stop a l)
    (hstop : ∀ y ∈ l, ¬stop' y) (hx : x ∈ l) : Reaches next stop' a x := by
  induction h with
  | done _ => cases hx
  | step hs _ ih =>
    rcases List.mem_cons.mp hx with rfl | hx
    · exact .here (hstop _ (by simp))
    · exact .later (hstop _ (by simp)) (ih (fun y hy => hstop y (by simp [hy])) hx)

/-- Every index with a head owns a chain of `ok` cells, and no two indices share a cell. -/
structure Family (next : α → α) (stop ok : α → Prop) (head : ι → Option α) : Prop where
  start : ∀ {i a}, head i = some a → ¬stop a
  chain : ∀ {i a}, head i = some a → ∃ l, Chain next stop a l ∧ ∀ x ∈ l, ok x
  disj : ∀ {i j a b l m}, i ≠ j → head i = some a → head j = some b → Chain next stop a l →
    Chain next stop b m → ∀ x ∈ l, x ∉ m

/-- `x` is on no chain of the family. -/
def Family.Fresh (next : α → α) (stop : α → Prop) (head : ι → Option α) (x : α) : Prop :=
  ∀ i a l, head i = some a → Chain next stop a l → x ∉ l

namespace Family

variable {head head' : ι → Option α}

theorem ok_of_mem (h : Family next stop ok head) {i : ι} {a x : α} {l : List α}
    (hi : head i = some a) (hc : Chain next stop a l) (hx : x ∈ l) : ok x := by
  obtain ⟨m, hm, hok⟩ := h.chain hi
  rw [hc.unique hm] at hx
  exact hok x hx

/-- A change of the table outside all chains. -/
theorem congr_next (h : Family next stop ok head)
    (hn : ∀ i a l x, head i = some a → Chain next stop a l → x ∈ l → next' x = next x) :
    Family next' stop ok head := by
  have hback : ∀ {i a l}, head i = some a → Chain next' stop a l → Chain next stop a l := by
    intro i a l hi hc
    obtain ⟨m, hm, -⟩ := h.chain hi
    have hm' := hm.congr (fun y hy => hn i a m y hi hm hy)
    rw [hc.unique hm']
    exact hm
  refine ⟨h.start, fun {i a} hi => ?_, fun hij hi hj hl hm => ?_⟩
  · obtain ⟨l, hl, hok⟩ := h.chain hi
    exact ⟨l, hl.congr fun y hy => hn i a l y hi hl hy, hok⟩
  · exact h.disj hij hi hj (hback hi hl) (hback hj hm)

/-- Fewer heads. -/
theorem restrict (h : Family next stop ok head) (hh : ∀ i a, head' i = some a → head i = some a) :
    Family next stop ok head' where
  start hi := h.start (hh _ _ hi)
  chain hi := h.chain (hh _ _ hi)
  disj hij hi hj := h.disj hij (hh _ _ hi) (hh _ _ hj)

/-- A fresh cell as a chain of its own, under an index that had no chain. -/
theorem start_chain [DecidableEq ι] (h : Family next stop ok head) {i : ι} {b : α}
    (hf : Fresh next stop head b) (hi : ∀ j, j ≠ i → head' j = head j) (hib : head' i = some b)
    (hok : ok b) (hb : ¬stop b) (he : stop (next' b))
    (hn : ∀ y, ok y → y ≠ b → next' y = next y) : Family next' stop ok head' := by
  have hnew : Chain next' stop b [b] := .step hb (.done he)
  -- the old chains, read with the new table
  have hkeep : ∀ {j a l}, j ≠ i → head' j = some a → Chain next stop a l → Chain next' stop a l := by
    intro j a l hj ha hl
    rw [hi j hj] at ha
    refine hl.congr fun y hy => hn y (h.ok_of_mem ha hl hy) fun e => ?_
    subst e
    exact hf j a l ha hl hy
  have hback : ∀ {j a l}, j ≠ i → head' j = some a → Chain next' stop a l → Chain next stop a l := by
    intro j a l hj ha hl
    obtain ⟨m, hm, -⟩ := h.chain (by rw [← hi j hj]; exact ha)
    rw [hl.unique (hkeep hj ha hm)]
    exact hm
  refine ⟨fun {j a} ha => ?_, fun {j a} ha => ?_, fun {j k a c l m} hjk ha hc hl hm x hx hx' => ?_⟩
  · by_cases hj : j = i
    · subst hj; rw [hib] at ha; cases ha; exact hb
    · exact h.start (by rw [← hi j hj]; exact ha)
  · by_cases hj : j = i
    · subst hj
      rw [hib] at ha; cases ha
      exact ⟨[b], hnew, by simpa using hok⟩
    · obtain ⟨l, hl, hokl⟩ := h.chain (by rw [← hi j hj]; exact ha)
      exact ⟨l, hkeep hj ha hl, hokl⟩
  · by_cases hj : j = i
    · subst hj
      rw [hib] at ha; cases ha
      rw [hl.unique hnew] at hx
      have hx := List.mem_singleton.mp hx
      subst hx
      have hk : k ≠ j := fun e => hjk e.symm
      exact hf k c m (by rw [← hi k hk]; exact hc) (hback hk hc hm) hx'
    · by_cases hk : k = i
      · subst hk
        rw [hib] at hc; cases hc
        rw [hm.unique hnew] at hx'
        have hx' := List.mem_singleton.mp hx'
        subst hx'
        exact hf j a l (by rw [← hi j hj]; exact ha) (hback hj ha hl) hx
      · exact h.disj hjk (by rw [← hi j hj]; exact ha) (by rw [← hi k hk]; exact hc)
          (hback hj ha hl) (hback hk hc hm) x hx hx'

/-- A fresh cell after the last cell `x` of the chain of `i`. -/
theorem extend (h : Family next stop ok head) {i : ι} {a b x : α} {l : List α}
    (hi : head i = some a) (hc : Chain next stop a (l ++ [x])) (hf : Fresh next stop head b)
    (hok : ok b) (hb : ¬stop b) (hx : next' x = b) (he : stop (next' b))
    (hn : ∀ y, ok y → y ≠ x → y ≠ b → next' y = next y) :
    Family next' stop ok head ∧ Chain next' stop a (l ++ [x, b]) := by
  have hbl : b ∉ l ++ [x] := hf i a _ hi hc
  have hxl : x ∉ l := fun hmem => by
    have := hc.nodup
    rw [List.nodup_append] at this
    exact this.2.2 _ hmem _ (List.mem_singleton.mpr rfl) rfl
  have hnew : Chain next' stop a (l ++ [x, b]) :=
    hc.extend (fun y hy => hn y (h.ok_of_mem hi hc (by simp [hy])) (fun e => hxl (e ▸ hy))
      (fun e => hbl (by simp [← e, hy]))) hx hb he
  have hkeep : ∀ {j a' l'}, j ≠ i → head j = some a' → Chain next stop a' l' →
      Chain next' stop a' l' := by
    intro j a' l' hj ha hl
    refine hl.congr fun y hy => hn y (h.ok_of_mem ha hl hy) (fun e => ?_) fun e => ?_
    · subst e
      exact h.disj hj ha hi hl hc _ hy (by simp)
    · subst e
      exact hf j a' l' ha hl hy
  have hback : ∀ {j a' l'}, j ≠ i → head j = some a' → Chain next' stop a' l' →
      Chain next stop a' l' := by
    intro j a' l' hj ha hl
    obtain ⟨m, hm, -⟩ := h.chain ha
    rw [hl.unique (hkeep hj ha hm)]
    exact hm
  -- a cell of the extended chain is an old one or the fresh one
  have hmem : ∀ {j a' l' y}, j ≠ i → head j = some a' → Chain next' stop a' l' →
      y ∈ l ++ [x, b] → y ∉ l' := by
    intro j a' l' y hj ha hl hy hy'
    have hl := hback hj ha hl
    have hy2 : y ∈ l ++ [x] ∨ y = b := by
      simp only [List.mem_append, List.mem_cons, List.not_mem_nil, or_false] at hy ⊢
      tauto
    rcases hy2 with hy | rfl
    · exact h.disj hj ha hi hl hc _ hy' hy
    · exact hf j a' l' ha hl hy'
  refine ⟨⟨h.start, fun {j a'} ha => ?_, fun {j k a' c l' m} hjk ha hck hl hm y hy hy' => ?_⟩, hnew⟩
  · by_cases hj : j = i
    · subst hj
      rw [hi] at ha; cases ha
      refine ⟨_, hnew, fun y hy => ?_⟩
      have hy2 : y ∈ l ++ [x] ∨ y = b := by
        simp only [List.mem_append, List.mem_cons, List.not_mem_nil, or_false] at hy ⊢
        tauto
      rcases hy2 with hy | rfl
      · exact h.ok_of_mem hi hc hy
      · exact hok
    · obtain ⟨l', hl, hokl⟩ := h.chain ha
      exact ⟨l', hkeep hj ha hl, hokl⟩
  · by_cases hj : j = i
    · subst hj
      rw [hi] at ha; cases ha
      rw [hl.unique hnew] at hy
      exact hmem (fun e => hjk e.symm) hck hm hy hy'
    · by_cases hk : k = i
      · subst hk
        rw [hi] at hck; cases hck
        rw [hm.unique hnew] at hy'
        exact hmem hj ha hl hy' hy
      · exact h.disj hjk ha hck (hback hj ha hl) (hback hk hck hm) y hy hy'

end Family

end Armonios
