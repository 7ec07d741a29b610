import Mathlib.Order.MinMax
import Mathlib.Data.Nat.Init

/-!
# Distances of weights

The entries of a matrix are the weights of the edges of a graph; the cost of a walk is the sum of
its weights. A matrix that is no larger than the weights, whose entries are costs of walks and that
satisfies the triangle inequality is the matrix of the least costs; so is one that can be checked
edge by edge. From every vertex some edge decreases the distance by its weight.
-/

namespace Lib

variable {ι : Type*} {w d d' : ι → ι → ℕ} {i j k : ι} {a b c : ℕ}

/-! ## Least values -/

theorem foldl_min_le {α : Type*} (f : α → ℕ) (l : List α) (m : ℕ) :
    l.foldl (fun m x => min m (f x)) m ≤ m ∧ ∀ x ∈ l, l.foldl (fun m x => min m (f x)) m ≤ f x := by
  induction l generalizing m with
  | nil => exact ⟨le_rfl, by simp⟩
  | cons x l ih =>
    obtain ⟨hm, hl⟩ := ih (min m (f x))
    refine ⟨hm.trans (min_le_left _ _), fun y hy => ?_⟩
    rcases List.mem_cons.mp hy with rfl | hy
    · exact hm.trans (min_le_right _ _)
    · exact hl y hy

theorem foldl_min_eq {α : Type*} (f : α → ℕ) (l : List α) (m : ℕ) :
    l.foldl (fun m x => min m (f x)) m = m ∨
      ∃ x ∈ l, l.foldl (fun m x => min m (f x)) m = f x := by
  induction l generalizing m with
  | nil => exact .inl rfl
  | cons x l ih =>
    rw [List.foldl_cons]
    rcases ih (min m (f x)) with h | ⟨y, hy, h⟩
    · rcases min_choice m (f x) with hmin | hmin
      · exact .inl (h.trans hmin)
      · exact .inr ⟨x, List.mem_cons_self, h.trans hmin⟩
    · exact .inr ⟨y, List.mem_cons_of_mem _ hy, h⟩

/-! ## Walks -/

/-- A walk of one or more edges, with its cost. -/
inductive Walk (w : ι → ι → ℕ) : ι → ι → ℕ → Prop
  | edge (i j : ι) : Walk w i j (w i j)
  | cons (i : ι) {k j : ι} {c : ℕ} (h : Walk w k j c) : Walk w i j (w i k + c)

theorem Walk.append (h : Walk w i k a) (h' : Walk w k j b) : Walk w i j (a + b) := by
  induction h with
  | edge i k => exact .cons i h'
  | cons i _ ih =>
    rw [Nat.add_assoc]
    exact .cons i (ih h')

/-- The least costs of walks. -/
structure IsDistance (w d : ι → ι → ℕ) : Prop where
  attained : ∀ i j, Walk w i j (d i j)
  le : ∀ {i j c}, Walk w i j c → d i j ≤ c

theorem isDistance_of_triangle (hattained : ∀ i j, Walk w i j (d i j))
    (hle : ∀ i j, d i j ≤ w i j) (htriangle : ∀ i k j, d i j ≤ d i k + d k j) :
    IsDistance w d where
  attained := hattained
  le {i j c} h := by
    induction h with
    | edge i j => exact hle i j
    | @cons i k j c _ ih =>
      have := htriangle i k j
      have := hle i k
      omega

/-- A matrix that no first edge improves, and some first edge attains, is the matrix of the least
costs. -/
theorem isDistance_of_edges (hself : ∀ j, d j j = 0) (hedge : ∀ i k j, d i j ≤ w i k + d k j)
    (hattained : ∀ i j, d i j = w i j ∨ ∃ k, d k j < d i j ∧ d i j = w i k + d k j) :
    IsDistance w d where
  attained i j := by
    induction h : d i j using Nat.strong_induction_on generalizing i with
    | _ c ih =>
      subst h
      rcases hattained i j with hij | ⟨k, hk, hij⟩
      · exact hij ▸ .edge i j
      · exact hij ▸ .cons i (ih (d k j) hk k rfl)
  le {i j c} h := by
    induction h with
    | edge i j => exact (hedge i j j).trans_eq (by rw [hself, Nat.add_zero])
    | @cons i k j c _ ih => exact (hedge i k j).trans (Nat.add_le_add_left ih _)

namespace IsDistance

theorem unique (h : IsDistance w d) (h' : IsDistance w d') : d = d' :=
  funext₂ fun i j => le_antisymm (h.le (h'.attained i j)) (h'.le (h.attained i j))

theorem le_weight_add (h : IsDistance w d) (i k j : ι) : d i j ≤ w i k + d k j :=
  h.le (.cons i (h.attained k j))

/-- The first edge of positive weight of a walk. -/
theorem exists_edge_le (h : IsDistance w d) (hw : ∀ i j, w i j = 0 → i = j) (hj : d j j = 0)
    (hij : i ≠ j) (hc : Walk w i j c) : ∃ k, 0 < w i k ∧ w i k + d k j ≤ c := by
  induction hc with
  | edge i j => exact ⟨j, Nat.pos_of_ne_zero fun h0 => hij (hw i j h0), by omega⟩
  | @cons i k j c hc ih =>
    by_cases hk : w i k = 0
    · -- An edge of weight `0` stays where it is.
      obtain rfl := hw i k hk
      obtain ⟨m, hm, hle⟩ := ih hj hij
      exact ⟨m, hm, by omega⟩
    · have := h.le hc
      exact ⟨k, Nat.pos_of_ne_zero hk, by omega⟩

/-- Some edge of positive weight decreases the distance by its weight. -/
theorem exists_edge (h : IsDistance w d) (hw : ∀ i j, w i j = 0 → i = j) (hj : d j j = 0)
    (hij : i ≠ j) : ∃ k, 0 < w i k ∧ w i k + d k j = d i j := by
  obtain ⟨k, hk, hle⟩ := h.exists_edge_le hw hj hij (h.attained i j)
  exact ⟨k, hk, le_antisymm hle (h.le_weight_add i k j)⟩

end IsDistance

end Lib
