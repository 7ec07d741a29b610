import Mathlib.Data.List.Sort
import Mathlib.Tactic.Ring
import ChipSim.Lib.Lists

/-!
# Lists in rows and columns

A pair of nested loops visits a grid row by row, so the element in a row and a column has a place in
the list that is computed from both. Sorting by columns and then by rows gives this order, because
the sort is stable.
-/

namespace Lib

variable {α β γ : Type*}

/-! ## Places -/

theorem length_flatMap_map (f : α → β → γ) (xs : List α) (ys : List β) :
    (xs.flatMap fun x => ys.map (f x)).length = xs.length * ys.length := by
  induction xs with
  | nil => simp
  | cons x xs ih =>
    rw [List.flatMap_cons, List.length_append, ih, List.length_map, List.length_cons]
    ring

/-- The element in row `i` and column `j`. -/
theorem getElem?_flatMap_map (f : α → β → γ) {xs : List α} {ys : List β} {i j : ℕ} {x : α} {y : β}
    (hx : xs[i]? = some x) (hy : ys[j]? = some y) :
    (xs.flatMap fun x => ys.map (f x))[i * ys.length + j]? = some (f x y) := by
  have hj : j < ys.length := (List.getElem?_eq_some_iff.mp hy).1
  induction xs generalizing i with
  | nil => cases hx
  | cons x' xs ih =>
    rw [List.flatMap_cons]
    cases i with
    | zero =>
      cases hx
      rw [List.getElem?_append_left (by rw [List.length_map]; omega), Nat.zero_mul, Nat.zero_add,
        List.getElem?_map, hy]
      rfl
    | succ i =>
      have hplace : (i + 1) * ys.length + j = ys.length + (i * ys.length + j) := by ring
      rw [hplace, List.getElem?_append_right (by rw [List.length_map]; omega), List.length_map,
        Nat.add_sub_cancel_left]
      exact ih hx

/-- Every place is in a row and a column. -/
theorem place_eq {m n k : ℕ} (hk : k < m * n) :
    k / n < m ∧ k % n < n ∧ k / n * n + k % n = k := by
  have hn : 0 < n := Nat.pos_of_ne_zero fun h => by simp [h] at hk
  exact ⟨Nat.div_lt_of_lt_mul (Nat.mul_comm m n ▸ hk), Nat.mod_lt k hn, Nat.div_add_mod' k n⟩

/-! ## Sorting -/

section StableSort

variable {r s : α → α → Prop} [DecidableRel r]

theorem pairwise_orderedInsert (htotal : ∀ a b, r a b ∨ r b a)
    (htrans : ∀ {a b c}, r a b → r b c → r a c) {a : α} {l : List α} (ha : ∀ b ∈ l, s a b)
    (hl : l.Pairwise fun a b => r a b ∧ (r b a → s a b)) :
    (l.orderedInsert r a).Pairwise fun a b => r a b ∧ (r b a → s a b) := by
  induction l with
  | nil => exact List.pairwise_singleton _ _
  | cons b l ih =>
    obtain ⟨hb, hl'⟩ := List.pairwise_cons.mp hl
    rw [List.orderedInsert_cons]
    split
    · next hab =>
      refine List.pairwise_cons.mpr ⟨fun c hc => ⟨?_, fun _ => ha c hc⟩, hl⟩
      rcases List.mem_cons.mp hc with rfl | hc
      · exact hab
      · exact htrans hab (hb c hc).1
    · next hab =>
      refine List.pairwise_cons.mpr ⟨fun c hc => ?_,
        ih (fun c hc => ha c (List.mem_cons_of_mem b hc)) hl'⟩
      rcases (List.mem_orderedInsert r).mp hc with rfl | hc
      · exact ⟨(htotal b c).resolve_right hab, fun h => absurd h hab⟩
      · exact hb c hc

/-- Insertion sort is stable: elements that are equal for `r` stay in the order `s`. -/
theorem pairwise_insertionSort_stable (htotal : ∀ a b, r a b ∨ r b a)
    (htrans : ∀ {a b c}, r a b → r b c → r a c) {l : List α} (hl : l.Pairwise s) :
    (l.insertionSort r).Pairwise fun a b => r a b ∧ (r b a → s a b) := by
  induction l with
  | nil => exact .nil
  | cons a l ih =>
    obtain ⟨ha, hl'⟩ := List.pairwise_cons.mp hl
    rw [List.insertionSort_cons]
    exact pairwise_orderedInsert htotal htrans
      (fun b hb => ha b ((List.mem_insertionSort r).mp hb)) (ih hl')

end StableSort

end Lib
