import Mathlib.Algebra.BigOperators.Group.Finset.Piecewise
import Mathlib.Algebra.BigOperators.Group.List.Basic
import Mathlib.Algebra.Order.BigOperators.Group.List
import Mathlib.Data.List.GetD
import Mathlib.Tactic.Abel

/-!
# Arrays as lists

Reading an array modelled as a list after an assignment, with a default outside of its bounds.
-/

namespace Lib

variable {α : Type*}

theorem getD_replicate (n i : ℕ) (v : α) : (List.replicate n v).getD i v = v := by
  simp only [List.getD_eq_getElem?_getD, List.getElem?_replicate]
  split <;> rfl

theorem getD_set_ne (l : List α) {i j : ℕ} (t v : α) (h : j ≠ i) :
    (l.set i t).getD j v = l.getD j v := by
  simp only [List.getD_eq_getElem?_getD, List.getElem?_set_ne h.symm]

/-- An assignment within the bounds. -/
theorem getD_set {l : List α} {i : ℕ} (hi : i < l.length) (j : ℕ) (t v : α) :
    (l.set i t).getD j v = if j = i then t else l.getD j v := by
  by_cases hj : j = i
  · subst hj
    rw [if_pos rfl, List.getD_eq_getElem?_getD, List.getElem?_set_self hi, Option.getD_some]
  · rw [if_neg hj, getD_set_ne l t v hj]

theorem modify_append_right (l l' : List α) (i : ℕ) (f : α → α) :
    (l ++ l').modify (l.length + i) f = l ++ l'.modify i f := by
  induction l with
  | nil => simp
  | cons a l ih =>
    rw [List.length_cons, Nat.add_right_comm, List.cons_append, List.modify_succ_cons, ih,
      List.cons_append]

section

variable {σ τ : Type*} [DecidableEq α] {step : σ → α → σ} (proj : σ → τ) (f : τ → τ) (k : α)

/-- What a loop does to a component of its state that only the passes for `k` touch, when a
second such pass does nothing. -/
theorem foldl_update (h : ∀ s a, proj (step s a) = if a = k then f (proj s) else proj s)
    (hf : ∀ t, f (f t) = f t) (l : List α) (s : σ) :
    proj (l.foldl step s) = if k ∈ l then f (proj s) else proj s := by
  induction l generalizing s with
  | nil => rfl
  | cons a l ih =>
    rw [List.foldl_cons, ih, h]
    by_cases ha : a = k
    · rw [if_pos ha, hf, ite_self, if_pos (ha ▸ List.mem_cons_self)]
    · have hmem : k ∈ a :: l ↔ k ∈ l := by
        rw [List.mem_cons, or_iff_right fun hk => ha hk.symm]
      simp only [if_neg ha, hmem]

/-- The same for a loop over distinct elements. -/
theorem foldl_update_nodup (h : ∀ s a, proj (step s a) = if a = k then f (proj s) else proj s)
    {l : List α} (hl : l.Nodup) (s : σ) :
    proj (l.foldl step s) = if k ∈ l then f (proj s) else proj s := by
  induction l generalizing s with
  | nil => rfl
  | cons a l ih =>
    obtain ⟨ha', hl'⟩ := List.nodup_cons.mp hl
    rw [List.foldl_cons, ih hl', h]
    by_cases ha : a = k
    · rw [if_pos ha, if_neg (ha ▸ ha'), if_pos (ha ▸ List.mem_cons_self)]
    · have hmem : k ∈ a :: l ↔ k ∈ l := by
        rw [List.mem_cons, or_iff_right fun hk => ha hk.symm]
      simp only [if_neg ha, hmem]

end

/-- A loop in which some passes overwrite the state: the last of them decides. -/
theorem foldl_overwrite {τ : Type*} (P : α → Prop) [DecidablePred P] (v : α → τ) (l : List α)
    (t : τ) :
    (∃ a ∈ l, P a ∧ l.foldl (fun t a => if P a then v a else t) t = v a) ∨
      (∀ a ∈ l, ¬ P a) ∧ l.foldl (fun t a => if P a then v a else t) t = t := by
  induction l generalizing t with
  | nil => simp
  | cons a l ih =>
    rw [List.foldl_cons]
    obtain ⟨b, hb, hPb, hfold⟩ | ⟨hnone, hfold⟩ := ih (if P a then v a else t)
    · exact .inl ⟨b, List.mem_cons_of_mem a hb, hPb, hfold⟩
    · rw [hfold]
      by_cases ha : P a
      · exact .inl ⟨a, List.mem_cons_self, ha, if_pos ha⟩
      · exact .inr ⟨List.forall_mem_cons.mpr ⟨ha, hnone⟩, if_neg ha⟩

/-- A loop that appends an element in some of its passes. -/
theorem flatMap_ite_singleton {β : Type*} (p : α → Prop) [DecidablePred p] (f : α → β)
    (l : List α) :
    (l.flatMap fun a => if p a then [f a] else []) = (l.filter fun a => decide (p a)).map f := by
  induction l with
  | nil => rfl
  | cons a l ih =>
    rw [List.flatMap_cons, ih, List.filter_cons]
    by_cases ha : p a
    · rw [if_pos ha, if_pos (decide_eq_true ha)]
      rfl
    · rw [if_neg ha, if_neg (by simpa using ha)]
      rfl

theorem sum_map_filterMap {β γ : Type*} [AddCommMonoid γ] (f : α → Option β) (g : β → γ)
    (l : List α) :
    ((l.filterMap f).map g).sum = (l.map fun a => ((f a).map g).getD 0).sum := by
  induction l with
  | nil => rfl
  | cons a l ih => cases h : f a <;> simp [h, ih]

theorem sum_map_ite_zero {γ : Type*} [AddCommMonoid γ] (p : α → Prop) [DecidablePred p] (f : α → γ)
    (l : List α) : (l.map fun a => if p a then f a else 0).sum = ((l.filter p).map f).sum := by
  rw [List.sum_map_ite]
  simp

theorem sum_sum_comm {β γ : Type*} [AddCommMonoid γ] (f : α → β → γ) (l : List α) (l' : List β) :
    (l.map fun a => (l'.map (f a)).sum).sum = (l'.map fun b => (l.map fun a => f a b).sum).sum := by
  induction l with
  | nil => simp
  | cons a l ih => simp only [List.map_cons, List.sum_cons, ih, List.sum_map_add]

/-- A sum over a list, by index. -/
theorem sum_map_eq_sum_range {γ : Type*} [AddCommMonoid γ] (f : α → γ) (l : List α) :
    (l.map f).sum = ∑ k ∈ Finset.range l.length, ((l[k]?).map f).getD 0 := by
  induction l with
  | nil => rfl
  | cons a l ih =>
    rw [List.map_cons, List.sum_cons, ih, List.length_cons, Finset.sum_range_succ', add_comm]
    rfl

/-- One term of a sum over different elements. -/
theorem sum_map_ite_eq_of_nodup {γ : Type*} [DecidableEq α] [AddCommMonoid γ] {l : List α}
    (hl : l.Nodup) {a : α} (ha : a ∈ l) (v : γ) :
    (l.map fun b => if a = b then v else 0).sum = v := by
  rw [← List.sum_toFinset _ hl, Finset.sum_ite_eq, if_pos (List.mem_toFinset.mpr ha)]

/-- Sums of ordered terms are equal only if all terms are. -/
theorem sum_map_eq_iff_of_le {γ : Type*} [AddCommMonoid γ] [PartialOrder γ]
    [IsOrderedCancelAddMonoid γ] {f g : α → γ} {l : List α} (h : ∀ a ∈ l, f a ≤ g a) :
    (l.map f).sum = (l.map g).sum ↔ ∀ a ∈ l, f a = g a := by
  refine ⟨fun hsum a ha => ?_, fun hall => congrArg List.sum (List.map_congr_left hall)⟩
  by_contra hne
  exact (List.sum_lt_sum f g h ⟨a, ha, (h a ha).lt_of_ne hne⟩).ne hsum

theorem sum_map_pos_iff_of_nonneg {γ : Type*} [AddCommMonoid γ] [PartialOrder γ]
    [IsOrderedCancelAddMonoid γ] {f : α → γ} {l : List α} (h : ∀ a ∈ l, 0 ≤ f a) :
    0 < (l.map f).sum ↔ ∃ a ∈ l, 0 < f a := by
  have hzero : (l.map fun _ => (0 : γ)).sum = 0 := by simp
  have heq := sum_map_eq_iff_of_le (f := fun _ => 0) h
  rw [hzero] at heq
  have hsum : 0 ≤ (l.map f).sum := by
    refine List.sum_nonneg fun v hv => ?_
    obtain ⟨a, ha, rfl⟩ := List.mem_map.mp hv
    exact h a ha
  constructor
  · intro hpos
    by_contra! hall
    exact hpos.ne (heq.mpr fun a ha => (h a ha).eq_of_not_lt (hall a ha))
  · rintro ⟨a, ha, hpos⟩
    exact hsum.lt_of_ne fun hz => hpos.ne (heq.mp hz a ha)

/-- At most one element of a list has a property if no two of them have. -/
theorem length_filter_le_one_iff {p : α → Bool} {l : List α} :
    (l.filter p).length ≤ 1 ↔ l.Pairwise fun a b => ¬ (p a = true ∧ p b = true) := by
  induction l with
  | nil => simp
  | cons a l ih =>
    rw [List.pairwise_cons, ← ih]
    by_cases ha : p a = true
    · rw [List.filter_cons_of_pos ha, List.length_cons]
      have hnone : (l.filter p).length ≤ 0 ↔ ∀ b ∈ l, ¬ (p a = true ∧ p b = true) := by
        rw [Nat.le_zero, List.length_eq_zero_iff, List.filter_eq_nil_iff]
        exact forall₂_congr fun b _ => by simp [ha]
      rw [← hnone]
      omega
    · rw [List.filter_cons_of_neg ha]
      simp [ha]

theorem map_fst_zipWith {β γ : Type*} (f : α → γ) {l : List α} {l' : List β}
    (h : l.length = l'.length) :
    (List.zipWith (fun a b => (f a, b)) l l').map Prod.fst = l.map f := by
  conv_rhs => rw [← List.map_fst_zip h.le, List.map_map]
  rw [← List.map_uncurry_zip_eq_zipWith, List.map_map]
  rfl

theorem map_snd_zipWith {β γ : Type*} (f : α → γ) {l : List α} {l' : List β}
    (h : l.length = l'.length) :
    (List.zipWith (fun a b => (f a, b)) l l').map Prod.snd = l' := by
  conv_rhs => rw [← List.map_snd_zip h.ge]
  rw [← List.map_uncurry_zip_eq_zipWith, List.map_map]
  rfl

/-- What stands before the first separator. -/
theorem append_cons_inj_of_not_mem {x : α} {l l' r r' : List α} (hl : x ∉ l)
    (hl' : x ∉ l') (h : l ++ x :: r = l' ++ x :: r') : l = l' := by
  induction l generalizing l' with
  | nil =>
    cases l' with
    | nil => rfl
    | cons a l' =>
      obtain rfl : x = a := (List.cons.inj h).1
      exact absurd List.mem_cons_self hl'
  | cons a l ih =>
    cases l' with
    | nil =>
      obtain rfl : a = x := (List.cons.inj h).1
      exact absurd List.mem_cons_self hl
    | cons b l' =>
      obtain ⟨rfl, htail⟩ := List.cons.inj h
      rw [ih (fun hx => hl (List.mem_cons_of_mem _ hx)) (fun hx => hl' (List.mem_cons_of_mem _ hx))
        htail]

/-- The sum after an assignment. -/
theorem sum_set [AddCommGroup α] {l : List α} {i : ℕ} {v : α} (h : l[i]? = some v) (t : α) :
    (l.set i t).sum = l.sum - v + t := by
  induction l generalizing i with
  | nil => simp at h
  | cons a l ih =>
    cases i with
    | zero =>
      rw [List.getElem?_cons_zero, Option.some.injEq] at h
      rw [List.set_cons_zero, List.sum_cons, List.sum_cons, h]
      abel
    | succ i =>
      rw [List.getElem?_cons_succ] at h
      rw [List.set_cons_succ, List.sum_cons, List.sum_cons, ih h]
      abel

end Lib
