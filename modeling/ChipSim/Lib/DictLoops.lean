import Mathlib.Algebra.BigOperators.Group.Finset.Basic
import Mathlib.Algebra.BigOperators.Group.List.Basic
import Mathlib.Algebra.Order.BigOperators.Group.List
import Mathlib.Algebra.Order.Ring.Nat
import Mathlib.Tactic.Abel
import ChipSim.Lib.Dict
import ChipSim.Lib.Fold

/-!
# Sums and loops over dictionaries

The sum of a quantity over the values of a dictionary, under assignment and deletion; and the
relation between a dictionary and the one obtained by replacing every value in a loop.
-/

namespace Lib

namespace Dict

universe u v

variable {α β : Type v} {γ : Type*} [DecidableEq α]

/-! ## Sums -/

section

variable [AddCommMonoid γ]

/-- The sum of a quantity over all values. -/
def sumOf (f : β → γ) (d : Dict α β) : γ := (d.values.map f).sum

/-- A sum over the entries, by keys. -/
theorem sum_entries_keys (f : α → β → γ) (d : Dict α β) :
    (d.entries.map fun e => f e.1 e.2).sum =
      (d.keys.map fun k => ((d.get? k).map (f k)).getD 0).sum := by
  unfold keys
  rw [List.map_map]
  congr 1
  refine List.map_congr_left fun e he => ?_
  rw [Function.comp_apply, mem_entries_iff.mp he]
  rfl

/-- The sum, by keys. -/
theorem sumOf_keys (f : β → γ) (d : Dict α β) :
    sumOf f d = (d.keys.map fun k => ((d.get? k).map f).getD 0).sum := by
  unfold sumOf values
  rw [List.map_map]
  exact sum_entries_keys (fun _ => f) d

/-- The sum over a list that has all keys. -/
theorem sumOf_eq_sum (f : β → γ) (d : Dict α β) {ks : List α} (hks : ks.Nodup)
    (hmem : ∀ k ∈ d, k ∈ ks) : sumOf f d = (ks.map fun k => ((d.get? k).map f).getD 0).sum := by
  rw [sumOf_keys, ← List.sum_toFinset _ d.nodup_keys, ← List.sum_toFinset _ hks]
  refine Finset.sum_subset (fun k hk => ?_) fun k _ hk => ?_
  · rw [List.mem_toFinset] at hk ⊢
    exact hmem k (mem_def.mpr hk)
  · rw [List.mem_toFinset, ← mem_def] at hk
    rw [get?_eq_none_iff.mpr hk]
    rfl

theorem sum_setEntries (f : β → γ) (k : α) (v : β) (es : List (α × β)) :
    ((setEntries k v es).map fun e => f e.2).sum + ((es.lookup k).map f).getD 0 =
      (es.map fun e => f e.2).sum + f v := by
  induction es with
  | nil => simp [setEntries]
  | cons e es ih =>
    rw [lookup_cons_ite, setEntries]
    by_cases he : e.1 = k
    · rw [if_pos he, if_pos he.symm]
      simp only [List.map_cons, List.sum_cons, Option.map_some, Option.getD_some]
      abel
    · rw [if_neg he, if_neg (Ne.symm he)]
      simp only [List.map_cons, List.sum_cons]
      rw [add_assoc, ih, add_assoc]

/-- An assignment adds the new value and takes away the old one. -/
theorem sumOf_set (f : β → γ) (d : Dict α β) (k : α) (v : β) :
    sumOf f (d.set k v) + ((d.get? k).map f).getD 0 = sumOf f d + f v := by
  unfold sumOf values
  rw [List.map_map, List.map_map]
  exact sum_setEntries f k v d.entries

theorem sum_filter_ne (f : β → γ) (k : α) (es : List (α × β)) (h : (es.map Prod.fst).Nodup) :
    ((es.filter fun e => e.1 ≠ k).map fun e => f e.2).sum + ((es.lookup k).map f).getD 0 =
      (es.map fun e => f e.2).sum := by
  induction es with
  | nil => simp
  | cons e es ih =>
    rw [List.map_cons, List.nodup_cons] at h
    rw [lookup_cons_ite, List.filter_cons]
    by_cases he : e.1 = k
    · have hall : es.filter (fun e => e.1 ≠ k) = es := by
        rw [List.filter_eq_self]
        intro e' he'
        have hne : e'.1 ≠ k := fun h' => h.1 (List.mem_map.mpr ⟨e', he', h'.trans he.symm⟩)
        simpa using hne
      simp only [he, ne_eq, not_true, decide_false, if_true, hall, Option.map_some,
        Option.getD_some, List.map_cons, List.sum_cons, Bool.false_eq_true, if_false]
      exact add_comm _ _
    · have he' : decide (e.1 ≠ k) = true := by simpa using he
      rw [if_pos he', if_neg (Ne.symm he)]
      simp only [List.map_cons, List.sum_cons]
      rw [add_assoc, ih h.2]

/-- A deletion takes the value away. -/
theorem sumOf_erase (f : β → γ) (d : Dict α β) (k : α) :
    sumOf f (d.erase k) + ((d.get? k).map f).getD 0 = sumOf f d := by
  unfold sumOf values
  rw [List.map_map, List.map_map]
  exact sum_filter_ne f k d.entries d.nodup

end

/-! ## Replacing values -/

/-- The same keys in the same order, with related values. -/
structure Related (R : α → β → β → Prop) (d d' : Dict α β) : Prop where
  keys : d'.keys = d.keys
  values : ∀ k v', d'.get? k = some v' → ∃ v, d.get? k = some v ∧ R k v v'

variable {R : α → β → β → Prop} {d d' d'' : Dict α β}

theorem Related.mem (h : Related R d d') (k : α) : k ∈ d' ↔ k ∈ d := by
  rw [mem_def, mem_def, h.keys]

theorem Related.get? (h : Related R d d') {k : α} {v : β} (hv : d.get? k = some v) :
    ∃ v', d'.get? k = some v' ∧ R k v v' := by
  obtain ⟨v', hv'⟩ := mem_iff.mp ((h.mem k).mpr (mem_of_get? hv))
  obtain ⟨w, hw, hR⟩ := h.values k v' hv'
  rw [hv, Option.some.injEq] at hw
  exact ⟨v', hv', hw ▸ hR⟩

theorem Related.refl (hR : ∀ k v, R k v v) (d : Dict α β) : Related R d d :=
  ⟨rfl, fun k v hv => ⟨v, hv, hR k v⟩⟩

theorem Related.trans {R₁ R₂ : α → β → β → Prop} (h₁ : Related R₁ d d') (h₂ : Related R₂ d' d'')
    (hR : ∀ k u v w, R₁ k u v → R₂ k v w → R k u w) : Related R d d'' := by
  refine ⟨h₂.keys.trans h₁.keys, fun k w hw => ?_⟩
  obtain ⟨v, hv, hvw⟩ := h₂.values k w hw
  obtain ⟨u, hu, huv⟩ := h₁.values k v hv
  exact ⟨u, hu, hR k u v w huv hvw⟩

theorem Related.mono {R' : α → β → β → Prop} (h : Related R d d')
    (hR : ∀ k v v', R k v v' → R' k v v') : Related R' d d' := by
  refine ⟨h.keys, fun k v' hv' => ?_⟩
  obtain ⟨v, hv, hvv'⟩ := h.values k v' hv'
  exact ⟨v, hv, hR k v v' hvv'⟩

theorem Related.set (hR : ∀ k v, R k v v) {k : α} {v v' : β} (hv : d.get? k = some v)
    (hvv' : R k v v') : Related R d (d.set k v') := by
  refine ⟨keys_set_of_mem v' (mem_of_get? hv), fun k' w hw => ?_⟩
  rw [get?_set] at hw
  by_cases hk : k' = k
  · rw [if_pos hk, Option.some.injEq] at hw
    subst hk hw
    exact ⟨v, hv, hvv'⟩
  · rw [if_neg hk] at hw
    exact ⟨w, hw, hR k' w⟩

theorem Related.mapValues {f : α → β → β} (hf : ∀ k v, d.get? k = some v → R k v (f k v)) :
    Related R d (d.mapValues f) := by
  refine ⟨keys_mapValues d f, fun k w hw => ?_⟩
  rw [get?_mapValues] at hw
  obtain ⟨v, hv, rfl⟩ := Option.map_eq_some_iff.mp hw
  exact ⟨v, hv, hf k v hv⟩

/-- Related dictionaries have the same sum of quantities that agree on related values. -/
theorem Related.sumOf_eq [AddCommMonoid γ] {f g : β → γ} (h : Related R d d')
    (hf : ∀ k v v', d.get? k = some v → R k v v' → f v' = g v) : sumOf f d' = sumOf g d := by
  rw [sumOf_keys, sumOf_keys, h.keys]
  congr 1
  refine List.map_congr_left fun k hk => ?_
  obtain ⟨v, hv⟩ := mem_iff.mp (mem_def.mpr hk)
  obtain ⟨v', hv', hR⟩ := h.get? hv
  rw [hv, hv', Option.map_some, Option.map_some, hf k v v' hv hR]

section

variable {f : β → ℕ}

theorem Related.getD_le (h : Related R d d')
    (hf : ∀ k v v', d.get? k = some v → R k v v' → f v ≤ f v') :
    ∀ k ∈ d.keys, ((d.get? k).map f).getD 0 ≤ ((d'.get? k).map f).getD 0 := by
  intro k hk
  obtain ⟨v, hv⟩ := mem_iff.mp (mem_def.mpr hk)
  obtain ⟨v', hv', hR⟩ := h.get? hv
  rw [hv, hv']
  exact hf k v v' hv hR

/-- A sum of quantities that do not decrease does not decrease. -/
theorem Related.sumOf_le (h : Related R d d')
    (hf : ∀ k v v', d.get? k = some v → R k v v' → f v ≤ f v') : sumOf f d ≤ sumOf f d' := by
  rw [sumOf_keys, sumOf_keys, h.keys]
  exact List.sum_le_sum (h.getD_le hf)

/-- It increases with one of them. -/
theorem Related.sumOf_lt (h : Related R d d')
    (hf : ∀ k v v', d.get? k = some v → R k v v' → f v ≤ f v') {k : α} {v v' : β}
    (hv : d.get? k = some v) (hv' : d'.get? k = some v') (hlt : f v < f v') :
    sumOf f d < sumOf f d' := by
  rw [sumOf_keys, sumOf_keys, h.keys]
  refine List.sum_lt_sum _ _ (h.getD_le hf) ⟨k, mem_of_get? hv, ?_⟩
  rw [hv, hv']
  exact hlt

end

/-- A loop that replaces the value of every key it visits: each is related to the old one, and the
other keys keep their values. -/
theorem foldlM_set {ε : Type u} {σ : Type v} (proj : σ → Dict α β) {step : σ → α × β → Except ε σ}
    {l : List (α × β)} {s s' : σ} (hl : (l.map Prod.fst).Nodup)
    (hstep : ∀ e ∈ l, ∀ s s', step s e = .ok s' →
      ∃ v', R e.1 e.2 v' ∧ proj s' = (proj s).set e.1 v')
    (h : l.foldlM step s = .ok s') (hmem : ∀ e ∈ l, e.1 ∈ proj s) :
    (proj s').keys = (proj s).keys ∧
      (∀ e ∈ l, ∃ v', (proj s').get? e.1 = some v' ∧ R e.1 e.2 v') ∧
      ∀ k, k ∉ l.map Prod.fst → (proj s').get? k = (proj s).get? k := by
  induction l generalizing s with
  | nil => cases h; simp
  | cons e l ih =>
    rw [List.map_cons, List.nodup_cons] at hl
    obtain ⟨t, ht, hrest⟩ := foldlM_cons_ok.mp h
    obtain ⟨v', hR, hproj⟩ := hstep e List.mem_cons_self s t ht
    have hkeys : (proj t).keys = (proj s).keys := by
      rw [hproj, keys_set_of_mem v' (hmem e List.mem_cons_self)]
    have hmem' : ∀ e' ∈ l, e'.1 ∈ proj t := fun e' he' => by
      rw [mem_def, hkeys]
      exact hmem e' (List.mem_cons_of_mem e he')
    obtain ⟨h₁, h₂, h₃⟩ := ih hl.2 (fun e' he' => hstep e' (List.mem_cons_of_mem e he')) hrest hmem'
    refine ⟨h₁.trans hkeys, ?_, ?_⟩
    · intro e' he'
      rcases List.mem_cons.mp he' with rfl | he'
      · refine ⟨v', ?_, hR⟩
        rw [h₃ e'.1 hl.1, hproj, get?_set_self]
      · exact h₂ e' he'
    · intro k hk
      rw [List.map_cons, List.mem_cons, not_or] at hk
      rw [h₃ k hk.2, hproj, get?_set_of_ne _ _ hk.1]

/-- The rule for `for k, v in d.items(): d[k] = ...`. -/
theorem Related.of_loop {ε : Type u} {σ : Type v} (proj : σ → Dict α β)
    {step : σ → α × β → Except ε σ}
    {s s' : σ} (hs : proj s = d)
    (hstep : ∀ e ∈ d.entries, ∀ s s', step s e = .ok s' →
      ∃ v', R e.1 e.2 v' ∧ proj s' = (proj s).set e.1 v')
    (h : d.entries.foldlM step s = .ok s') : Related R d (proj s') := by
  have hmem : ∀ e ∈ d.entries, e.1 ∈ proj s := fun e he => by
    rw [hs]
    exact mem_of_get? (mem_entries_iff.mp he)
  obtain ⟨hkeys, hvals, -⟩ := foldlM_set proj d.nodup hstep h hmem
  rw [hs] at hkeys
  refine ⟨hkeys, fun k v' hv' => ?_⟩
  obtain ⟨v, hv⟩ := mem_iff.mp (show k ∈ d by
    rw [mem_def, ← hkeys]
    exact mem_of_get? hv')
  obtain ⟨w, hw, hR⟩ := hvals (k, v) (mem_entries_iff.mpr hv)
  rw [hv', Option.some.injEq] at hw
  exact ⟨v, hv, hw ▸ hR⟩

end Dict

end Lib
