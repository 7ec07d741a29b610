import Mathlib.Data.Set.Finite.Lemmas
import Mathlib.Order.Interval.Finset.Nat
import ChipSim.Lib.Fold

/-!
# Machines whose steps may fail

A machine is a step function that may raise. From every state it either comes to a step that
raises or runs forever; a quantity that never decreases on an infinite run and is bounded does not
change any more from some point on.
-/

namespace Lib

namespace Machine

universe u v

variable {ε : Type u} {σ : Type v} {step : σ → Except ε σ} {s t : σ}

/-- A number of steps in a row. -/
def steps (step : σ → Except ε σ) : ℕ → σ → Except ε σ
  | 0, s => .ok s
  | n + 1, s => do
    let s' ← step s
    steps step n s'

theorem steps_succ {n : ℕ} {u : σ} (h : steps step n s = .ok t) (hstep : step t = .ok u) :
    steps step (n + 1) s = .ok u := by
  induction n generalizing s with
  | zero =>
    cases h
    exact bind_eq_ok.mpr ⟨u, hstep, rfl⟩
  | succ n ih =>
    obtain ⟨s', hs', h⟩ := bind_eq_ok.mp h
    exact bind_eq_ok.mpr ⟨s', hs', ih h⟩

/-- What holds at the start and is preserved by every step holds after any number of them. -/
theorem steps_invariant {P : σ → Prop} (h0 : P s)
    (hstep : ∀ s s', P s → step s = .ok s' → P s') {n : ℕ} (h : steps step n s = .ok t) : P t := by
  induction n generalizing s with
  | zero => cases h; exact h0
  | succ n ih =>
    obtain ⟨s', hs', h⟩ := bind_eq_ok.mp h
    exact ih (hstep s s' h0 hs') h

/-- An infinite sequence of steps. -/
structure Run (step : σ → Except ε σ) (s : σ) where
  state : ℕ → σ
  reached : ∀ n, steps step n s = .ok (state n)
  next : ∀ n, step (state n) = .ok (state (n + 1))

/-- A machine that never comes to a step that raises runs forever. -/
theorem exists_run (h : ∀ n t, steps step n s = .ok t → ∃ u, step t = .ok u) :
    Nonempty (Run step s) := by
  have hall : ∀ n, ∃ t, steps step n s = .ok t := by
    intro n
    induction n with
    | zero => exact ⟨s, rfl⟩
    | succ n ih =>
      obtain ⟨t, ht⟩ := ih
      obtain ⟨u, hu⟩ := h n t ht
      exact ⟨u, steps_succ ht hu⟩
  choose state hstate using hall
  refine ⟨⟨state, hstate, fun n => ?_⟩⟩
  obtain ⟨u, hu⟩ := h n (state n) (hstate n)
  have hsame := (steps_succ (hstate n) hu).symm.trans (hstate (n + 1))
  rw [hu, hsame]

/-- While `P` holds, a rank decreases with every step until `Q` holds. -/
theorem Run.leadsTo (run : Run step s) {P Q : σ → Prop} (rank : σ → ℕ)
    (hstep : ∀ n, P (run.state n) → Q (run.state (n + 1)) ∨
      P (run.state (n + 1)) ∧ rank (run.state (n + 1)) < rank (run.state n)) {n : ℕ}
    (h : P (run.state n)) : ∃ m, n < m ∧ Q (run.state m) := by
  induction hrank : rank (run.state n) using Nat.strong_induction_on generalizing n with
  | _ r ih =>
    rcases hstep n h with hQ | ⟨hP, hlt⟩
    · exact ⟨n + 1, Nat.lt_succ_self n, hQ⟩
    · obtain ⟨m, hm, hQ⟩ := ih _ (hrank ▸ hlt) hP rfl
      exact ⟨m, Nat.lt_of_succ_lt hm, hQ⟩

/-- A bounded sequence of numbers that never decreases is constant from some point on. -/
theorem eventually_constant {f : ℕ → ℕ} (hf : ∀ n, f n ≤ f (n + 1)) {bound : ℕ}
    (hbound : ∀ n, f n ≤ bound) : ∃ N, ∀ n, N ≤ n → f n = f N := by
  have hfinite : (Set.range f).Finite :=
    (Set.finite_Iic bound).subset (Set.range_subset_iff.mpr hbound)
  obtain ⟨_, ⟨N, rfl⟩, hmax⟩ := Set.exists_max_image (Set.range f) id hfinite ⟨f 0, 0, rfl⟩
  exact ⟨N, fun n hn => le_antisymm (hmax (f n) ⟨n, rfl⟩) (monotone_nat_of_le_succ hf hn)⟩

/-- The same for a quantity that is bounded only from some point on. -/
theorem eventually_constant_from {f : ℕ → ℕ} {N bound : ℕ} (hf : ∀ n, N ≤ n → f n ≤ f (n + 1))
    (hbound : ∀ n, N ≤ n → f n ≤ bound) : ∃ M, N ≤ M ∧ ∀ n, M ≤ n → f n = f M := by
  obtain ⟨K, hK⟩ := eventually_constant (f := fun n => f (N + n))
    (fun n => hf (N + n) (Nat.le_add_right N n)) fun n => hbound (N + n) (Nat.le_add_right N n)
  refine ⟨N + K, Nat.le_add_right N K, fun n hn => ?_⟩
  have hn' := hK (n - N) (by omega)
  rwa [show N + (n - N) = n by omega] at hn'

end Machine

end Lib
