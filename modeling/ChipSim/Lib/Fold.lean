import Mathlib.Data.List.Basic
import Mathlib.Logic.Relation

/-!
# Loops that may raise

A `for` loop whose body may raise is `List.foldlM` in the `Except` monad. The rules below are
the ones a proof about such a loop needs: inversion of one step, an invariant that also shows
that the loop does not raise, and the relation a whole loop stands in when every pass stands
in it.
-/

namespace Lib

universe u v

variable {ε : Type u} {α β σ τ : Type v} {f : σ → α → Except ε σ} {l : List α} {s s' : σ}

/-- A sequence of two computations succeeds when both do. -/
theorem bind_eq_ok {x : Except ε α} {f : α → Except ε β} {b : β} :
    (x >>= f) = .ok b ↔ ∃ a, x = .ok a ∧ f a = .ok b := by
  cases x with
  | error e => simp [bind, Except.bind]
  | ok a => simp [bind, Except.bind]

theorem map_eq_ok {x : Except ε α} {f : α → β} {b : β} :
    f <$> x = .ok b ↔ ∃ a, x = .ok a ∧ f a = b := by
  cases x with
  | error e => simp [Functor.map, Except.map]
  | ok a => simp [Functor.map, Except.map]

@[simp] theorem ok_bind (a : α) (f : α → Except ε β) : ((.ok a : Except ε α) >>= f) = f a := rfl

@[simp] theorem error_bind (e : ε) (f : α → Except ε β) :
    ((.error e : Except ε α) >>= f) = .error e := rfl

@[simp] theorem pure_eq_ok (a : α) : (pure a : Except ε α) = .ok a := rfl

theorem toOption_eq_some {x : Except ε α} {a : α} : x.toOption = some a ↔ x = .ok a := by
  cases x <;> simp [Except.toOption]

theorem foldlM_cons_ok {a : α} :
    (a :: l).foldlM f s = .ok s' ↔ ∃ t, f s a = .ok t ∧ l.foldlM f t = .ok s' := by
  rw [List.foldlM_cons, bind_eq_ok]

/-- What every pass of a loop preserves, the loop preserves. -/
theorem foldlM_invariant (P : σ → Prop) (h : l.foldlM f s = .ok s') (h0 : P s)
    (step : ∀ a ∈ l, ∀ s s', P s → f s a = .ok s' → P s') : P s' := by
  induction l generalizing s with
  | nil => cases h; exact h0
  | cons a l ih =>
    obtain ⟨t, ht, hl⟩ := foldlM_cons_ok.mp h
    exact ih hl (step a (List.mem_cons_self) s t h0 ht)
      fun b hb => step b (List.mem_cons_of_mem _ hb)

/-- The elements a loop collects in a list, when every pass adds its own. -/
theorem mem_foldlM (proj : σ → List τ) (Q : α → τ → Prop) (h : l.foldlM f s = .ok s')
    (step : ∀ a ∈ l, ∀ s s', f s a = .ok s' → ∀ t, t ∈ proj s' ↔ t ∈ proj s ∨ Q a t) (t : τ) :
    t ∈ proj s' ↔ t ∈ proj s ∨ ∃ a ∈ l, Q a t := by
  induction l generalizing s with
  | nil => cases h; simp
  | cons a l ih =>
    obtain ⟨u, hu, hl⟩ := foldlM_cons_ok.mp h
    rw [ih hl fun b hb => step b (List.mem_cons_of_mem _ hb),
      step a List.mem_cons_self s u hu, or_assoc]
    simp only [List.mem_cons, exists_eq_or_imp]

/-- What one pass establishes and every pass preserves holds after the loop. -/
theorem foldlM_establish (I P : σ → Prop) (h : l.foldlM f s = .ok s') (h0 : I s)
    (step : ∀ a ∈ l, ∀ s s', I s → f s a = .ok s' → I s' ∧ (P s → P s')) {b : α} (hb : b ∈ l)
    (est : ∀ s s', I s → f s b = .ok s' → P s') : P s' := by
  induction l generalizing s with
  | nil => cases hb
  | cons a l ih =>
    obtain ⟨t, ht, hl⟩ := foldlM_cons_ok.mp h
    have hIt := (step a List.mem_cons_self s t h0 ht).1
    have step' := fun a ha => step a (List.mem_cons_of_mem _ ha)
    rcases List.mem_cons.mp hb with rfl | hb
    · exact (foldlM_invariant (fun s => I s ∧ P s) hl ⟨hIt, est s t h0 ht⟩
        fun a ha s s' hs hstep => ⟨(step' a ha s s' hs.1 hstep).1,
          (step' a ha s s' hs.1 hstep).2 hs.2⟩).2
    · exact ih hl hIt step' hb

/-- The same for a loop that cannot raise. -/
theorem foldl_establish {f : σ → α → σ} (P : σ → Prop) (step : ∀ a ∈ l, ∀ s, P s → P (f s a))
    {b : α} (hb : b ∈ l) (est : ∀ s, P (f s b)) :
    P (l.foldl f s) := by
  induction l generalizing s with
  | nil => cases hb
  | cons a l ih =>
    have step' := fun a ha => step a (List.mem_cons_of_mem _ ha)
    rcases List.mem_cons.mp hb with rfl | hb
    · exact List.foldlRecOn (motive := P) l f (est s) fun s hs a ha => step' a ha s hs
    · exact ih step' hb

/-- A loop whose every pass succeeds under an invariant and restores it does not raise. -/
theorem foldlM_total (P : σ → Prop) (h0 : P s)
    (step : ∀ a ∈ l, ∀ s, P s → ∃ s', f s a = .ok s' ∧ P s') :
    ∃ s', l.foldlM f s = .ok s' ∧ P s' := by
  induction l generalizing s with
  | nil => exact ⟨s, rfl, h0⟩
  | cons a l ih =>
    obtain ⟨t, ht, hPt⟩ := step a (List.mem_cons_self) s h0
    obtain ⟨s', hs', hPs'⟩ := ih hPt fun b hb => step b (List.mem_cons_of_mem _ hb)
    exact ⟨s', foldlM_cons_ok.mpr ⟨t, ht, hs'⟩, hPs'⟩

/-- A loop whose every pass changes nothing. -/
theorem foldlM_fixed (step : ∀ a ∈ l, f s a = .ok s) : l.foldlM f s = .ok s := by
  obtain ⟨s', hs', rfl⟩ := foldlM_total (s := s) (· = s) rfl
    fun a ha t ht => ⟨t, ht ▸ step a ha, ht⟩
  exact hs'

/-- A loop whose every pass succeeds does not raise. -/
theorem foldlM_ok (step : ∀ a ∈ l, ∀ s, ∃ s', f s a = .ok s') : ∃ s', l.foldlM f s = .ok s' := by
  obtain ⟨s', hs', -⟩ := foldlM_total (s := s) (fun _ => True) trivial
    fun a ha s _ => (step a ha s).imp fun _ h => ⟨h, trivial⟩
  exact ⟨s', hs'⟩

/-- When the success of a pass depends on its element only, the loop succeeds if all passes do. -/
theorem foldlM_ok_iff {P : α → Prop} (step : ∀ a ∈ l, ∀ s, (∃ s', f s a = .ok s') ↔ P a) :
    (∃ s', l.foldlM f s = .ok s') ↔ ∀ a ∈ l, P a := by
  constructor
  · intro h
    induction l generalizing s with
    | nil => exact fun a ha => absurd ha List.not_mem_nil
    | cons b l ih =>
      obtain ⟨s', hs'⟩ := h
      obtain ⟨t, ht, hl⟩ := foldlM_cons_ok.mp hs'
      have ih := ih (fun a ha => step a (List.mem_cons_of_mem b ha)) ⟨s', hl⟩
      intro a ha
      rcases List.mem_cons.mp ha with rfl | ha
      · exact (step a List.mem_cons_self s).mp ⟨t, ht⟩
      · exact ih a ha
  · intro h
    exact foldlM_ok fun a ha s => (step a ha s).mpr (h a ha)

/-- A loop whose passes do not raise. -/
theorem foldlM_eq_foldl {g : σ → α → σ} (s : σ) (step : ∀ a ∈ l, ∀ s, f s a = .ok (g s a)) :
    l.foldlM f s = .ok (l.foldl g s) := by
  induction l generalizing s with
  | nil => rfl
  | cons a l ih =>
    rw [List.foldlM_cons, step a List.mem_cons_self, ok_bind, List.foldl_cons]
    exact ih _ fun b hb => step b (List.mem_cons_of_mem a hb)

/-- A list comprehension whose every element succeeds. -/
theorem mapM_total {f : α → Except ε β} (Q : α → β → Prop) (h : ∀ a ∈ l, ∃ b, f a = .ok b ∧ Q a b) :
    ∃ l', l.mapM f = .ok l' ∧
      (∀ b ∈ l', ∃ a ∈ l, Q a b) ∧ ∀ a ∈ l, ∃ b ∈ l', Q a b := by
  induction l with
  | nil => exact ⟨[], rfl, by simp, by simp⟩
  | cons a l ih =>
    obtain ⟨b, hb, hQ⟩ := h a List.mem_cons_self
    obtain ⟨bs, hbs, h₁, h₂⟩ := ih fun a ha => h a (List.mem_cons_of_mem _ ha)
    refine ⟨b :: bs, ?_, ?_, ?_⟩
    · rw [List.mapM_cons, hb, ok_bind, hbs, ok_bind]
      rfl
    · intro c hc
      rcases List.mem_cons.mp hc with rfl | hc
      · exact ⟨a, List.mem_cons_self, hQ⟩
      · obtain ⟨a', ha', hQ'⟩ := h₁ c hc
        exact ⟨a', List.mem_cons_of_mem a ha', hQ'⟩
    · intro c hc
      rcases List.mem_cons.mp hc with rfl | hc
      · exact ⟨b, List.mem_cons_self, hQ⟩
      · obtain ⟨b', hb', hQ'⟩ := h₂ c hc
        exact ⟨b', List.mem_cons_of_mem b hb', hQ'⟩

/-- A list comprehension without effects. -/
theorem mapM_ok {f : α → Except ε β} {h : α → β} (hf : ∀ a ∈ l, f a = .ok (h a)) :
    l.mapM f = .ok (l.map h) := by
  induction l with
  | nil => rfl
  | cons a l ih =>
    rw [List.mapM_cons, hf a List.mem_cons_self, ok_bind,
      ih fun b hb => hf b (List.mem_cons_of_mem a hb)]
    rfl

/-- The elements of a list comprehension. -/
theorem mem_mapM {f : α → Except ε β} {l' : List β} (h : l.mapM f = .ok l') {b : β} (hb : b ∈ l') :
    ∃ a ∈ l, f a = .ok b := by
  induction l generalizing l' with
  | nil =>
    cases h
    exact absurd hb List.not_mem_nil
  | cons a l ih =>
    rw [List.mapM_cons] at h
    obtain ⟨c, hc, h⟩ := bind_eq_ok.mp h
    obtain ⟨cs, hcs, h⟩ := bind_eq_ok.mp h
    cases h
    rcases List.mem_cons.mp hb with rfl | hb
    · exact ⟨a, List.mem_cons_self, hc⟩
    · obtain ⟨a', ha', hf⟩ := ih hcs hb
      exact ⟨a', List.mem_cons_of_mem a ha', hf⟩

theorem getElem?_mapM {f : α → Except ε β} {l' : List β} (h : l.mapM f = .ok l') {i : ℕ} {a : α}
    (ha : l[i]? = some a) : ∃ b, l'[i]? = some b ∧ f a = .ok b := by
  induction l generalizing l' i with
  | nil => simp at ha
  | cons c l ih =>
    rw [List.mapM_cons] at h
    obtain ⟨b, hb, h⟩ := bind_eq_ok.mp h
    obtain ⟨bs, hbs, h⟩ := bind_eq_ok.mp h
    cases h
    cases i with
    | zero =>
      rw [List.getElem?_cons_zero, Option.some.injEq] at ha
      exact ⟨b, rfl, ha ▸ hb⟩
    | succ i => exact ih hbs ha

theorem forall₂_mapM {f : α → Except ε β} {l' : List β} (h : l.mapM f = .ok l') {R : α → β → Prop}
    (hR : ∀ a ∈ l, ∀ b, f a = .ok b → R a b) : List.Forall₂ R l l' := by
  induction l generalizing l' with
  | nil =>
    cases h
    exact .nil
  | cons a l ih =>
    rw [List.mapM_cons] at h
    obtain ⟨b, hb, h⟩ := bind_eq_ok.mp h
    obtain ⟨bs, hbs, h⟩ := bind_eq_ok.mp h
    cases h
    refine .cons (hR a List.mem_cons_self b hb) (ih hbs fun a' ha' => hR a' ?_)
    exact List.mem_cons_of_mem a ha'

/-- A loop over numbers whose states are known. -/
theorem foldlM_range_ok {f : σ → ℕ → Except ε σ} (s : ℕ → σ) (n : ℕ)
    (step : ∀ k < n, f (s k) k = .ok (s (k + 1))) :
    (List.range n).foldlM f (s 0) = .ok (s n) := by
  induction n with
  | zero => rfl
  | succ n ih =>
    rw [List.range_succ, List.foldlM_append, ih fun k hk => step k (Nat.lt_succ_of_lt hk), ok_bind,
      List.foldlM_cons, step n (Nat.lt_succ_self n), ok_bind]
    rfl

/-- A loop over numbers keeps what every pass takes from one number to the next. -/
theorem foldlM_range_invariant {f : σ → ℕ → Except ε σ} {n : ℕ} (P : ℕ → σ → Prop)
    (h : (List.range n).foldlM f s = .ok s') (h0 : P 0 s)
    (step : ∀ k < n, ∀ s s', P k s → f s k = .ok s' → P (k + 1) s') : P n s' := by
  induction n generalizing s' with
  | zero =>
    cases h
    exact h0
  | succ n ih =>
    rw [List.range_succ, List.foldlM_append] at h
    obtain ⟨t, ht, hlast⟩ := bind_eq_ok.mp h
    rw [List.foldlM_cons] at hlast
    obtain ⟨t', ht', hnil⟩ := bind_eq_ok.mp hlast
    cases hnil
    have hn := ih ht fun k hk => step k (Nat.lt_succ_of_lt hk)
    exact step n (Nat.lt_succ_self n) t s' hn ht'

/-- A loop over checks that all pass. -/
theorem forM_ok {α : Type} {f : α → Except ε Unit} {l : List α} (h : ∀ a ∈ l, f a = .ok ()) :
    l.forM f = .ok () := by
  induction l with
  | nil => rfl
  | cons a l ih =>
    show (f a >>= fun _ => l.forM f) = _
    rw [h a List.mem_cons_self, ok_bind]
    exact ih fun b hb => h b (List.mem_cons_of_mem a hb)

/-- A loop whose passes are chains of steps is a chain of steps. -/
theorem foldlM_chain (proj : σ → τ) {R : τ → τ → Prop} (h : l.foldlM f s = .ok s')
    (step : ∀ a ∈ l, ∀ s s', f s a = .ok s' → Relation.ReflTransGen R (proj s) (proj s')) :
    Relation.ReflTransGen R (proj s) (proj s') := by
  induction l generalizing s with
  | nil => cases h; exact .refl
  | cons a l ih =>
    obtain ⟨t, ht, hl⟩ := foldlM_cons_ok.mp h
    exact (step a (List.mem_cons_self) s t ht).trans
      (ih hl fun b hb => step b (List.mem_cons_of_mem _ hb))

/-- What one step preserves, a chain of steps preserves. -/
theorem chain_invariant {R : τ → τ → Prop} {P : τ → Prop} {a b : τ}
    (h : Relation.ReflTransGen R a b) (ha : P a) (step : ∀ a b, P a → R a b → P b) : P b := by
  induction h with
  | refl => exact ha
  | tail _ hR ih => exact step _ _ ih hR

end Lib
