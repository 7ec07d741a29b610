import Mathlib.Data.List.Basic
import Mathlib.Data.List.Induction
import Mathlib.Data.List.Nodup
import Mathlib.Logic.Relation

/-!
# Depth-first topological sorting

`dfsSort deps fuel nodes` visits the nodes in the given order; a visit marks the node, visits
its dependencies and then emits the node. Fuel bounds the depth of the recursion. When the
dependencies strictly decrease a rank and the fuel exceeds every rank, the output lists each
node exactly once and after all its dependencies.
-/

namespace Lib

variable {α : Type*} [DecidableEq α]

/-- The state of a sort: the marked nodes, and the nodes emitted so far. -/
structure SortState (α : Type*) where
  visited : List α
  sorted : List α

/-- One visit: nothing for a marked node; otherwise mark it, visit its dependencies, emit it. -/
def visit (deps : α → List α) : ℕ → SortState α → α → SortState α
  | 0, st, _ => st
  | fuel + 1, st, a =>
    if a ∈ st.visited then st
    else
      let st' := (deps a).foldl (visit deps fuel) ⟨a :: st.visited, st.sorted⟩
      ⟨st'.visited, st'.sorted ++ [a]⟩

/-- Visit all nodes in order. -/
def dfsSort (deps : α → List α) (fuel : ℕ) (nodes : List α) : List α :=
  (nodes.foldl (visit deps fuel) ⟨[], []⟩).sorted

/-- A list that repeats no element and puts every element after its dependencies. -/
inductive TopoOrdered (deps : α → List α) : List α → Prop
  | nil : TopoOrdered deps []
  | snoc {l : List α} {a : α} : TopoOrdered deps l → a ∉ l → (∀ d ∈ deps a, d ∈ l) →
      TopoOrdered deps (l ++ [a])

omit [DecidableEq α] in
theorem TopoOrdered.nodup {deps : α → List α} {l : List α} (h : TopoOrdered deps l) :
    l.Nodup := by
  induction h with
  | nil => exact List.nodup_nil
  | snoc _ ha _ ih =>
    rw [List.nodup_append]
    refine ⟨ih, List.nodup_singleton _, ?_⟩
    rintro b hb c hc rfl
    rw [List.mem_singleton] at hc
    exact ha (hc ▸ hb)

omit [DecidableEq α] in
theorem topoOrdered_of_deps_nil {deps : α → List α} (h : ∀ a, deps a = []) {l : List α}
    (hl : l.Nodup) : TopoOrdered deps l := by
  induction l using List.reverseRecOn with
  | nil => exact .nil
  | append_singleton l a ih =>
    have hl := List.nodup_append.mp hl
    refine .snoc (ih hl.1) (fun ha => hl.2.2 a ha a (List.mem_singleton_self a) rfl) fun d hd => ?_
    rw [h a] at hd
    exact absurd hd List.not_mem_nil

omit [DecidableEq α] in
/-- Dependencies come before the elements that have them. -/
theorem TopoOrdered.mem_before {deps : α → List α} {l : List α} (h : TopoOrdered deps l) :
    ∀ {before after : List α} {a : α}, l = before ++ a :: after → ∀ d ∈ deps a, d ∈ before := by
  induction h with
  | nil =>
    intro before after a hl
    simp at hl
  | @snoc l b _ _ hdeps ih =>
    intro before after a hl d hd
    rcases List.eq_nil_or_concat' after with rfl | ⟨after, c, rfl⟩
    · obtain ⟨rfl, hab⟩ := List.append_inj' hl rfl
      obtain rfl : b = a := (List.cons.inj hab).1
      exact hdeps d hd
    · rw [← List.cons_append, ← List.append_assoc] at hl
      exact ih (List.append_inj' hl rfl).1 d hd

/-- What has a topological order has no cycle. -/
theorem TopoOrdered.not_transGen {deps : α → List α} {l : List α} (h : TopoOrdered deps l)
    (hmem : ∀ a, deps a ≠ [] → a ∈ l) (a : α) :
    ¬ Relation.TransGen (fun a d => d ∈ deps a) a a := by
  -- a dependency stands earlier in the list
  have hstep : ∀ b d, d ∈ deps b → l.idxOf d < l.idxOf b := by
    intro b d hd
    obtain ⟨before, after, hl, hb⟩ := List.eq_append_cons_of_mem (hmem b (List.ne_nil_of_mem hd))
    have hd := h.mem_before hl d hd
    rw [hl, List.idxOf_append_of_mem hd, List.idxOf_append_of_notMem hb, List.idxOf_cons_self]
    exact Nat.lt_add_right _ (List.idxOf_lt_length_of_mem hd)
  have hrun : ∀ b, Relation.TransGen (fun a d => d ∈ deps a) a b → l.idxOf b < l.idxOf a := by
    intro b hb
    induction hb with
    | single hd => exact hstep a _ hd
    | tail _ hd ih => exact Nat.lt_trans (hstep _ _ hd) ih
  exact fun hcycle => Nat.lt_irrefl _ (hrun a hcycle)

/-- The invariant of a sort with the nodes `stack` marked but not yet emitted. -/
structure SortInv (deps : α → List α) (stack : List α) (st : SortState α) : Prop where
  ordered : TopoOrdered deps st.sorted
  visited_iff : ∀ a, a ∈ st.visited ↔ a ∈ st.sorted ∨ a ∈ stack
  pending : ∀ a ∈ stack, a ∉ st.sorted

/-- What a visit achieves: the invariant again, the node emitted, nothing emitted before lost,
and nothing new but nodes reachable from it. -/
structure SortStep (deps : α → List α) (stack : List α) (R : α → Prop) (st st' : SortState α) :
    Prop where
  inv : SortInv deps stack st'
  mono : ∀ a ∈ st.sorted, a ∈ st'.sorted
  new : ∀ a ∈ st'.sorted, a ∈ st.sorted ∨ R a

section

variable {deps : α → List α} {rank : α → ℕ} {R : α → Prop}
  (hrank : ∀ a, R a → ∀ d ∈ deps a, rank d < rank a) (hR : ∀ a, R a → ∀ d ∈ deps a, R d)

omit [DecidableEq α] in
theorem SortStep.refl {stack : List α} {st : SortState α} (h : SortInv deps stack st) :
    SortStep deps stack R st st :=
  ⟨h, fun _ h => h, fun _ h => .inl h⟩

omit [DecidableEq α] in
theorem SortStep.trans {stack : List α} {s t u : SortState α} (h : SortStep deps stack R s t)
    (h' : SortStep deps stack R t u) : SortStep deps stack R s u where
  inv := h'.inv
  mono a ha := h'.mono a (h.mono a ha)
  new a ha := (h'.new a ha).elim (h.new a) .inr

/-- A loop of visits emits every node it visits. -/
theorem foldl_visit {fuel : ℕ} {stack : List α}
    (hvisit : ∀ a st, R a → rank a < fuel → SortInv deps stack st →
      (∀ b ∈ stack, rank a < rank b) →
      SortStep deps stack R st (visit deps fuel st a) ∧ a ∈ (visit deps fuel st a).sorted)
    (l : List α) (st : SortState α) (hl : ∀ a ∈ l, R a ∧ rank a < fuel)
    (hstack : ∀ a ∈ l, ∀ b ∈ stack, rank a < rank b) (hinv : SortInv deps stack st) :
    SortStep deps stack R st (l.foldl (visit deps fuel) st) ∧
      ∀ a ∈ l, a ∈ (l.foldl (visit deps fuel) st).sorted := by
  induction l generalizing st with
  | nil => exact ⟨.refl hinv, by simp⟩
  | cons a l ih =>
    obtain ⟨hs, ha⟩ := hvisit a st (hl a (by simp)).1 (hl a (by simp)).2 hinv
      (hstack a (by simp))
    obtain ⟨hs', hall⟩ := ih (visit deps fuel st a) (fun b hb => hl b (by simp [hb]))
      (fun b hb => hstack b (by simp [hb])) hs.inv
    refine ⟨hs.trans hs', ?_⟩
    intro b hb
    rcases List.mem_cons.mp hb with rfl | hb
    · exact hs'.mono b ha
    · exact hall b hb

include hrank hR in
/-- One visit with enough fuel, below everything on the stack. -/
theorem visit_spec (fuel : ℕ) : ∀ (stack : List α) (a : α) (st : SortState α), R a →
    rank a < fuel → SortInv deps stack st → (∀ b ∈ stack, rank a < rank b) →
    SortStep deps stack R st (visit deps fuel st a) ∧ a ∈ (visit deps fuel st a).sorted := by
  induction fuel with
  | zero => intro _ _ _ _ h; exact absurd h (Nat.not_lt_zero _)
  | succ fuel ih =>
    intro stack a st ha hfuel hinv hstack
    rw [visit]
    by_cases hv : a ∈ st.visited
    · -- a marked node is emitted already: it cannot be on the stack, its rank is too small
      rw [if_pos hv]
      refine ⟨.refl hinv, ?_⟩
      rcases (hinv.visited_iff a).mp hv with h | h
      · exact h
      · exact absurd (hstack a h) (Nat.lt_irrefl _)
    · rw [if_neg hv]
      have hnew : SortInv deps (a :: stack) ⟨a :: st.visited, st.sorted⟩ := by
        refine ⟨hinv.ordered, fun b => ?_, ?_⟩
        · simp only [List.mem_cons, hinv.visited_iff b]
          tauto
        · intro b hb hbs
          rcases List.mem_cons.mp hb with rfl | hb
          · exact hv ((hinv.visited_iff b).mpr (.inl hbs))
          · exact hinv.pending b hb hbs
      obtain ⟨hs, hdeps⟩ := foldl_visit (ih (a :: stack)) (deps a) _
        (fun d hd => ⟨hR a ha d hd, by have := hrank a ha d hd; omega⟩)
        (fun d hd b hb => by
          rcases List.mem_cons.mp hb with rfl | hb
          · exact hrank _ ha d hd
          · exact Nat.lt_trans (hrank a ha d hd) (hstack b hb)) hnew
      set st' := (deps a).foldl (visit deps fuel) ⟨a :: st.visited, st.sorted⟩
      refine ⟨⟨⟨.snoc hs.inv.ordered (hs.inv.pending a (by simp)) hdeps, fun b => ?_, ?_⟩,
        ?_, ?_⟩, by simp⟩
      · rw [hs.inv.visited_iff b]
        simp only [List.mem_append, List.mem_cons, List.not_mem_nil, or_false]
        tauto
      · intro b hb hbs
        rcases List.mem_append.mp hbs with h | h
        · exact hs.inv.pending b (List.mem_cons_of_mem _ hb) h
        · rw [List.mem_singleton] at h
          exact absurd (hstack b hb) (h ▸ Nat.lt_irrefl _)
      · intro b hb
        exact List.mem_append_left _ (hs.mono b hb)
      · intro b hb
        rcases List.mem_append.mp hb with hb | hb
        · exact hs.new b hb
        · rw [List.mem_singleton] at hb
          exact .inr (hb ▸ ha)

include hrank hR in
/-- With fuel above every rank the sort is a topological order of exactly the given nodes. -/
theorem dfsSort_spec (fuel : ℕ) (nodes : List α) (hnodes : ∀ a, R a ↔ a ∈ nodes)
    (hfuel : ∀ a ∈ nodes, rank a < fuel) :
    TopoOrdered deps (dfsSort deps fuel nodes) ∧
      ∀ a, a ∈ dfsSort deps fuel nodes ↔ a ∈ nodes := by
  have hinit : SortInv deps [] (⟨[], []⟩ : SortState α) := ⟨.nil, by simp, by simp⟩
  obtain ⟨hs, hall⟩ := foldl_visit (visit_spec hrank hR fuel []) nodes ⟨[], []⟩
    (fun a ha => ⟨(hnodes a).mpr ha, hfuel a ha⟩) (by simp) hinit
  refine ⟨hs.inv.ordered, fun a => ⟨fun ha => ?_, hall a⟩⟩
  rcases hs.new a ha with h | h
  · exact absurd h (by simp)
  · exact (hnodes a).mp h

end

end Lib
