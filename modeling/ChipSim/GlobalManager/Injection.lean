import ChipSim.GlobalManager.Histories

/-!
# Injected models

Every injected model is either active or retired, and a model that waits for its injection is
neither. So an injection never replaces an active model, and a retired one never comes back.
-/

namespace ChipSim

open Lib

namespace GlobalManager

open MappedModel

/-- Where the models of the workload are. -/
structure Tracked (s : State) : Prop where
  fresh : s.workload.Fresh
  pending : ∀ l, s.stage = .injecting l →
    (l.map (·.2.2)).Nodup ∧ ∀ e ∈ l, e.2.2 ∉ s.workload.injectedModels
  injected : ∀ k, k ∈ s.workload.injectedModels ↔
    k ∈ s.activeMappedModels ∨ k ∈ s.retiredMappedModels
  disjoint : ∀ k, k ∈ s.activeMappedModels → k ∉ s.retiredMappedModels
  checks : ∀ l, s.stage = .retiring l → l.Nodup ∧ ∀ k ∈ l, k ∈ s.activeMappedModels

theorem tracked_start {specs : List ChipletSpec} {adjMatrix : ℕ → ℕ → ℚ}
    {rows : List WorkloadEntry} {threshold : ℕ} {s : State}
    (h : start specs adjMatrix rows threshold = .ok s) : Tracked s := by
  unfold start at h
  split at h
  · cases h
  · cases h
    refine ⟨WorkloadManager.fresh_load rows threshold, ?_, ?_, ?_, ?_⟩
    · intro l hl
      cases hl
    · intro k
      simp [WorkloadManager.load, Dict.mem_def]
    · intro k hk
      simp [Dict.mem_def] at hk
    · intro l hl
      cases hl

variable {c : Config} {s s' : State}

/-- A move that neither injects nor retires keeps the models where they are. -/
theorem Tracked.of_same (h : Tracked s) (hfresh : s'.workload.Fresh)
    (hinj : s'.workload.injectedModels = s.workload.injectedModels)
    (hactive : ∀ k, k ∈ s'.activeMappedModels ↔ k ∈ s.activeMappedModels)
    (hretired : s'.retiredMappedModels = s.retiredMappedModels)
    (hpending : ∀ l, s'.stage = .injecting l →
      (l.map (·.2.2)).Nodup ∧ ∀ e ∈ l, e.2.2 ∉ s.workload.injectedModels)
    (hchecks : ∀ l, s'.stage = .retiring l → l.Nodup ∧ ∀ k ∈ l, k ∈ s'.activeMappedModels) :
    Tracked s' := by
  refine ⟨hfresh, ?_, ?_, ?_, hchecks⟩
  · rw [hinj]
    exact hpending
  · intro k
    rw [hinj, hactive, hretired]
    exact h.injected k
  · intro k hk
    rw [hretired]
    exact h.disjoint k ((hactive k).mp hk)

theorem Tracked.pending_tail (h : Tracked s) {entry : String × ℕ × ℕ}
    {rest : List (String × ℕ × ℕ)} (hstage : s.stage = .injecting (entry :: rest)) :
    entry.2.2 ∉ s.workload.injectedModels ∧ entry.2.2 ∉ rest.map (·.2.2) ∧
      (rest.map (·.2.2)).Nodup ∧ ∀ e ∈ rest, e.2.2 ∉ s.workload.injectedModels := by
  obtain ⟨hnodup, hnot⟩ := h.pending _ hstage
  rw [List.map_cons, List.nodup_cons] at hnodup
  exact ⟨hnot _ List.mem_cons_self, hnodup.1, hnodup.2,
    fun e he => hnot e (List.mem_cons_of_mem _ he)⟩

theorem Tracked.checks_tail (h : Tracked s) {modelIdx : ℕ} {rest : List ℕ}
    (hstage : s.stage = .retiring (modelIdx :: rest)) :
    modelIdx ∉ rest ∧ rest.Nodup ∧ ∀ k ∈ rest, k ∈ s.activeMappedModels := by
  obtain ⟨hnodup, hmem⟩ := h.checks _ hstage
  rw [List.nodup_cons] at hnodup
  exact ⟨hnodup.1, hnodup.2, fun k hk => hmem k (List.mem_cons_of_mem _ hk)⟩

/-- A model that is to be injected is neither active nor retired. -/
theorem Tracked.not_active (h : Tracked s) {k : ℕ} (hk : k ∉ s.workload.injectedModels) :
    k ∉ s.activeMappedModels ∧ k ∉ s.retiredMappedModels :=
  ⟨fun ha => hk ((h.injected k).mpr (.inl ha)), fun hr => hk ((h.injected k).mpr (.inr hr))⟩

/-- **One step.** Every move keeps track of the models. -/
theorem Tracked.move (h : Tracked s) (hh : Histories c s) (hmove : Move c s s') : Tracked s' := by
  cases hmove with
  | ready hstage hwork =>
    have hfresh := h.fresh.getModelsToInject s.globalTimeUs
    refine h.of_same hfresh ?_ (fun _ => Iff.rfl) rfl ?_ fun l hl => by cases hl
    · exact WorkloadManager.updateReadyModels_injectedModels ..
    · intro l hl
      cases hl
      have hids := WorkloadManager.getModelsToInject_ids s.workload s.globalTimeUs
      refine ⟨hids ▸ hfresh.nodup, fun e he => ?_⟩
      have hmem := hids ▸ List.mem_map_of_mem (f := fun e : String × ℕ × ℕ => e.2.2) he
      obtain ⟨r, hr, hre⟩ := List.mem_map.mp hmem
      rw [← hre]
      have hnot := hfresh.notInjected r hr
      rwa [show (s.workload.getModelsToInject s.globalTimeUs).1.injectedModels =
        s.workload.injectedModels from
          WorkloadManager.updateReadyModels_injectedModels ..] at hnot
  | finish hstage hdone hempty =>
    exact h.of_same h.fresh rfl (fun _ => Iff.rfl) rfl (fun l hl => by cases hl)
      fun l hl => by cases hl
  | proceed hstage =>
    exact h.of_same h.fresh rfl (fun _ => Iff.rfl) rfl (fun l hl => by cases hl)
      fun l hl => by cases hl
  | postponed hstage =>
    next entry rest =>
    obtain ⟨-, -, hrest⟩ := h.pending_tail hstage
    unfold postpone
    refine h.of_same (h.fresh.incrementFailureAge _) rfl (fun _ => Iff.rfl) rfl ?_ ?_
    · intro l hl
      dsimp only at hl
      split at hl
      · cases hl
      · cases hl
        exact hrest
    · intro l hl
      dsimp only at hl
      split at hl <;> cases hl
  | injected hstage hmetrics hmap hm =>
    next entry rest _ _ _ _ _ m =>
    obtain ⟨hentry, hnotin, hnodup, hrest⟩ := h.pending_tail hstage
    refine ⟨h.fresh.markModelInjected _, ?_, ?_, ?_, fun l hl => by cases hl⟩
    · intro l hl
      cases hl
      refine ⟨hnodup, fun e he => ?_⟩
      rw [WorkloadManager.mem_markModelInjected, not_or]
      exact ⟨hrest e he, fun heq => hnotin (heq ▸ List.mem_map_of_mem he)⟩
    · intro k
      dsimp only
      rw [WorkloadManager.mem_markModelInjected, Dict.mem_set, h.injected]
      tauto
    · intro k hk
      rcases (Dict.mem_set ..).mp hk with rfl | hk
      · exact (h.not_active hentry).2
      · exact h.disjoint k hk
  | communicated hstage hsim htime =>
    have hrel := communicated_related hh.shape hsim htime
    refine h.of_same h.fresh rfl hrel.mem rfl (fun l hl => by cases hl) ?_
    intro l hl
    cases hl
    exact ⟨Dict.nodup_keys _, fun k hk => hk⟩
  | kept hstage hm htime hrunning =>
    next modelIdx _ _ m' _ =>
    have hmem : ∀ k, k ∈ s.activeMappedModels.set modelIdx m' ↔ k ∈ s.activeMappedModels := by
      intro k
      rw [Dict.mem_def, Dict.keys_set_of_mem _ (Dict.mem_of_get? hm), ← Dict.mem_def]
    refine h.of_same h.fresh rfl hmem rfl (fun l hl => by cases hl) ?_
    intro l hl
    cases hl
    obtain ⟨-, hnodup, hrest⟩ := h.checks_tail hstage
    exact ⟨hnodup, fun k hk => (hmem k).mpr (hrest k hk)⟩
  | retired hstage hm htime hcomplete hsys =>
    next modelIdx rest _ _ _ _ =>
    have hactive := Dict.mem_of_get? hm
    refine ⟨h.fresh, fun l hl => (by cases hl), ?_, ?_, ?_⟩
    · intro k
      dsimp only
      rw [Dict.mem_erase, Dict.mem_set, h.injected]
      by_cases hk : k = modelIdx
      · subst hk
        simp [hactive]
      · simp [hk]
    · intro k hk
      dsimp only at hk ⊢
      rw [Dict.mem_erase] at hk
      rw [Dict.mem_set, not_or]
      exact ⟨hk.1, h.disjoint k hk.2⟩
    · intro l hl
      cases hl
      obtain ⟨hnotin, hnodup, hrest⟩ := h.checks_tail hstage
      refine ⟨hnodup, fun k hk => ?_⟩
      dsimp only
      rw [Dict.mem_erase]
      exact ⟨fun heq => hnotin (heq ▸ hk), hrest k hk⟩
  | nextTick hstage =>
    exact h.of_same h.fresh rfl (fun _ => Iff.rfl) rfl (fun l hl => by cases hl)
      fun l hl => by cases hl
  | finished hstage => exact h

theorem Reachable.tracked {s₀ : State} (h : Reachable c s₀ s) (hh : Histories c s₀)
    (h0 : Tracked s₀) : Tracked s :=
  h.invariant h0 fun _ _ hreach ht hmove => ht.move (hreach.histories hh) hmove

end GlobalManager

end ChipSim
