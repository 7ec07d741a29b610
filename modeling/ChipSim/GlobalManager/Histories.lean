import ChipSim.GlobalManager.Steps
import ChipSim.MappedModel.StartTimes

/-!
# The histories of the models

Every model of a simulation has come to its present state by operations at non-decreasing times
from a freshly prepared one, so all facts about runs of a model hold in the simulation.
-/

namespace ChipSim

open Lib

namespace ModelProcessor

/-- Accepted models have a layer. -/
theorem processModel_nonempty {modelDef : ModelDef} {metrics : List LayerMetrics}
    (h : processModel modelDef = .ok metrics) : 0 < modelDef.layers.keys.length := by
  unfold processModel at h
  split at h
  · cases h
  · next hne =>
    rw [List.length_pos_iff]
    simpa using hne

end ModelProcessor

namespace GlobalManager

open MappedModel Orchestrator

variable {c : Config} {s s' : State}

/-! ## What operations preserve -/

/-- The models that a move can inject. -/
inductive Created (c : Config) (s : State) : ℕ → MappedModel → Prop
  | injected {entry : String × ℕ × ℕ} {rest : List (String × ℕ × ℕ)} {modelDef : ModelDef}
      {metrics : List LayerMetrics} {sys : System} {mapping : LayerMappings} {used : List ℤ}
      {m : MappedModel} (hstage : s.stage = .injecting (entry :: rest))
      (hmetrics : ModelProcessor.processModel modelDef = .ok metrics)
      (hmap : @ModelMapper.generateMapping c.arithmetic s.system (mapperPreference c entry.2.2)
        metrics = .ok (sys, .ok (mapping, used)))
      (hm : createMappedModel c sys (injectionArgs c s entry modelDef metrics mapping used) =
        .ok m) : Created c s entry.2.2 m

/-- A property of all models, by index and time; the retired ones are complete. -/
structure Models (Q : ℕ → ℚ → MappedModel → Prop) (s : State) : Prop where
  active : ∀ k m, s.activeMappedModels.get? k = some m → Q k s.globalTimeUs m
  retired : ∀ k m, s.retiredMappedModels.get? k = some m →
    Q k s.globalTimeUs m ∧ m.modelCompletionTimeUs ≠ -1

theorem models_start {specs : List ChipletSpec} {adjMatrix : ℕ → ℕ → ℚ}
    {rows : List WorkloadEntry} {threshold : ℕ} {Q : ℕ → ℚ → MappedModel → Prop}
    (h : start specs adjMatrix rows threshold = .ok s) : Models Q s := by
  unfold start at h
  split at h
  · cases h
  · cases h
    exact ⟨fun k m hm => by simp at hm, fun k m hm => by simp at hm⟩

section

variable {Q : ℕ → ℚ → MappedModel → Prop}
  (hlater : ∀ k g g' m, g ≤ g' → Q k g m → Q k g' m)
  (hrun : ∀ k g m m', Q k g m → Operated c.network g k m m' → Q k g m')

include hlater hrun

/-- Models change by their operations, and the retired ones do not change. -/
theorem Models.of_related (h : Models Q s) (hg : s.globalTimeUs ≤ s'.globalTimeUs)
    (hactive : Dict.Related (Operated c.network s.globalTimeUs) s.activeMappedModels
      s'.activeMappedModels)
    (hretired : s'.retiredMappedModels = s.retiredMappedModels) : Models Q s' := by
  refine ⟨fun k m' hm' => ?_, fun k m hm => ?_⟩
  · obtain ⟨m, hm, hop⟩ := hactive.values k m' hm'
    exact hlater k _ _ m' hg (hrun k _ m m' (h.active k m hm) hop)
  · rw [hretired] at hm
    obtain ⟨hQ, hc⟩ := h.retired k m hm
    exact ⟨hlater k _ _ m hg hQ, hc⟩

/-- **One step.** What operations and time preserve, and every new model has, holds for all models
after every move. -/
theorem Models.move (h : Models Q s)
    (hshape : ∀ k m, s.activeMappedModels.get? k = some m → Shape m)
    (hcreated : ∀ k m, Created c s k m → Q k s.globalTimeUs m) (hmove : Move c s s') :
    Models Q s' := by
  have hsame : Dict.Related (Operated c.network s.globalTimeUs) s.activeMappedModels
      s.activeMappedModels := Dict.Related.refl Operated.refl _
  cases hmove with
  | ready => exact h.of_related hlater hrun le_rfl hsame rfl
  | finish => exact h.of_related hlater hrun le_rfl hsame rfl
  | proceed => exact h.of_related hlater hrun le_rfl hsame rfl
  | postponed => exact h.of_related hlater hrun le_rfl hsame rfl
  | injected hstage hmetrics hmap hm =>
    refine ⟨fun k x hx => ?_, h.retired⟩
    dsimp only at hx
    rw [Dict.get?_set] at hx
    split at hx
    · next hk =>
      cases hx
      subst hk
      exact hcreated _ _ (.injected hstage hmetrics hmap hm)
    · exact h.active k x hx
  | communicated hstage hsim htime =>
    exact h.of_related hlater hrun le_rfl (communicated_related hshape hsim htime) rfl
  | kept hstage hm htime hrunning =>
    exact h.of_related hlater hrun le_rfl (Dict.Related.set Operated.refl hm (timing_run htime)) rfl
  | retired hstage hm htime hcomplete hsys =>
    refine ⟨fun k x hx => ?_, fun k x hx => ?_⟩
    · dsimp only at hx
      rw [Dict.get?_erase] at hx
      split at hx
      · cases hx
      · exact h.active k x hx
    · dsimp only at hx
      rw [Dict.get?_set] at hx
      split at hx
      · next hk =>
        cases hx
        subst hk
        refine ⟨hrun _ _ _ _ (h.active _ _ hm) (timing_run htime), fun hunset => ?_⟩
        unfold isComplete at hcomplete
        rw [if_pos hunset] at hcomplete
        cases hcomplete
      · exact h.retired k x hx
  | nextTick => exact h.of_related hlater hrun (by simp) hsame rfl
  | finished => exact h

end

/-! ## Histories -/

/-- A model in the course of a simulation: prepared at some time and operated on since. -/
def Operates (c : Config) (k : ℕ) (g : ℚ) (m : MappedModel) : Prop :=
  ∃ m₀ g₀ g₁, Initial m₀ ∧ Run (answers c.network k) g₀ m₀ g₁ m ∧ g₁ ≤ g

theorem Operates.later {k : ℕ} {g g' : ℚ} {m : MappedModel} (h : Operates c k g m)
    (hg : g ≤ g') : Operates c k g' m := by
  obtain ⟨m₀, g₀, g₁, hinit, hrun, hle⟩ := h
  exact ⟨m₀, g₀, g₁, hinit, hrun, hle.trans hg⟩

theorem Operates.recorded {k : ℕ} {g : ℚ} {m : MappedModel} (h : Operates c k g m) :
    Recorded m := by
  obtain ⟨m₀, g₀, g₁, hinit, hrun, -⟩ := h
  exact hrun.recorded hinit

theorem Operates.run {k : ℕ} {g : ℚ} {m m' : MappedModel} (h : Operates c k g m)
    (hrun : Operated c.network g k m m') : Operates c k g m' := by
  obtain ⟨m₀, g₀, g₁, hinit, hrun₀, hle⟩ := h
  obtain ⟨g₂, hle₂, hrun₂⟩ := hrun₀.append hle hrun
  exact ⟨m₀, g₀, g₂, hinit, hrun₂, hle₂⟩

theorem Operates.created {sys : System} {k : ℕ} {g : ℚ} {a : Args} {m : MappedModel}
    (hL : 0 < a.numLayers) (h : createMappedModel c sys a = .ok m) : Operates c k g m := by
  obtain ⟨chunks, -, h⟩ := bind_eq_ok.mp h
  exact ⟨m, g, g, prepare_initial hL h, .start, le_rfl⟩

/-- The histories of all models; the retired ones are complete. -/
structure Histories (c : Config) (s : State) : Prop where
  active : ∀ k m, s.activeMappedModels.get? k = some m → Operates c k s.globalTimeUs m
  retired : ∀ k m, s.retiredMappedModels.get? k = some m →
    Operates c k s.globalTimeUs m ∧ m.modelCompletionTimeUs ≠ -1

theorem histories_start {specs : List ChipletSpec} {adjMatrix : ℕ → ℕ → ℚ}
    {rows : List WorkloadEntry} {threshold : ℕ} (c : Config)
    (h : start specs adjMatrix rows threshold = .ok s) : Histories c s := by
  obtain ⟨hactive, hretired⟩ := models_start (Q := Operates c) h
  exact ⟨hactive, hretired⟩

theorem Histories.shape (h : Histories c s) (k : ℕ) (m : MappedModel)
    (hm : s.activeMappedModels.get? k = some m) : Shape m :=
  (h.active k m hm).recorded.toShape

/-- Every move continues the histories. -/
theorem Histories.move (h : Histories c s) (hmove : Move c s s') : Histories c s' := by
  have hmodels : Models (Operates c) s := ⟨h.active, h.retired⟩
  have hcreated : ∀ k m, Created c s k m → Operates c k s.globalTimeUs m := by
    rintro k m ⟨hstage, hmetrics, hmap, hm⟩
    exact .created (ModelProcessor.processModel_nonempty hmetrics) hm
  obtain ⟨hactive, hretired⟩ := hmodels.move (fun _ _ _ _ hg hop => hop.later hg)
    (fun _ _ _ _ hop hrun => hop.run hrun) h.shape hcreated hmove
  exact ⟨hactive, hretired⟩

theorem Reachable.histories {s₀ : State} (h : Reachable c s₀ s) (h0 : Histories c s₀) :
    Histories c s :=
  h.invariant h0 fun _ _ _ hs hmove => hs.move hmove

end GlobalManager

end ChipSim
