import ChipSim.GlobalManager.Injection

/-!
# Retirement

A model leaves the active ones once, when all its phases are complete; at the end of a simulation
all injected models are retired.
-/

namespace ChipSim

open Lib

namespace GlobalManager

open MappedModel Orchestrator

variable {c : Config} {s s' : State}

/-! ## The log of retirements -/

/-- The models that leave the active ones in a step. -/
def retirements (s s' : State) : List ℕ :=
  s.activeMappedModels.keys.filter fun k => decide (k ∉ s'.activeMappedModels.keys)

/-- The states of a simulation with the models retired on the way, in order. -/
inductive Execution (c : Config) (s₀ : State) : List ℕ → State → Prop
  | start : Execution c s₀ [] s₀
  | step {log : List ℕ} {s s' : State} (h : Execution c s₀ log s) (hstep : step c s = .ok s') :
      Execution c s₀ (log ++ retirements s s') s'

theorem Execution.reachable {s₀ : State} {log : List ℕ} (h : Execution c s₀ log s) :
    Reachable c s₀ s := by
  induction h with
  | start => exact .start
  | step _ hstep ih => exact .step ih hstep

theorem retirements_eq_nil (h : ∀ k, k ∈ s.activeMappedModels → k ∈ s'.activeMappedModels) :
    retirements s s' = [] := by
  unfold retirements
  rw [List.filter_eq_nil_iff]
  intro k hk
  simpa [← Dict.mem_def] using h k hk

theorem retirements_erase {k : ℕ} (hk : k ∈ s.activeMappedModels)
    (hactive : s'.activeMappedModels = s.activeMappedModels.erase k) :
    retirements s s' = [k] := by
  have hcount : s.activeMappedModels.keys.count k = 1 :=
    List.count_eq_one_of_mem (Dict.nodup_keys _) hk
  have hfilter : retirements s s' = s.activeMappedModels.keys.filter (· = k) := by
    refine List.filter_congr fun j hj => ?_
    have hiff : j ∉ s'.activeMappedModels.keys ↔ j = k := by
      rw [hactive, ← Dict.mem_def, Dict.mem_erase, not_and_or, not_not]
      exact or_iff_left (not_not.mpr hj)
    exact decide_eq_decide.mpr hiff
  rw [hfilter, List.filter_eq, hcount]
  rfl

/-- A step retires at most one model, which was active until then. -/
theorem Move.retirements (hh : Histories c s) (hmove : Move c s s') :
    (retirements s s' = [] ∧ s'.retiredMappedModels = s.retiredMappedModels) ∨
      ∃ k, retirements s s' = [k] ∧ k ∈ s.activeMappedModels ∧
        ∀ j, j ∈ s'.retiredMappedModels ↔ j = k ∨ j ∈ s.retiredMappedModels := by
  cases hmove with
  | ready => exact .inl ⟨retirements_eq_nil fun _ h => h, rfl⟩
  | finish => exact .inl ⟨retirements_eq_nil fun _ h => h, rfl⟩
  | proceed => exact .inl ⟨retirements_eq_nil fun _ h => h, rfl⟩
  | postponed => exact .inl ⟨retirements_eq_nil fun _ h => h, rfl⟩
  | injected => exact .inl ⟨retirements_eq_nil fun _ h => Dict.mem_set.mpr (.inr h), rfl⟩
  | communicated hstage hsim htime =>
    exact .inl ⟨retirements_eq_nil fun k h =>
      ((communicated_related hh.shape hsim htime).mem k).mpr h, rfl⟩
  | kept hstage hm => exact .inl ⟨retirements_eq_nil fun _ h => Dict.mem_set.mpr (.inr h), rfl⟩
  | retired hstage hm =>
    have hactive := Dict.mem_of_get? hm
    exact .inr ⟨_, retirements_erase hactive rfl, hactive, fun j => Dict.mem_set⟩
  | nextTick => exact .inl ⟨retirements_eq_nil fun _ h => h, rfl⟩
  | finished => exact .inl ⟨retirements_eq_nil fun _ h => h, rfl⟩

/-- The log lists every retired model once. -/
theorem Execution.logged {s₀ : State} {log : List ℕ} (h : Execution c s₀ log s)
    (hh : Histories c s₀) (h0 : Tracked s₀) (hempty : s₀.retiredMappedModels = .empty) :
    log.Nodup ∧ ∀ k, k ∈ log ↔ k ∈ s.retiredMappedModels := by
  induction h with
  | start =>
    rw [hempty]
    exact ⟨List.nodup_nil, fun k => by simp [Dict.mem_def]⟩
  | step hexec hstep ih =>
    obtain ⟨hnodup, hmem⟩ := ih
    have htracked := hexec.reachable.tracked hh h0
    rcases (step_move hstep).retirements (hexec.reachable.histories hh) with
      ⟨hnil, hsame⟩ | ⟨k, hone, hactive, hretired⟩
    · rw [hnil, List.append_nil, hsame]
      exact ⟨hnodup, hmem⟩
    · rw [hone]
      refine ⟨?_, fun j => ?_⟩
      · rw [List.nodup_append]
        refine ⟨hnodup, List.nodup_singleton k, fun a ha b hb hab => ?_⟩
        rw [List.mem_singleton] at hb
        subst hab hb
        exact htracked.disjoint _ hactive ((hmem _).mp ha)
      · rw [List.mem_append, List.mem_singleton, hmem, hretired, or_comm]

theorem Reachable.finished_empty {s₀ : State} (h : Reachable c s₀ s)
    (h0 : s₀.stage ≠ .finished) (hs : s.stage = .finished) : s.activeMappedModels.keys = [] := by
  refine h.invariant (P := fun s => s.stage = .finished → s.activeMappedModels.keys = [])
    (fun hs => absurd hs h0) ?_ hs
  intro s s' _ ih hmove hs'
  cases hmove with
  | ready => cases hs'
  | finish hstage hdone hempty => exact hempty
  | proceed => cases hs'
  | postponed =>
    unfold postpone at hs'
    dsimp only at hs'
    split at hs' <;> cases hs'
  | injected => cases hs'
  | communicated => cases hs'
  | kept => cases hs'
  | retired => cases hs'
  | nextTick => cases hs'
  | finished hstage => exact ih hstage

/-! ## Times and retirement -/

/-- The order of the times of a model at time `g`. -/
structure TimesOrdered (g : ℚ) (m : MappedModel) : Prop where
  phases : ∀ i p phase x, m.phases.get? p = some phase → m.instance? i p = some x →
    x.state = .complete → x.startTimeUs ≤ x.completionTimeUs ∧ x.completionTimeUs ≤ g ∧
      StartsAfter m i p phase x.startTimeUs
  inputs : ∀ i j, i ≤ j → m.inputCompletion i ≠ -1 → m.inputCompletion j ≠ -1 →
    m.inputCompletion i ≤ m.inputCompletion j
  model : m.modelCompletionTimeUs ≠ -1 →
    (∀ i p x, m.instance? i p = some x → x.completionTimeUs ≤ m.modelCompletionTimeUs) ∧
      ∃ i p x, m.instance? i p = some x ∧ x.completionTimeUs = m.modelCompletionTimeUs

theorem timesOrdered {g : ℚ} {m : MappedModel} (h : Timed g m) : TimesOrdered g m where
  phases i p phase x hp hx hc := by
    obtain ⟨hle, hg⟩ := h.complete i p x hx hc
    exact ⟨hle, hg, h.startsAfter i p phase x hp hx (by rw [hc]; decide)⟩
  inputs _ _ hij hi hj := h.inputCompletion_mono hij hi hj
  model hm := by
    obtain ⟨hall, hattained⟩ := h.toRecorded.model_complete hm
    exact ⟨fun i p x hx => (hall i p x hx).2, hattained⟩

/-- The retired models are those of the log; each was retired once and with all its phases
complete. In the end all injected models are retired. -/
structure RetiredOnce (log : List ℕ) (s : State) : Prop where
  once : log.Nodup
  logged : ∀ k, k ∈ log ↔ k ∈ s.retiredMappedModels
  gone : ∀ k ∈ log, k ∉ s.activeMappedModels
  complete : ∀ k m, s.retiredMappedModels.get? k = some m →
    ∀ i p x, m.instance? i p = some x → x.state = .complete
  all : s.stage = .finished → ∀ k, k ∈ s.workload.injectedModels ↔ k ∈ log

theorem retiredOnce_of_execution {specs : List ChipletSpec} {adjMatrix : ℕ → ℕ → ℚ}
    {rows : List WorkloadEntry} {threshold : ℕ} {s₀ : State} {log : List ℕ}
    (hstart : start specs adjMatrix rows threshold = .ok s₀) (h : Execution c s₀ log s) :
    RetiredOnce log s := by
  have htracked := h.reachable.tracked (histories_start c hstart) (tracked_start hstart)
  have hhist := h.reachable.histories (histories_start c hstart)
  have hs₀ : s₀.retiredMappedModels = .empty ∧ s₀.stage = .loopHead := by
    unfold start at hstart
    split at hstart
    · cases hstart
    · cases hstart
      exact ⟨rfl, rfl⟩
  obtain ⟨hnodup, hmem⟩ := h.logged (histories_start c hstart) (tracked_start hstart) hs₀.1
  refine ⟨hnodup, hmem, ?_, ?_, ?_⟩
  · intro k hk hactive
    exact htracked.disjoint k hactive ((hmem k).mp hk)
  · intro k m hm i p x hx
    obtain ⟨hop, hset⟩ := hhist.retired k m hm
    exact ((hop.recorded.model_complete hset).1 i p x hx).1
  · intro hfin k
    have hempty := h.reachable.finished_empty (by rw [hs₀.2]; decide) hfin
    rw [htracked.injected, hmem, Dict.mem_def, hempty]
    simp

/-- **Times and retirement.** In every run of a prepared model the times of its phases, inputs and
of the model are in order; and every simulation retires a model once, when all its phases are
complete. -/
theorem times_and_retirement :
    (∀ (a : Args) (strategy : WeightLoadingStrategy) (chunks : List (ℕ × ℕ × ℕ × ChunkResult))
      (source : MappedModel.TrafficSource) (m₀ m : MappedModel) (g : ℚ), 0 < a.numLayers →
      prepare a strategy chunks source = .ok m₀ → MappedModel.Reachable m₀ g m →
      TimesOrdered g m) ∧
    ∀ (specs : List ChipletSpec) (adjMatrix : ℕ → ℕ → ℚ) (rows : List WorkloadEntry)
      (threshold : ℕ) (c : Config) (s₀ s : State) (log : List ℕ),
      start specs adjMatrix rows threshold = .ok s₀ → Execution c s₀ log s →
      RetiredOnce log s := by
  refine ⟨?_, ?_⟩
  · intro a strategy chunks source m₀ m g hL hprepare hreach
    exact timesOrdered (hreach.timed (prepare_initial hL hprepare))
  · intro specs adjMatrix rows threshold c s₀ s log hstart hexec
    exact retiredOnce_of_execution hstart hexec

theorem Reachable.execution {s₀ : State} (h : Reachable c s₀ s) : ∃ log, Execution c s₀ log s := by
  induction h with
  | start => exact ⟨[], .start⟩
  | step _ hstep ih =>
    obtain ⟨log, hlog⟩ := ih
    exact ⟨_, .step hlog hstep⟩

/-- A tick of the two-layer model, and the small simulation, which retires both its models. -/
theorem times_and_retirement_small :
    (∃ m₀ r, prepare twoLayers .justInTime twoLayersChunks twoLayersTraffic = .ok m₀ ∧
      m₀.getActivePhases 0 = .ok r ∧ TimesOrdered 0 r.1) ∧
    ∃ s log, smallRun 255 = .ok s ∧ s.stage = .finished ∧
      s.workload.injectedModels = [0, 1] ∧ RetiredOnce log s := by
  refine ⟨⟨_, _, rfl, rfl, ?_⟩, ?_⟩
  · exact times_and_retirement.1 twoLayers .justInTime twoLayersChunks twoLayersTraffic _ _ 0
      (by decide) rfl ((MappedModel.Reachable.init _ 0).step .activePhases le_rfl trivial rfl)
  · have hrun : ((smallRun 255).toOption.map fun s => (s.stage, s.workload.injectedModels)) =
        some (.finished, [0, 1]) := by decide +kernel
    obtain ⟨s, hs, heq⟩ := Option.map_eq_some_iff.mp hrun
    rw [toOption_eq_some] at hs
    obtain ⟨s₀, hs₀, hreach⟩ := smallRun_reachable hs
    obtain ⟨log, hexec⟩ := hreach.execution
    rw [Prod.mk.injEq] at heq
    exact ⟨s, log, hs, heq.1, heq.2,
      times_and_retirement.2 smallSystem chainMatrix smallWorkload 10 smallConfig s₀ s log hs₀
        hexec⟩

end GlobalManager

end ChipSim
