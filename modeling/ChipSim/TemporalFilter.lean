import ChipSim.MappedModel.Initial

/-!
# Filtering retired models

Models that started in the warmup period or completed in the cooldown period are left out of the
analysis. The cooldown filter reads an attribute that mapped models do not have.
-/

namespace ChipSim

open Lib

namespace MappedModel

/-- The timing attributes of a mapped model by name. -/
def getAttribute (m : MappedModel) (name : String) : Except PyError ℚ :=
  if name = "model_start_time_us" then .ok m.modelStartTimeUs
  else if name = "model_completion_time_us" then .ok m.modelCompletionTimeUs
  else .error (.attributeError s!"'MappedModel' object has no attribute '{name}'")

end MappedModel

namespace TemporalFilter

/-- The loop body of `_apply_filter`. -/
def filterStep (filterPredicate : MappedModel → Except PyError Bool)
    (filteredModels : Dict ℕ MappedModel) (entry : ℕ × MappedModel) :
    Except PyError (Dict ℕ MappedModel) := do
  let keep ← filterPredicate entry.2
  return if keep then filteredModels.set entry.1 entry.2 else filteredModels

/-- `_apply_filter`: the program exits when all models are removed. -/
def applyFilter (retiredModels : Dict ℕ MappedModel)
    (filterPredicate : MappedModel → Except PyError Bool) :
    Except PyError (Dict ℕ MappedModel) := do
  let filteredModels ← retiredModels.entries.foldlM (filterStep filterPredicate) .empty
  if filteredModels.entries.length = 0 ∧ 0 < retiredModels.entries.length then
    .error (.systemExit 1)
  else return filteredModels

/-- `filter_by_warmup`. -/
def filterByWarmup (retiredModels : Dict ℕ MappedModel) (warmupPeriodUs : ℚ) :
    Except PyError (Dict ℕ MappedModel) :=
  if warmupPeriodUs ≤ 0 then .ok retiredModels
  else
    applyFilter retiredModels fun model => do
      return decide (warmupPeriodUs ≤ (← model.getAttribute "model_start_time_us"))

/-- `filter_by_cooldown`. -/
def filterByCooldown (retiredModels : Dict ℕ MappedModel)
    (cooldownPeriodUs simulationEndTimeUs : ℚ) : Except PyError (Dict ℕ MappedModel) :=
  if cooldownPeriodUs ≤ 0 then .ok retiredModels
  else
    let cooldownStartTime := simulationEndTimeUs - cooldownPeriodUs
    applyFilter retiredModels fun model => do
      return decide ((← model.getAttribute "completion_time_us") ≤ cooldownStartTime)

/-- `filter_by_warmup_and_cooldown`. -/
def filterByWarmupAndCooldown (retiredModels : Dict ℕ MappedModel)
    (warmupPeriodUs cooldownPeriodUs simulationEndTimeUs : ℚ) :
    Except PyError (Dict ℕ MappedModel) := do
  let modelsAfterWarmup ← filterByWarmup retiredModels warmupPeriodUs
  filterByCooldown modelsAfterWarmup cooldownPeriodUs simulationEndTimeUs

/-- The two filters in the other order. -/
def filterByCooldownAndWarmup (retiredModels : Dict ℕ MappedModel)
    (warmupPeriodUs cooldownPeriodUs simulationEndTimeUs : ℚ) :
    Except PyError (Dict ℕ MappedModel) := do
  let modelsAfterCooldown ← filterByCooldown retiredModels cooldownPeriodUs simulationEndTimeUs
  filterByWarmup modelsAfterCooldown warmupPeriodUs

/-! ## What the filters are to keep -/

/-- A model started after the warmup period, if there is one. -/
def startedAfter (warmupPeriodUs : ℚ) (m : MappedModel) : Bool :=
  decide (warmupPeriodUs ≤ 0 ∨ warmupPeriodUs ≤ m.modelStartTimeUs)

/-- A model completed before the cooldown period, if there is one. -/
def completedBefore (cooldownPeriodUs simulationEndTimeUs : ℚ) (m : MappedModel) : Bool :=
  decide (cooldownPeriodUs ≤ 0 ∨
    m.modelCompletionTimeUs ≤ simulationEndTimeUs - cooldownPeriodUs)

/-- The models outside both periods. -/
def keptModels (retiredModels : Dict ℕ MappedModel)
    (warmupPeriodUs cooldownPeriodUs simulationEndTimeUs : ℚ) : Dict ℕ MappedModel :=
  retiredModels.filterValues fun m =>
    startedAfter warmupPeriodUs m && completedBefore cooldownPeriodUs simulationEndTimeUs m

/-! ## The filters -/

variable {retiredModels : Dict ℕ MappedModel} {warmupPeriodUs cooldownPeriodUs : ℚ}

/-- A predicate that does not raise and leaves a model. -/
theorem applyFilter_eq_ok {filterPredicate : MappedModel → Except PyError Bool}
    {p : MappedModel → Bool} (hp : ∀ m, filterPredicate m = .ok (p m))
    (hleft : (retiredModels.filterValues p).entries ≠ []) :
    applyFilter retiredModels filterPredicate = .ok (retiredModels.filterValues p) := by
  have hloop : retiredModels.entries.foldlM (filterStep filterPredicate) .empty =
      .ok (retiredModels.filterValues p) := by
    rw [← Dict.foldl_set_filter]
    refine foldlM_eq_foldl _ fun e _ d => ?_
    unfold filterStep
    rw [hp e.2]
    rfl
  unfold applyFilter
  rw [hloop, ok_bind, if_neg fun h => hleft (List.length_eq_zero_iff.mp h.1)]
  rfl

/-- A predicate that always raises filters nothing. -/
theorem entries_eq_nil_of_applyFilter {filterPredicate : MappedModel → Except PyError Bool}
    (hp : ∀ m b, filterPredicate m ≠ .ok b) {d : Dict ℕ MappedModel}
    (h : applyFilter retiredModels filterPredicate = .ok d) : d.entries = [] := by
  obtain ⟨filteredModels, hloop, h⟩ := bind_eq_ok.mp h
  cases hentries : retiredModels.entries with
  | nil =>
    rw [hentries] at hloop h
    cases hloop
    cases h
    rfl
  | cons e es =>
    rw [hentries] at hloop
    obtain ⟨d', hstep, -⟩ := foldlM_cons_ok.mp hloop
    obtain ⟨keep, hkeep, -⟩ := bind_eq_ok.mp hstep
    exact absurd hkeep (hp e.2 keep)

theorem filterByWarmup_eq_ok
    (hleft : (retiredModels.filterValues (startedAfter warmupPeriodUs)).entries ≠ []) :
    filterByWarmup retiredModels warmupPeriodUs =
      .ok (retiredModels.filterValues (startedAfter warmupPeriodUs)) := by
  unfold filterByWarmup
  split
  · next hzero =>
    have hall : ∀ m, startedAfter warmupPeriodUs m = true := fun m => decide_eq_true (.inl hzero)
    rw [Dict.filterValues_true hall]
  · next hpos =>
    refine applyFilter_eq_ok (fun m => ?_) hleft
    unfold startedAfter
    rw [decide_eq_decide.mpr (or_iff_right hpos)]
    rfl

theorem entries_eq_nil_of_filterByCooldown {simulationEndTimeUs : ℚ} (hpos : 0 < cooldownPeriodUs)
    {d : Dict ℕ MappedModel}
    (h : filterByCooldown retiredModels cooldownPeriodUs simulationEndTimeUs = .ok d) :
    d.entries = [] := by
  unfold filterByCooldown at h
  rw [if_neg (not_le.mpr hpos)] at h
  refine entries_eq_nil_of_applyFilter (fun m b hb => ?_) h
  obtain ⟨t, ht, -⟩ := bind_eq_ok.mp hb
  cases ht

/-- **Warmup and cooldown.** When some model is outside both periods, the filters return exactly
these models, in either order, exactly when there is no cooldown period. -/
theorem filters_eq_keptModels_iff (retiredModels : Dict ℕ MappedModel)
    (warmupPeriodUs cooldownPeriodUs simulationEndTimeUs : ℚ)
    (hleft : (keptModels retiredModels warmupPeriodUs cooldownPeriodUs
      simulationEndTimeUs).entries ≠ []) :
    (filterByWarmupAndCooldown retiredModels warmupPeriodUs cooldownPeriodUs simulationEndTimeUs =
        .ok (keptModels retiredModels warmupPeriodUs cooldownPeriodUs simulationEndTimeUs) ∧
      filterByCooldownAndWarmup retiredModels warmupPeriodUs cooldownPeriodUs
          simulationEndTimeUs =
        .ok (keptModels retiredModels warmupPeriodUs cooldownPeriodUs simulationEndTimeUs)) ↔
    cooldownPeriodUs ≤ 0 := by
  constructor
  · rintro ⟨h, -⟩
    by_contra hpos
    obtain ⟨d, -, hcooldown⟩ := bind_eq_ok.mp h
    exact hleft (entries_eq_nil_of_filterByCooldown (not_le.mp hpos) hcooldown)
  · intro hzero
    have hkept : keptModels retiredModels warmupPeriodUs cooldownPeriodUs simulationEndTimeUs =
        retiredModels.filterValues (startedAfter warmupPeriodUs) := by
      unfold keptModels completedBefore
      simp only [hzero, true_or, decide_true, Bool.and_true]
    have hcooldown : ∀ d : Dict ℕ MappedModel,
        filterByCooldown d cooldownPeriodUs simulationEndTimeUs = .ok d := fun d => if_pos hzero
    rw [hkept] at hleft ⊢
    have hwarmup := filterByWarmup_eq_ok hleft
    constructor
    · unfold filterByWarmupAndCooldown
      rw [hwarmup, ok_bind, hcooldown]
    · unfold filterByCooldownAndWarmup
      rw [hcooldown, ok_bind, hwarmup]

/-- One retired model, which ran from `2` to `5`. -/
def oneRetired : Dict ℕ MappedModel :=
  .ofList [(0, { MappedModel.new MappedModel.twoLayers with
    modelStartTimeUs := 2, modelCompletionTimeUs := 5 })]

theorem filters_eq_keptModels_oneRetired :
    filterByWarmupAndCooldown oneRetired 1 0 10 = .ok (keptModels oneRetired 1 0 10) :=
  ((filters_eq_keptModels_iff oneRetired 1 0 10 (by decide +kernel)).mpr le_rfl).1

/-- The model completed long before the cooldown period, but the filter raises. -/
theorem cooldown_raises : (keptModels oneRetired 0 1 10).keys = [0] ∧
    filterByWarmupAndCooldown oneRetired 0 1 10 =
      .error (.attributeError "'MappedModel' object has no attribute 'completion_time_us'") :=
  ⟨by decide +kernel, rfl⟩

end TemporalFilter

end ChipSim
