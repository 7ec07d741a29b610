import ChipSim.MappedModel.ScheduleFacts

/-!
# Well-formed schedules

What the proofs about ticks use of a schedule: the execution order lists exactly the phases, in a
topological order; dependencies exist and decrease a rank; every compute phase depends on the
phase that loads its weights. Both loading strategies produce such a schedule.
-/

namespace ChipSim

open Lib

namespace PhaseSchedule

/-- The facts about a schedule that ticks rely on. -/
structure WellFormed (s : PhaseSchedule) : Prop where
  mem_order : ∀ p, p ∈ s.phaseExecutionOrder ↔ p ∈ s.phases
  ordered : TopoOrdered s.dependenciesOf s.phaseExecutionOrder
  ranked : ∃ rank : ℕ → ℕ, ∀ p phase, s.phases.get? p = some phase →
    ∀ d ∈ phase.dependencies, d ∈ s.phases ∧ rank d < rank p
  compute_layer : ∀ p phase l, s.phases.get? p = some phase → phase.kind = .compute l →
    l < s.numLayers ∧ s.layerToComputePhase.get? l = some p
  compute_phase : ∀ l < s.numLayers, ∃ p phase, s.layerToComputePhase.get? l = some p ∧
    s.phases.get? p = some phase ∧ phase.kind = .compute l
  weight_dep : ∀ p phase l, s.phases.get? p = some phase → phase.kind = .compute l →
    ∃ w wphase, s.layerToWeightCommPhase.get? l = some w ∧ w ∈ phase.dependencies ∧
      s.phases.get? w = some wphase ∧ wphase.isWeightLoading ∧ l ∈ wphase.layersToLoad
  weight_used : ∀ w wphase, s.phases.get? w = some wphase → wphase.isWeightLoading →
    ∃ p phase l, s.phases.get? p = some phase ∧ phase.kind = .compute l ∧ w ∈ phase.dependencies
  weight_layers : ∀ w wphase, s.phases.get? w = some wphase → wphase.isWeightLoading →
    wphase.layersToLoad ≠ [] ∧
      ∀ l ∈ wphase.layersToLoad, s.layerToWeightCommPhase.get? l = some w
  activation : ∀ l a, s.layerToActivationCommPhase.get? l = some a →
    ∃ phase, s.phases.get? a = some phase ∧ phase.isWeightLoading = false
  pos : 0 < s.numLayers

section

variable {s : PhaseSchedule} {strategy : WeightLoadingStrategy}

/-! ## The phases of a configured schedule -/

theorem Configured.get?_compute (h : Configured strategy s) {l : ℕ} (hl : l < s.numLayers) :
    s.phases.get? (2 * l) = some ((defaultPhase s.modelIdx (2 * l)).addDependency
      (weightPhaseId strategy s.numLayers l)) := by
  have hdiv : 2 * l / 2 = l := by omega
  rw [h.phases, configuredPhase, if_pos (by omega), if_neg (by omega), hdiv]

theorem Configured.get?_activation (h : Configured strategy s) {l : ℕ}
    (hl : l + 1 < s.numLayers) :
    s.phases.get? (2 * l + 1) = some (defaultPhase s.modelIdx (2 * l + 1)) := by
  rw [h.phases, configuredPhase, if_pos (by omega), if_pos (by omega)]

/-- Every phase is the compute phase of a layer, the activation phase of a layer before the last,
or one of the weight loading phases. -/
theorem Configured.phase_cases (h : Configured strategy s) {p : ℕ} {phase : Phase}
    (hp : s.phases.get? p = some phase) :
    (∃ l < s.numLayers, p = 2 * l) ∨ (∃ l, l + 1 < s.numLayers ∧ p = 2 * l + 1) ∨
      (∃ j < weightPhaseCount strategy s.numLayers, p = 2 * s.numLayers - 1 + j) := by
  rw [h.phases, configuredPhase] at hp
  by_cases h1 : p < 2 * s.numLayers - 1
  · by_cases hodd : p % 2 = 1
    · exact .inr (.inl ⟨p / 2, by omega, by omega⟩)
    · exact .inl ⟨p / 2, by omega, by omega⟩
  · rw [if_neg h1] at hp
    by_cases h2 : p < 2 * s.numLayers - 1 + weightPhaseCount strategy s.numLayers
    · exact .inr (.inr ⟨p - (2 * s.numLayers - 1), by omega, by omega⟩)
    · rw [if_neg h2] at hp
      cases hp

/-- The dependencies of the `j`-th weight loading phase. -/
def weightDependencies (j : ℕ) : List ℕ := if j = 0 then [] else [2 * j - 1]

theorem Configured.get?_weight (h : Configured strategy s) {j : ℕ}
    (hj : j < weightPhaseCount strategy s.numLayers) :
    s.phases.get? (2 * s.numLayers - 1 + j) = some
      { phaseId := 2 * s.numLayers - 1 + j
        modelIdx := s.modelIdx
        dependencies := weightDependencies j
        kind := .weightLoading (weightLayers strategy s.numLayers j) none } := by
  have hsub : 2 * s.numLayers - 1 + j - (2 * s.numLayers - 1) = j := by omega
  rw [h.phases, configuredPhase, if_neg (by omega), if_pos (by omega)]
  by_cases h0 : j = 0
  · rw [if_pos (by omega)]
    simp [weightPhase, weightDependencies, h0]
  · rw [if_neg (by omega)]
    simp [weightPhase, weightDependencies, Phase.addDependency, h0]

theorem Configured.mem_phases (h : Configured strategy s) (p : ℕ) :
    p ∈ s.phases ↔ p < 2 * s.numLayers - 1 + weightPhaseCount strategy s.numLayers := by
  rw [Dict.mem_iff]
  simp only [h.phases, configuredPhase]
  constructor
  · rintro ⟨phase, hphase⟩
    by_contra hlt
    rw [if_neg (by omega), if_neg hlt] at hphase
    cases hphase
  · intro hlt
    split_ifs <;> exact ⟨_, rfl⟩

theorem isWeightLoading_defaultPhase (modelIdx p : ℕ) :
    (defaultPhase modelIdx p).isWeightLoading = false := by
  by_cases hodd : p % 2 = 1 <;> simp [Phase.isWeightLoading, defaultPhase, hodd]

theorem Configured.isWeightLoading (h : Configured strategy s) {p : ℕ} {phase : Phase}
    (hp : s.phases.get? p = some phase) :
    phase.isWeightLoading = decide (2 * s.numLayers - 1 ≤ p) := by
  rw [h.phases, configuredPhase] at hp
  by_cases h1 : p < 2 * s.numLayers - 1
  · rw [if_pos h1] at hp
    rw [decide_eq_false (not_le.mpr h1)]
    split_ifs at hp <;> cases hp <;> exact isWeightLoading_defaultPhase s.modelIdx p
  · rw [if_neg h1] at hp
    rw [decide_eq_true (not_lt.mp h1)]
    split_ifs at hp <;> cases hp <;> rfl

theorem WeightsAdded.isWeightLoading {k : ℕ} (h : WeightsAdded strategy k s) {p : ℕ}
    {phase : Phase} (hp : s.phases.get? p = some phase) :
    phase.isWeightLoading = decide (2 * s.numLayers - 1 ≤ p) := by
  rw [h.phases] at hp
  by_cases h1 : p < 2 * s.numLayers - 1
  · rw [if_pos h1, Option.some.injEq] at hp
    rw [decide_eq_false (not_le.mpr h1), ← hp, isWeightLoading_defaultPhase]
  · rw [if_neg h1] at hp
    rw [decide_eq_true (not_lt.mp h1)]
    split_ifs at hp
    cases hp
    rfl

theorem WeightsAdded.mem_phases {k : ℕ} (h : WeightsAdded strategy k s) (p : ℕ) :
    p ∈ s.phases ↔ p < 2 * s.numLayers - 1 + k := by
  rw [Dict.mem_iff]
  simp only [h.phases]
  constructor
  · rintro ⟨phase, hphase⟩
    by_contra hlt
    rw [if_neg (by omega), if_neg hlt] at hphase
    cases hphase
  · intro hlt
    split_ifs <;> exact ⟨_, rfl⟩

/-! ## The rank of a phase -/

/-- A rank that every dependency decreases. -/
def phaseRank (strategy : WeightLoadingStrategy) (L p : ℕ) : ℕ :=
  match strategy with
  | .allAtOnce => if p < 2 * L - 1 then p + 1 else 0
  | .justInTime => if p < 2 * L - 1 then p + p / 2 + 1 else 3 * (p - (2 * L - 1))

theorem phaseRank_weightPhaseId {L l : ℕ} (hl : l < L) :
    phaseRank strategy L (weightPhaseId strategy L l) < phaseRank strategy L (2 * l) := by
  have h1 : ¬ weightPhaseId strategy L l < 2 * L - 1 := not_lt.mpr (weightPhaseId_ge L l)
  have h2 : 2 * l < 2 * L - 1 := by omega
  cases strategy with
  | allAtOnce =>
    simp only [phaseRank, if_neg h1, if_pos h2]
    omega
  | justInTime =>
    simp only [phaseRank, if_neg h1, if_pos h2]
    simp only [weightPhaseId]
    omega

theorem phaseRank_pred {L p : ℕ} (hp : 0 < p) (hlt : p < 2 * L - 1) :
    phaseRank strategy L (p - 1) < phaseRank strategy L p := by
  cases strategy with
  | allAtOnce =>
    simp only [phaseRank]
    rw [if_pos (by omega), if_pos hlt]
    omega
  | justInTime =>
    simp only [phaseRank]
    rw [if_pos (by omega), if_pos hlt]
    omega

theorem phaseRank_lt (L p : ℕ) (hp : p < 2 * L - 1 + weightPhaseCount strategy L) :
    phaseRank strategy L p < 2 * L - 1 + weightPhaseCount strategy L := by
  cases strategy with
  | allAtOnce =>
    simp only [phaseRank, weightPhaseCount] at *
    split_ifs <;> omega
  | justInTime =>
    simp only [phaseRank, weightPhaseCount] at *
    split_ifs <;> omega

theorem weightPhaseId_lt {L l : ℕ} (hl : l < L) :
    weightPhaseId strategy L l < 2 * L - 1 + weightPhaseCount strategy L := by
  cases strategy with
  | allAtOnce => simp [weightPhaseId, weightPhaseCount]
  | justInTime => simpa [weightPhaseId, weightPhaseCount] using hl

theorem mem_defaultPhase_dependencies {modelIdx p d : ℕ} :
    d ∈ (defaultPhase modelIdx p).dependencies ↔ 0 < p ∧ d = p - 1 := by
  unfold defaultPhase
  by_cases hp : p = 0
  · simp [hp]
  · simp [hp, Nat.pos_of_ne_zero hp]

/-- Dependencies exist and have smaller rank. -/
theorem Configured.ranked (h : Configured strategy s) {p : ℕ} {phase : Phase}
    (hp : s.phases.get? p = some phase) {d : ℕ} (hd : d ∈ phase.dependencies) :
    d ∈ s.phases ∧ phaseRank strategy s.numLayers d < phaseRank strategy s.numLayers p := by
  rw [h.mem_phases]
  rcases h.phase_cases hp with ⟨l, hl, rfl⟩ | ⟨l, hl, rfl⟩ | ⟨j, hj, rfl⟩
  · rw [h.get?_compute hl, Option.some.injEq] at hp
    subst hp
    rcases List.mem_append.mp hd with hd | hd
    · obtain ⟨hpos, rfl⟩ := mem_defaultPhase_dependencies.mp hd
      exact ⟨by omega, phaseRank_pred hpos (by omega)⟩
    · rw [List.mem_singleton] at hd
      subst hd
      exact ⟨weightPhaseId_lt hl, phaseRank_weightPhaseId hl⟩
  · rw [h.get?_activation hl, Option.some.injEq] at hp
    subst hp
    obtain ⟨hpos, rfl⟩ := mem_defaultPhase_dependencies.mp hd
    exact ⟨by omega, phaseRank_pred hpos (by omega)⟩
  · rw [h.get?_weight hj, Option.some.injEq] at hp
    subst hp
    -- only just-in-time weight phases after the first have a dependency
    have hj0 : 0 < j ∧ d = 2 * j - 1 := by
      simp only [weightDependencies] at hd
      by_cases h0 : j = 0
      · simp [h0] at hd
      · simpa [h0, Nat.pos_of_ne_zero h0] using hd
    obtain ⟨hj0, rfl⟩ := hj0
    cases strategy with
    | allAtOnce => simp only [weightPhaseCount] at hj; omega
    | justInTime =>
      simp only [weightPhaseCount] at hj
      simp only [phaseRank, weightPhaseCount]
      rw [if_pos (by omega), if_neg (by omega)]
      exact ⟨by omega, by omega⟩

/-! ## Well-formedness -/

theorem defaultPhase_kind_even (modelIdx l : ℕ) :
    (defaultPhase modelIdx (2 * l)).kind = .compute l := by
  have h : 2 * l % 2 ≠ 1 := by omega
  have h' : 2 * l / 2 = l := by omega
  simp only [defaultPhase, if_neg h, h']

theorem defaultPhase_kind_odd (modelIdx l : ℕ) :
    (defaultPhase modelIdx (2 * l + 1)).kind = .activationComm l none := by
  have h : (2 * l + 1) % 2 = 1 := by omega
  have h' : (2 * l + 1) / 2 = l := by omega
  simp only [defaultPhase, if_pos h, h']

/-- A compute phase of a configured schedule. -/
theorem Configured.compute_cases (h : Configured strategy s) {p l : ℕ} {phase : Phase}
    (hp : s.phases.get? p = some phase) (hk : phase.kind = .compute l) :
    l < s.numLayers ∧ p = 2 * l := by
  rcases h.phase_cases hp with ⟨l', hl, rfl⟩ | ⟨l', hl, rfl⟩ | ⟨j, hj, rfl⟩
  · rw [h.get?_compute hl, Option.some.injEq] at hp
    have hkind := congrArg Phase.kind hp
    rw [hk] at hkind
    simp only [Phase.addDependency, defaultPhase_kind_even, PhaseKind.compute.injEq] at hkind
    exact ⟨hkind ▸ hl, by rw [hkind]⟩
  · rw [h.get?_activation hl, Option.some.injEq] at hp
    rw [← hp, defaultPhase_kind_odd] at hk
    cases hk
  · rw [h.get?_weight hj, Option.some.injEq] at hp
    rw [← hp] at hk
    cases hk

theorem weightPhaseId_eq (strategy : WeightLoadingStrategy) (L l : ℕ) (hl : l < L) :
    ∃ j < weightPhaseCount strategy L, weightPhaseId strategy L l = 2 * L - 1 + j ∧
      l ∈ weightLayers strategy L j := by
  cases strategy with
  | allAtOnce => exact ⟨0, Nat.one_pos, rfl, List.mem_range.mpr hl⟩
  | justInTime => exact ⟨l, hl, rfl, List.mem_singleton.mpr rfl⟩

theorem exists_weightPhaseId (strategy : WeightLoadingStrategy) (L j : ℕ) (hL : 0 < L)
    (hj : j < weightPhaseCount strategy L) :
    ∃ l < L, weightPhaseId strategy L l = 2 * L - 1 + j := by
  cases strategy with
  | allAtOnce =>
    have : j = 0 := by simpa [weightPhaseCount] using hj
    exact ⟨0, hL, by simp [weightPhaseId, this]⟩
  | justInTime => exact ⟨j, hj, rfl⟩

/-- The phases that load weights. -/
theorem Configured.weight_cases (h : Configured strategy s) {w : ℕ} {wphase : Phase}
    (hw : s.phases.get? w = some wphase) (hweight : wphase.isWeightLoading = true) :
    ∃ j < weightPhaseCount strategy s.numLayers, w = 2 * s.numLayers - 1 + j ∧
      wphase.layersToLoad = weightLayers strategy s.numLayers j := by
  rcases h.phase_cases hw with ⟨l, hl, rfl⟩ | ⟨l, hl, rfl⟩ | ⟨j, hj, rfl⟩
  · rw [h.get?_compute hl, Option.some.injEq] at hw
    rw [← hw, Phase.isWeightLoading, Phase.addDependency, defaultPhase_kind_even] at hweight
    cases hweight
  · rw [h.get?_activation hl, Option.some.injEq] at hw
    rw [← hw, Phase.isWeightLoading, defaultPhase_kind_odd] at hweight
    cases hweight
  · rw [h.get?_weight hj, Option.some.injEq] at hw
    exact ⟨j, hj, rfl, by rw [← hw]; rfl⟩

/-- The layers of a weight phase are those it is entered for. -/
theorem mem_weightLayers {L j l : ℕ} (hj : j < weightPhaseCount strategy L)
    (hl : l ∈ weightLayers strategy L j) :
    l < L ∧ weightPhaseId strategy L l = 2 * L - 1 + j := by
  cases strategy with
  | allAtOnce =>
    simp only [weightPhaseCount, weightLayers, List.mem_range] at hj hl
    exact ⟨hl, by simp only [weightPhaseId]; omega⟩
  | justInTime =>
    simp only [weightPhaseCount, weightLayers, List.mem_singleton] at hj hl
    exact ⟨hl ▸ hj, by simp only [weightPhaseId]; omega⟩

/-- A configured schedule whose order was sorted last is well-formed. -/
theorem Configured.wellFormed (h : Configured strategy s)
    (hsorted : s.phaseExecutionOrder =
      dfsSort s.dependenciesOf s.phases.keys.length s.phases.keys) : s.WellFormed := by
  have hlen : s.phases.keys.length = 2 * s.numLayers - 1 + weightPhaseCount strategy s.numLayers :=
    Dict.length_keys_of_mem_iff h.mem_phases
  have hdeps : ∀ p, p ∈ s.phases → ∀ d ∈ s.dependenciesOf p,
      d ∈ s.phases ∧ phaseRank strategy s.numLayers d < phaseRank strategy s.numLayers p := by
    intro p hp d hd
    obtain ⟨phase, hphase⟩ := Dict.mem_iff.mp hp
    rw [dependenciesOf, hphase] at hd
    exact h.ranked hphase hd
  obtain ⟨hord, hmem⟩ := dfsSort_spec (fun p hp d hd => (hdeps p hp d hd).2)
    (fun p hp d hd => (hdeps p hp d hd).1) s.phases.keys.length s.phases.keys
    (fun p => Dict.mem_def) (fun p hp => by
      rw [hlen]
      exact phaseRank_lt _ _ ((h.mem_phases p).mp hp))
  refine ⟨?_, ?_, ⟨phaseRank strategy s.numLayers, fun p phase hp d hd => h.ranked hp hd⟩,
    ?_, ?_, ?_, ?_, ?_, ?_, h.pos⟩
  · intro p
    rw [hsorted, hmem, Dict.mem_def]
  · rw [hsorted]
    exact hord
  · intro p phase l hp hk
    obtain ⟨hl, rfl⟩ := h.compute_cases hp hk
    exact ⟨hl, by rw [h.compute, if_pos hl]⟩
  · intro l hl
    exact ⟨2 * l, _, by rw [h.compute, if_pos hl], h.get?_compute hl,
      defaultPhase_kind_even s.modelIdx l⟩
  · intro p phase l hp hk
    obtain ⟨hl, rfl⟩ := h.compute_cases hp hk
    obtain ⟨j, hj, hid, hmem⟩ := weightPhaseId_eq strategy s.numLayers l hl
    rw [h.get?_compute hl, Option.some.injEq] at hp
    refine ⟨2 * s.numLayers - 1 + j, _, by rw [h.weight, if_pos hl, hid], ?_,
      h.get?_weight hj, rfl, hmem⟩
    rw [← hp, hid]
    exact List.mem_append_right _ (List.mem_singleton.mpr rfl)
  · intro w wphase hw hweight
    obtain ⟨j, hj, rfl, -⟩ := h.weight_cases hw hweight
    obtain ⟨l, hl, hid⟩ := exists_weightPhaseId strategy s.numLayers j h.pos hj
    refine ⟨2 * l, _, l, h.get?_compute hl, defaultPhase_kind_even s.modelIdx l, ?_⟩
    rw [← hid]
    exact List.mem_append_right _ (List.mem_singleton.mpr rfl)
  · intro w wphase hw hweight
    obtain ⟨j, hj, rfl, hlayers⟩ := h.weight_cases hw hweight
    rw [hlayers]
    refine ⟨?_, fun l hl => ?_⟩
    · cases strategy with
      | allAtOnce => simp [weightLayers, h.pos.ne']
      | justInTime => simp [weightLayers]
    · obtain ⟨hlL, hid⟩ := mem_weightLayers hj hl
      rw [h.weight, if_pos hlL, hid]
  · intro l a ha
    rw [h.activation] at ha
    by_cases hl : l + 1 < s.numLayers
    · rw [if_pos hl, Option.some.injEq] at ha
      subst ha
      refine ⟨_, h.get?_activation hl, ?_⟩
      rw [Phase.isWeightLoading, defaultPhase_kind_odd]
    · rw [if_neg hl] at ha
      cases ha

/-! ## What the construction never changes -/

/-- The parameters of a schedule. -/
structure Config where
  modelIdx : ℕ
  numLayers : ℕ
  numInputs : ℕ
  communicationMethod : CommunicationMethod
  weightStationary : Bool

/-- The parameters of a schedule, which no step of its construction changes. -/
def config (s : PhaseSchedule) : Config :=
  ⟨s.modelIdx, s.numLayers, s.numInputs, s.communicationMethod, s.weightStationary⟩

theorem foldl_config {α : Type} {step : PhaseSchedule → α → PhaseSchedule}
    (h : ∀ s a, (step s a).config = s.config) (l : List α) (s : PhaseSchedule) :
    (l.foldl step s).config = s.config := by
  induction l generalizing s with
  | nil => rfl
  | cons a l ih => rw [List.foldl_cons, ih, h]

theorem config_addLayerPhases (s : PhaseSchedule) (l : ℕ) :
    (s.addLayerPhases l).config = s.config := by
  unfold addLayerPhases
  split <;> rfl

theorem config_linkComputePhase (s : PhaseSchedule) (l : ℕ) :
    (s.linkComputePhase l).config = s.config := by
  unfold linkComputePhase
  split <;> rfl

theorem config_buildDefaultPhaseSchedule (s : PhaseSchedule) :
    s.buildDefaultPhaseSchedule.config = s.config := by
  unfold buildDefaultPhaseSchedule
  rw [foldl_config config_linkComputePhase, foldl_config config_addLayerPhases]

theorem config_addWeightLoadingPhases (s : PhaseSchedule) (w : Dict ℕ (List ℕ)) :
    (s.addWeightLoadingPhases w).config = s.config := by
  have hstep : ∀ s l, (addWeightLoadingPhase s l).config = s.config := fun _ _ => rfl
  exact foldl_config hstep w.values s

theorem config_dependOnWeightPhase (w : ℕ) (s : PhaseSchedule) (l : ℕ) :
    (WeightScheduler.dependOnWeightPhase w s l).config = s.config := by
  unfold WeightScheduler.dependOnWeightPhase
  split <;> rfl

theorem config_delayWeightPhase (s : PhaseSchedule) (l : ℕ) :
    (WeightScheduler.delayWeightPhase s l).config = s.config := by
  unfold WeightScheduler.delayWeightPhase
  split
  · rfl
  · split
    · rfl
    · split <;> rfl

theorem config_dependOnOwnWeightPhase (s : PhaseSchedule) (l : ℕ) :
    (WeightScheduler.dependOnOwnWeightPhase s l).config = s.config := by
  unfold WeightScheduler.dependOnOwnWeightPhase
  split
  · exact config_dependOnWeightPhase _ s l
  · rfl

theorem config_configureDependencies (strategy : WeightLoadingStrategy) (s : PhaseSchedule) :
    (WeightScheduler.configureDependencies strategy s).config = s.config := by
  cases strategy with
  | allAtOnce =>
    show (WeightScheduler.configureAllAtOnceDependencies s).config = s.config
    unfold WeightScheduler.configureAllAtOnceDependencies
    split
    · rfl
    · exact foldl_config (config_dependOnWeightPhase _) _ s
  | justInTime =>
    show ((List.range s.numLayers).foldl WeightScheduler.dependOnOwnWeightPhase _).config = _
    rw [foldl_config config_dependOnOwnWeightPhase, foldl_config config_delayWeightPhase]

end

/-! ## The schedule of a new model -/

section

variable (a : MappedModel.Args) (strategy : WeightLoadingStrategy)

/-- The schedule with its weight loading phases, before their dependencies are configured. -/
def weighted : PhaseSchedule :=
  a.emptySchedule.buildDefaultPhaseSchedule.addWeightLoadingPhases
    (WeightScheduler.generateSchedule strategy a.numLayers)

theorem config_weighted : (weighted a strategy).config = a.emptySchedule.config := by
  unfold weighted
  rw [config_addWeightLoadingPhases, config_buildDefaultPhaseSchedule]

theorem config_scheduled :
    (WeightScheduler.configureDependencies strategy (weighted a strategy)).config =
      a.emptySchedule.config := by
  rw [config_configureDependencies, config_weighted]

variable (hL : 0 < a.numLayers)

include hL in
theorem weighted_spec :
    WeightsAdded strategy (weightPhaseCount strategy a.numLayers) (weighted a strategy) ∧
      ∀ l, (weighted a strategy).layerToWeightCommPhase.get? l =
        if l < a.numLayers then some (weightPhaseId strategy a.numLayers l) else none := by
  have hnum : a.emptySchedule.buildDefaultPhaseSchedule.numLayers = a.numLayers :=
    congrArg Config.numLayers (config_buildDefaultPhaseSchedule a.emptySchedule)
  obtain ⟨hadd, -, hweight⟩ := weightsAdded strategy (defaultBuilt a hL)
  rw [hnum] at hadd hweight
  exact ⟨hadd, hweight⟩

include hL in
theorem configured_scheduled :
    Configured strategy (WeightScheduler.configureDependencies strategy (weighted a strategy)) := by
  have hnum : (weighted a strategy).numLayers = a.numLayers :=
    congrArg Config.numLayers (config_weighted a strategy)
  obtain ⟨hadd, hweight⟩ := weighted_spec a strategy hL
  rw [← hnum] at hadd hweight hL
  cases strategy with
  | allAtOnce => exact configured_allAtOnce hadd hL hweight
  | justInTime => exact configured_justInTime hadd hL hweight

include hL in
/-- Both strategies produce a well-formed schedule. -/
theorem wellFormed_scheduled :
    (WeightScheduler.configureDependencies strategy (weighted a strategy)).WellFormed := by
  have hnum : (weighted a strategy).numLayers = a.numLayers :=
    congrArg Config.numLayers (config_weighted a strategy)
  refine (configured_scheduled a strategy hL).wellFormed ?_
  cases strategy with
  | allAtOnce =>
    have hw0 : (weighted a .allAtOnce).layerToWeightCommPhase.get? 0 =
        some (2 * a.numLayers - 1) := by
      rw [(weighted_spec a .allAtOnce hL).2, if_pos hL]; rfl
    simp only [WeightScheduler.configureDependencies,
      WeightScheduler.configureAllAtOnceDependencies, hw0]
    rfl
  | justInTime => rfl

end

/-! ## The execution order -/

/-- A phase has another one among its dependencies. -/
def DependsOn (s : PhaseSchedule) (p d : ℕ) : Prop := d ∈ s.dependenciesOf p

/-- A model without layers has no dependencies; the strategy adds nothing but an empty weight
loading phase. -/
theorem scheduled_empty {a : MappedModel.Args} (hL : a.numLayers = 0)
    (strategy : WeightLoadingStrategy) :
    let s := (MappedModel.scheduled a strategy).toPhaseSchedule
    s.phaseExecutionOrder = s.phases.keys ∧ ∀ p, s.dependenciesOf p = [] := by
  have hbuild : a.emptySchedule.buildDefaultPhaseSchedule = a.emptySchedule := by
    have hnum : a.emptySchedule.numLayers = 0 := hL
    unfold buildDefaultPhaseSchedule
    simp [hnum]
  have hnum : a.emptySchedule.sortExecutionOrder.numLayers = 0 := hL
  have hschedule : (MappedModel.scheduled a strategy).toPhaseSchedule =
      WeightScheduler.configureDependencies strategy (a.emptySchedule.addWeightLoadingPhases
        (WeightScheduler.generateSchedule strategy 0)) := by
    show WeightScheduler.configureDependencies strategy
      (a.emptySchedule.buildDefaultPhaseSchedule.addWeightLoadingPhases _) = _
    rw [hbuild, hL]
  intro s
  have hs : s = (MappedModel.scheduled a strategy).toPhaseSchedule := rfl
  rw [hs, hschedule]
  cases strategy with
  | allAtOnce =>
    refine ⟨rfl, fun p => ?_⟩
    have hphases : ((a.emptySchedule.addWeightLoadingPhase []).phases.get? p) =
        if p = 0 then some { phaseId := 0, modelIdx := a.modelIdx, kind := .weightLoading [] none }
        else none := Dict.get?_set _ _ _ _
    show (a.emptySchedule.addWeightLoadingPhase []).dependenciesOf p = []
    unfold dependenciesOf
    rw [hphases]
    by_cases hp : p = 0 <;> simp [hp]
  | justInTime =>
    have hweights : a.emptySchedule.addWeightLoadingPhases
        (WeightScheduler.generateSchedule .justInTime 0) = a.emptySchedule.sortExecutionOrder := rfl
    rw [hweights]
    unfold WeightScheduler.configureDependencies WeightScheduler.configureJitDependencies
    simp only [hnum]
    exact ⟨rfl, fun p => rfl⟩

/-- **The execution order is a topological order of the phases**, whose dependencies have no
cycle. -/
theorem scheduled_topological (a : MappedModel.Args) (strategy : WeightLoadingStrategy) :
    let s := (MappedModel.scheduled a strategy).toPhaseSchedule
    (∀ p, ¬ Relation.TransGen s.DependsOn p p) ∧ s.phaseExecutionOrder.Perm s.phases.keys ∧
      ∀ before p after, s.phaseExecutionOrder = before ++ p :: after →
        ∀ d ∈ s.dependenciesOf p, d ∈ before := by
  intro s
  have hsorted : TopoOrdered s.dependenciesOf s.phaseExecutionOrder ∧
      s.phaseExecutionOrder.Perm s.phases.keys := by
    rcases Nat.eq_zero_or_pos a.numLayers with hL | hL
    · obtain ⟨horder, hdeps⟩ := scheduled_empty hL strategy
      rw [horder]
      exact ⟨topoOrdered_of_deps_nil hdeps s.phases.nodup_keys, List.Perm.refl _⟩
    · have hwf : s.WellFormed := wellFormed_scheduled a strategy hL
      exact ⟨hwf.ordered, (List.perm_ext_iff_of_nodup hwf.ordered.nodup s.phases.nodup_keys).mpr
        hwf.mem_order⟩
  obtain ⟨hordered, hperm⟩ := hsorted
  refine ⟨hordered.not_transGen fun p hp => ?_, hperm, fun _ _ _ h => hordered.mem_before h⟩
  rw [hperm.mem_iff, ← Dict.mem_def]
  by_contra hmem
  refine hp ?_
  unfold dependenciesOf
  rw [Dict.get?_eq_none_iff.mpr hmem]

end PhaseSchedule

end ChipSim
