import ChipSim.Lib.Lists
import ChipSim.MappedModel.Records
import ChipSim.MappedModel.WellFormed

/-!
# Models ready to run

`prepare` is what the global manager does with a freshly mapped model: construct it, add and
configure the weight loading phases, store the compute results of all chunks, and calculate the
traffic of its communication phases. Such a model is `Initial`: its schedule is well-formed and
nothing has started.
-/

namespace ChipSim

open Lib

namespace MappedModel

/-- The preparation of a mapped model: `chunks` lists the compute results to be stored, as layer,
chiplet, chunk index and result. -/
def prepare (a : Args) (strategy : WeightLoadingStrategy)
    (chunks : List (ℕ × ℕ × ℕ × ChunkResult)) (source : TrafficSource) :
    Except PyError MappedModel := do
  let m := chunks.foldl (fun m c => m.addChunkComputeResult c.1 c.2.1 c.2.2.1 c.2.2.2)
    (scheduled a strategy)
  let m ← m.updateAllLayerComputeMetrics.calculateAllTraffic source
  return m.markLayersWithoutCommunication

/-- An instance that exists for input `i`: all phases, but weight phases in stationary mode only
for the first input. -/
def HasInstance (s : PhaseSchedule) (i p : ℕ) : Prop :=
  i < s.numInputs ∧ ∃ phase, s.phases.get? p = some phase ∧ skipsInstance s i phase = false

/-- A phase instance of which nothing has happened yet. -/
structure FreshInstance (s : PhaseSchedule) (i p : ℕ) (x : PhaseInstance) : Prop where
  phaseId : x.phaseId = p
  inputIdx : x.inputIdx = i
  state : x.state = .notStarted
  start : x.startTimeUs = -1
  completion : x.completionTimeUs = -1
  latency_nonneg : 0 ≤ x.latencyUs
  latency_comm : ∀ phase, s.phases.get? p = some phase → phase.isCompute = false → x.latencyUs = 0

/-- The instances of a model that is ready to run. -/
structure FreshInstances (s : PhaseSchedule) (d : Dict ℕ (Dict ℕ PhaseInstance)) : Prop where
  exist : ∀ i p, (∃ x, d.get2? i p = some x) ↔ HasInstance s i p
  fresh : ∀ i p x, d.get2? i p = some x → FreshInstance s i p x

/-- A model that is ready to run. -/
structure Initial (m : MappedModel) : Prop where
  wellFormed : m.toPhaseSchedule.WellFormed
  instances : FreshInstances m.toPhaseSchedule m.phaseInstances
  inputs : ∀ i, i < m.numInputs ↔ i ∈ m.phaseInstances
  inputStart_zero : 0 < m.numInputs → m.inputStart 0 = m.modelStartTimeUs
  inputStart_pos : ∀ i, 0 < i → m.inputStart i = -1
  inputStart_length : m.inputStartTimeUs.length = m.numInputs
  inputCompletion : ∀ i, m.inputCompletion i = -1
  inputCompletion_length : m.inputCompletionTimeUs.length = m.numInputs
  modelCompletion : m.modelCompletionTimeUs = -1
  weightsLoaded : ∀ l, m.weightsLoaded.get? l = if l < m.numLayers then some false else none

/-! ## The constructor -/

theorem get2?_initialInstances (s : PhaseSchedule) (i p : ℕ) :
    (initialInstances s).get2? i p =
      if i < s.numInputs ∧ p ∈ s.phases then
        some { phaseId := p, inputIdx := i } else none := by
  unfold initialInstances Dict.get2?
  rw [Dict.get?_comprehension]
  by_cases hi : i < s.numInputs
  · rw [if_pos (List.mem_range.mpr hi), Option.bind_some, Dict.get?_comprehension]
    by_cases hp : p ∈ s.phases
    · rw [if_pos (Dict.mem_def.mp hp), if_pos ⟨hi, hp⟩]
    · rw [if_neg (fun h => hp (Dict.mem_def.mpr h)), if_neg (fun h => hp h.2)]
  · rw [if_neg (fun h => hi (List.mem_range.mp h)), Option.bind_none, if_neg (fun h => hi h.1)]

/-! ## Adding the weight loading phases -/

section

variable (s : PhaseSchedule) (i : ℕ)

/-- One pass of the loop over the phases. -/
def addInstance (d : Dict ℕ PhaseInstance) (e : ℕ × Phase) : Dict ℕ PhaseInstance :=
  if e.1 ∈ d ∨ skipsInstance s i e.2 then d else d.set e.1 { phaseId := e.1, inputIdx := i }

theorem mem_foldl_addInstance (es : List (ℕ × Phase)) (d : Dict ℕ PhaseInstance) (p : ℕ) :
    p ∈ es.foldl (addInstance s i) d ↔
      p ∈ d ∨ ∃ phase, (p, phase) ∈ es ∧ skipsInstance s i phase = false := by
  induction es generalizing d with
  | nil => simp
  | cons e es ih =>
    obtain ⟨q, ph⟩ := e
    rw [List.foldl_cons, ih, addInstance]
    by_cases hskip : q ∈ d ∨ skipsInstance s i ph = true
    · rw [if_pos hskip]
      constructor
      · rintro (h | ⟨phase, h, hs⟩)
        · exact .inl h
        · exact .inr ⟨phase, List.mem_cons_of_mem _ h, hs⟩
      · rintro (h | ⟨phase, h, hs⟩)
        · exact .inl h
        · rcases List.mem_cons.mp h with heq | h
          · obtain ⟨rfl, rfl⟩ := Prod.mk.inj heq
            exact .inl (hskip.resolve_right (by simp [hs]))
          · exact .inr ⟨phase, h, hs⟩
    · rw [if_neg hskip, Dict.mem_set]
      push Not at hskip
      constructor
      · rintro ((rfl | h) | ⟨phase, h, hs⟩)
        · exact .inr ⟨ph, List.mem_cons_self, by simpa using hskip.2⟩
        · exact .inl h
        · exact .inr ⟨phase, List.mem_cons_of_mem _ h, hs⟩
      · rintro (h | ⟨phase, h, hs⟩)
        · exact .inl (.inr h)
        · rcases List.mem_cons.mp h with heq | h
          · exact .inl (.inl (Prod.mk.inj heq).1)
          · exact .inr ⟨phase, h, hs⟩

theorem get?_foldl_addInstance {es : List (ℕ × Phase)} {d : Dict ℕ PhaseInstance} {p : ℕ}
    {x : PhaseInstance} (h : (es.foldl (addInstance s i) d).get? p = some x) :
    d.get? p = some x ∨ x = { phaseId := p, inputIdx := i } := by
  induction es generalizing d with
  | nil => exact .inl h
  | cons e es ih =>
    rcases ih h with h | h
    · unfold addInstance at h
      split at h
      · exact .inl h
      · rw [Dict.get?_set] at h
        by_cases hp : p = e.1
        · rw [if_pos hp, Option.some.injEq] at h
          exact .inr (by rw [← h, hp])
        · rw [if_neg hp] at h
          exact .inl h
    · exact .inr h

end

theorem addMissingInstances_eq (s : PhaseSchedule) (i : ℕ) (d : Dict ℕ PhaseInstance) :
    addMissingInstances s i d = s.phases.entries.foldl (addInstance s i) d := rfl

theorem freshInstance_default (s : PhaseSchedule) (i p : ℕ) :
    FreshInstance s i p { phaseId := p, inputIdx := i } :=
  ⟨rfl, rfl, rfl, rfl, rfl, le_rfl, fun _ _ _ => rfl⟩

section

open PhaseSchedule

variable (a : Args) (strategy : WeightLoadingStrategy)

theorem scheduled_schedule : (scheduled a strategy).toPhaseSchedule =
    WeightScheduler.configureDependencies strategy (weighted a strategy) := rfl

theorem scheduled_instances (i p : ℕ) : (scheduled a strategy).phaseInstances.get2? i p =
    ((initialInstances a.emptySchedule.buildDefaultPhaseSchedule).get? i).bind fun d =>
      (addMissingInstances (weighted a strategy) i d).get? p := by
  show ((initialInstances a.emptySchedule.buildDefaultPhaseSchedule).mapValues
    (addMissingInstances (weighted a strategy))).get2? i p = _
  unfold Dict.get2?
  rw [Dict.get?_mapValues, Option.bind_map]
  rfl

variable {a strategy}

/-- Which instances exist once the weight loading phases were added. -/
theorem hasInstance_scheduled (hL : 0 < a.numLayers) (i p : ℕ) :
    HasInstance (scheduled a strategy).toPhaseSchedule i p ↔
      i < a.numInputs ∧ ∃ phase, (weighted a strategy).phases.get? p = some phase ∧
        skipsInstance (weighted a strategy) i phase = false := by
  have hconf := configured_scheduled a strategy hL
  obtain ⟨hadd, -⟩ := weighted_spec a strategy hL
  have hc := config_scheduled a strategy
  have hw := config_weighted a strategy
  have hLc := congrArg Config.numLayers hc
  have hLw := congrArg Config.numLayers hw
  have hskip : ∀ phase phase', (scheduled a strategy).phases.get? p = some phase →
      (weighted a strategy).phases.get? p = some phase' →
      skipsInstance (scheduled a strategy).toPhaseSchedule i phase =
        skipsInstance (weighted a strategy) i phase' := by
    intro phase phase' hp hp'
    have hst : (scheduled a strategy).weightStationary = (weighted a strategy).weightStationary :=
      (congrArg Config.weightStationary hc).trans (congrArg Config.weightStationary hw).symm
    have hn : (scheduled a strategy).numLayers = (weighted a strategy).numLayers :=
      hLc.trans hLw.symm
    unfold skipsInstance
    rw [hst, hadd.isWeightLoading hp', hconf.isWeightLoading hp, ← scheduled_schedule, hn]
  have hmem : p ∈ (scheduled a strategy).phases ↔ p ∈ (weighted a strategy).phases := by
    rw [scheduled_schedule, hconf.mem_phases, hadd.mem_phases]
    have h1 : (WeightScheduler.configureDependencies strategy (weighted a strategy)).numLayers =
      a.numLayers := hLc
    have h2 : (weighted a strategy).numLayers = a.numLayers := hLw
    rw [h1, h2]
  have hin : (scheduled a strategy).numInputs = a.numInputs := congrArg Config.numInputs hc
  unfold HasInstance
  rw [hin]
  constructor
  · rintro ⟨hi, phase, hp, hs⟩
    obtain ⟨phase', hp'⟩ := Dict.mem_iff.mp (hmem.mp (Dict.mem_of_get? hp))
    exact ⟨hi, phase', hp', (hskip _ _ hp hp') ▸ hs⟩
  · rintro ⟨hi, phase', hp', hs⟩
    obtain ⟨phase, hp⟩ := Dict.mem_iff.mp (hmem.mpr (Dict.mem_of_get? hp'))
    exact ⟨hi, phase, hp, (hskip _ _ hp hp').trans hs⟩

/-- No compute or activation phase is left without an instance by the stationary mode. -/
theorem default_not_skipped (hL : 0 < a.numLayers) {p : ℕ} (i : ℕ)
    (hp : p ∈ a.emptySchedule.buildDefaultPhaseSchedule.phases) :
    ∃ phase, (weighted a strategy).phases.get? p = some phase ∧
      skipsInstance (weighted a strategy) i phase = false := by
  have hb := defaultBuilt a hL
  obtain ⟨hadd, -⟩ := weighted_spec a strategy hL
  have hn : (weighted a strategy).numLayers = a.emptySchedule.buildDefaultPhaseSchedule.numLayers :=
    (congrArg Config.numLayers (config_weighted a strategy)).trans
      (congrArg Config.numLayers (config_buildDefaultPhaseSchedule a.emptySchedule)).symm
  obtain ⟨phase, hphase⟩ := Dict.mem_iff.mp hp
  have hlt : p < 2 * (weighted a strategy).numLayers - 1 := by
    rw [hb.phases] at hphase
    by_contra h
    rw [if_neg (hn ▸ h)] at hphase
    cases hphase
  obtain ⟨phase', hp'⟩ := Dict.mem_iff.mp ((hadd.mem_phases p).mpr (by omega))
  refine ⟨phase', hp', ?_⟩
  rw [skipsInstance, hadd.isWeightLoading hp', decide_eq_false (not_le.mpr hlt)]
  rfl

theorem freshInstances_scheduled (hL : 0 < a.numLayers) :
    FreshInstances (scheduled a strategy).toPhaseSchedule
      (scheduled a strategy).phaseInstances := by
  set s₀ := a.emptySchedule.buildDefaultPhaseSchedule with hs₀
  have hN : s₀.numInputs = a.numInputs :=
    congrArg Config.numInputs (config_buildDefaultPhaseSchedule a.emptySchedule)
  have hget : ∀ i p, (initialInstances s₀).get2? i p = if i < a.numInputs ∧ p ∈ s₀.phases then
      some { phaseId := p, inputIdx := i } else none := by
    intro i p
    rw [get2?_initialInstances, hN]
  have hdict : ∀ i, (∃ d, (initialInstances s₀).get? i = some d) ↔ i < a.numInputs := by
    intro i
    unfold initialInstances
    rw [Dict.get?_comprehension, hN]
    by_cases hi : i < a.numInputs <;> simp [hi]
  constructor
  · intro i p
    rw [hasInstance_scheduled hL]
    simp only [scheduled_instances]
    constructor
    · rintro ⟨x, hx⟩
      obtain ⟨d, hd, hx⟩ := Option.bind_eq_some_iff.mp hx
      refine ⟨(hdict i).mp ⟨d, hd⟩, ?_⟩
      have hmem : p ∈ addMissingInstances (weighted a strategy) i d := Dict.mem_of_get? hx
      rw [addMissingInstances_eq, mem_foldl_addInstance] at hmem
      rcases hmem with h | ⟨phase, h, hs⟩
      · obtain ⟨y, hy⟩ := Dict.mem_iff.mp h
        have h2 : (initialInstances s₀).get2? i p = some y := by
          rw [Dict.get2?, hd, Option.bind_some, hy]
        rw [hget] at h2
        by_cases hc : i < a.numInputs ∧ p ∈ s₀.phases
        · exact default_not_skipped hL i hc.2
        · rw [if_neg hc] at h2
          cases h2
      · exact ⟨phase, Dict.mem_entries_iff.mp h, hs⟩
    · rintro ⟨hi, phase, hp, hs⟩
      obtain ⟨d, hd⟩ := (hdict i).mpr hi
      rw [hd, Option.bind_some]
      apply Dict.mem_iff.mp
      rw [addMissingInstances_eq, mem_foldl_addInstance]
      exact .inr ⟨phase, Dict.mem_entries_iff.mpr hp, hs⟩
  · intro i p x hx
    rw [scheduled_instances] at hx
    obtain ⟨d, hd, hx⟩ := Option.bind_eq_some_iff.mp hx
    rw [addMissingInstances_eq] at hx
    rcases get?_foldl_addInstance _ _ hx with h | rfl
    · have h2 : (initialInstances s₀).get2? i p = some x := by
        rw [Dict.get2?, hd, Option.bind_some, h]
      rw [hget] at h2
      split_ifs at h2
      cases h2
      exact freshInstance_default _ _ _
    · exact freshInstance_default _ _ _

end

/-! ## Compute metrics -/

theorem layerLatency_nonneg (chunks : Dict ℕ (ℕ × ChunkResult)) : 0 ≤ layerLatency chunks := by
  refine List.foldlRecOn (motive := fun t : ℚ => 0 ≤ t) _ _ le_rfl fun t ht c _ => ?_
  cases c.2.latencyUs with
  | some x => exact ht.trans (le_max_left t x)
  | none => exact ht

/-- A change of the instances that keeps them fresh. -/
def Refreshed (m m' : MappedModel) : Prop :=
  ∃ d, m' = { m with phaseInstances := d } ∧ (∀ i, i ∈ d ↔ i ∈ m.phaseInstances) ∧
    FreshInstances m.toPhaseSchedule d

theorem refreshed_setMetrics {m : MappedModel} {m' : MappedModel} (h : Refreshed m m')
    {i c : ℕ} {x : PhaseInstance} {phase : Phase} {lat e : ℚ}
    (hc : m.phases.get? c = some phase) (hcomp : phase.isCompute = true)
    (hx : m'.instance? i c = some x) (hlat : 0 ≤ lat) :
    Refreshed m (m'.setInstance i c { x with latencyUs := lat, energyFj := e }) := by
  obtain ⟨d, rfl, hmem, hd⟩ := h
  refine ⟨d.set2 i c _, rfl, ?_, ?_, ?_⟩
  · intro j
    have hi : i ∈ d := by
      obtain ⟨e, he, -⟩ := Option.bind_eq_some_iff.mp hx
      exact Dict.mem_of_get? he
    rw [Dict.set2, Dict.mem_set, hmem]
    constructor
    · rintro (rfl | h)
      · exact (hmem j).mp hi
      · exact h
    · exact .inr
  · intro j p
    rw [← hd.exist j p, Dict.get2?_set2]
    by_cases hjp : j = i ∧ p = c
    · obtain ⟨rfl, rfl⟩ := hjp
      simp only [and_self, if_true]
      exact ⟨fun _ => ⟨x, hx⟩, fun _ => ⟨_, rfl⟩⟩
    · rw [if_neg hjp]
  · intro j p y hy
    rw [Dict.get2?_set2] at hy
    by_cases hjp : j = i ∧ p = c
    · obtain ⟨rfl, rfl⟩ := hjp
      simp only [and_self, if_true, Option.some.injEq] at hy
      subst hy
      have hf := hd.fresh j p x hx
      refine ⟨hf.phaseId, hf.inputIdx, hf.state, hf.start, hf.completion, hlat, ?_⟩
      intro phase' hp' hcomm
      rw [hc, Option.some.injEq] at hp'
      rw [← hp', hcomp] at hcomm
      cases hcomm
    · rw [if_neg hjp] at hy
      exact hd.fresh j p y hy

theorem refreshed_updateMetrics {m : MappedModel} (hwf : m.toPhaseSchedule.WellFormed)
    (htab : ∀ l c, m.layerToComputePhase.get? l = some c → l < m.numLayers)
    (hinst : FreshInstances m.toPhaseSchedule m.phaseInstances) :
    Refreshed m m.updateAllLayerComputeMetrics := by
  refine List.foldlRecOn (motive := Refreshed m) _ _ ⟨_, rfl, fun _ => Iff.rfl, hinst⟩
    fun m' hm' e _ => ?_
  unfold setLayerComputeMetrics
  have htables : m'.layerToComputePhase = m.layerToComputePhase := by
    obtain ⟨d, rfl, -⟩ := hm'
    rfl
  cases hc : m'.layerToComputePhase.get? e.1 with
  | none => exact hm'
  | some c =>
    rw [htables] at hc
    obtain ⟨p, phase, hp, hphase, hkind⟩ := hwf.compute_phase e.1 (htab _ _ hc)
    rw [hc, Option.some.injEq] at hp
    subst hp
    refine List.foldlRecOn (motive := Refreshed m) _ _ hm' fun m'' hm'' i _ => ?_
    cases hx : m''.instance? i c with
    | none => exact hm''
    | some x =>
      have hcomp : phase.isCompute = true := by rw [Phase.isCompute, hkind]
      exact refreshed_setMetrics hm'' hphase hcomp hx (layerLatency_nonneg e.2)

/-! ## Traffic -/

/-- The phases of a schedule after traffic was assigned to some of them. -/
def Retrafficked (d d' : Dict ℕ Phase) : Prop :=
  d'.keys = d.keys ∧ ∀ p phase', d'.get? p = some phase' →
    ∃ phase, d.get? p = some phase ∧ (phase' = phase ∨ ∃ t, phase' = phase.setTraffic t)

section

variable (phase : Phase) (t : TrafficMatrixDict)

@[simp] theorem setTraffic_isWeightLoading :
    (phase.setTraffic t).isWeightLoading = phase.isWeightLoading := by
  unfold Phase.setTraffic Phase.isWeightLoading
  cases phase.kind <;> rfl

@[simp] theorem setTraffic_isCompute : (phase.setTraffic t).isCompute = phase.isCompute := by
  unfold Phase.setTraffic Phase.isCompute
  cases phase.kind <;> rfl

@[simp] theorem setTraffic_layersToLoad :
    (phase.setTraffic t).layersToLoad = phase.layersToLoad := by
  unfold Phase.setTraffic Phase.layersToLoad
  cases phase.kind <;> rfl

theorem setTraffic_kind_compute (l : ℕ) :
    (phase.setTraffic t).kind = .compute l ↔ phase.kind = .compute l := by
  unfold Phase.setTraffic
  cases phase.kind <;> simp

end

variable {a : Args} {strategy : WeightLoadingStrategy} {source : TrafficSource} {m : MappedModel}
  {chunks : List (ℕ × ℕ × ℕ × ChunkResult)}

/-- What a schedule keeps when traffic is assigned to a phase. -/
structure SameShape (phase phase' : Phase) : Prop where
  dependencies : phase'.dependencies = phase.dependencies
  isWeightLoading : phase'.isWeightLoading = phase.isWeightLoading
  isCompute : phase'.isCompute = phase.isCompute
  layersToLoad : phase'.layersToLoad = phase.layersToLoad
  kind_compute : ∀ l, phase'.kind = .compute l ↔ phase.kind = .compute l

theorem sameShape_of_setTraffic {phase phase' : Phase}
    (h : phase' = phase ∨ ∃ t, phase' = phase.setTraffic t) : SameShape phase phase' := by
  obtain rfl | ⟨t, rfl⟩ := h
  · exact ⟨rfl, rfl, rfl, rfl, fun _ => Iff.rfl⟩
  · exact ⟨rfl, by simp, by simp, by simp, setTraffic_kind_compute phase t⟩

theorem Retrafficked.get? {d d' : Dict ℕ Phase} (h : Retrafficked d d') {p : ℕ} {phase' : Phase}
    (hp : d'.get? p = some phase') : ∃ phase, d.get? p = some phase ∧ SameShape phase phase' := by
  obtain ⟨phase, hphase, hset⟩ := h.2 p phase' hp
  exact ⟨phase, hphase, sameShape_of_setTraffic hset⟩

theorem Retrafficked.mem {d d' : Dict ℕ Phase} (h : Retrafficked d d') (p : ℕ) :
    p ∈ d' ↔ p ∈ d := by
  rw [Dict.mem_def, Dict.mem_def, h.1]

theorem Retrafficked.get?_of {d d' : Dict ℕ Phase} (h : Retrafficked d d') {p : ℕ} {phase : Phase}
    (hp : d.get? p = some phase) : ∃ phase', d'.get? p = some phase' ∧ SameShape phase phase' := by
  obtain ⟨phase', hp'⟩ := Dict.mem_iff.mp ((h.mem p).mpr (Dict.mem_of_get? hp))
  obtain ⟨phase₀, hp₀, hs⟩ := h.get? hp'
  rw [hp, Option.some.injEq] at hp₀
  exact ⟨phase', hp', hp₀ ▸ hs⟩

/-- The loop of `calculate_all_traffic` changes the phases only. -/
theorem calculateAllTraffic_eq (m : MappedModel) (source : TrafficSource) :
    m.calculateAllTraffic source = do
      let d ← m.phases.entries.foldlM (fun d e => do
        return d.set e.1 (← m.calculatePhaseTraffic source e.2)) m.phases
      return { m with phases := d } := by
  have hloop : ∀ (es : List (ℕ × Phase)) (d : Dict ℕ Phase),
      es.foldlM (fun (m : MappedModel) e => do
          let phase ← m.calculatePhaseTraffic source e.2
          return { m with phases := m.phases.set e.1 phase }) { m with phases := d } =
        (do
          let d ← es.foldlM (fun d e => do
            return d.set e.1 (← m.calculatePhaseTraffic source e.2)) d
          return { m with phases := d } : Except PyError MappedModel) := by
    intro es
    induction es with
    | nil => exact fun d => rfl
    | cons e es ih =>
      intro d
      have hsame : calculatePhaseTraffic { m with phases := d } source e.2 =
        m.calculatePhaseTraffic source e.2 := rfl
      rw [List.foldlM_cons, List.foldlM_cons, hsame]
      cases m.calculatePhaseTraffic source e.2 with
      | error err => rfl
      | ok phase => exact ih (d.set e.1 phase)
  exact hloop m.phases.entries m.phases

theorem calculatePhaseTraffic_cases {phase phase' : Phase}
    (h : m.calculatePhaseTraffic source phase = .ok phase') :
    phase' = phase ∨ ∃ t, phase' = phase.setTraffic t := by
  unfold calculatePhaseTraffic at h
  split at h
  · exact .inl (Except.ok.inj h).symm
  · obtain ⟨t, -, ht⟩ := bind_eq_ok.mp h
    exact .inr ⟨t, (Except.ok.inj ht).symm⟩
  · obtain ⟨t, -, ht⟩ := bind_eq_ok.mp h
    exact .inr ⟨t, (Except.ok.inj ht).symm⟩

theorem retrafficked_calculateAllTraffic {m m' : MappedModel}
    (h : m.calculateAllTraffic source = .ok m') :
    ∃ d, m' = { m with phases := d } ∧ Retrafficked m.phases d := by
  refine foldlM_invariant (fun m' => ∃ d, m' = { m with phases := d } ∧ Retrafficked m.phases d)
    h ⟨m.phases, rfl, rfl, fun p phase hp => ⟨phase, hp, .inl rfl⟩⟩ ?_
  rintro ⟨p, phase⟩ he _ m'' ⟨d, rfl, hkeys, hd⟩ hstep
  obtain ⟨phase', hphase', hm''⟩ := bind_eq_ok.mp hstep
  have hp : m.phases.get? p = some phase := Dict.mem_entries_iff.mp he
  refine ⟨d.set p phase', (Except.ok.inj hm'').symm, ?_, ?_⟩
  · rw [Dict.keys_set_of_mem, hkeys]
    rw [Dict.mem_def, hkeys]
    exact Dict.mem_def.mp (Dict.mem_of_get? hp)
  · intro q phase'' hq
    rw [Dict.get?_set] at hq
    by_cases hqp : q = p
    · rw [if_pos hqp, Option.some.injEq] at hq
      subst hq hqp
      exact ⟨phase, hp, calculatePhaseTraffic_cases hphase'⟩
    · rw [if_neg hqp] at hq
      exact hd q phase'' hq

theorem wellFormed_retrafficked {s : PhaseSchedule} (h : s.WellFormed) {d : Dict ℕ Phase}
    (hd : Retrafficked s.phases d) : PhaseSchedule.WellFormed { s with phases := d } := by
  have hdeps : PhaseSchedule.dependenciesOf { s with phases := d } = s.dependenciesOf := by
    funext p
    unfold PhaseSchedule.dependenciesOf
    cases hp : s.phases.get? p with
    | some phase =>
      obtain ⟨phase', hp', hs⟩ := hd.get?_of hp
      simp only [hp', hs.dependencies]
    | none =>
      have : d.get? p = none := by
        rw [Dict.get?_eq_none_iff, hd.mem, ← Dict.get?_eq_none_iff, hp]
      simp only [this]
  refine ⟨fun p => (h.mem_order p).trans (hd.mem p).symm, by rw [hdeps]; exact h.ordered, ?_,
    ?_, ?_, ?_, ?_, ?_, ?_, h.pos⟩
  · obtain ⟨rank, hrank⟩ := h.ranked
    refine ⟨rank, fun p phase' hp' e he => ?_⟩
    obtain ⟨phase, hp, hs⟩ := hd.get? hp'
    rw [hs.dependencies] at he
    obtain ⟨hmem, hlt⟩ := hrank p phase hp e he
    exact ⟨(hd.mem e).mpr hmem, hlt⟩
  · intro p phase' l hp' hk
    obtain ⟨phase, hp, hs⟩ := hd.get? hp'
    exact h.compute_layer p phase l hp ((hs.kind_compute l).mp hk)
  · intro l hl
    obtain ⟨p, phase, htab, hp, hk⟩ := h.compute_phase l hl
    obtain ⟨phase', hp', hs⟩ := hd.get?_of hp
    exact ⟨p, phase', htab, hp', (hs.kind_compute l).mpr hk⟩
  · intro p phase' l hp' hk
    obtain ⟨phase, hp, hs⟩ := hd.get? hp'
    obtain ⟨w, wphase, htab, hdep, hw, hweight, hl⟩ :=
      h.weight_dep p phase l hp ((hs.kind_compute l).mp hk)
    obtain ⟨wphase', hw', hs'⟩ := hd.get?_of hw
    refine ⟨w, wphase', htab, ?_, hw', hs'.isWeightLoading.trans hweight, ?_⟩
    · rw [hs.dependencies]
      exact hdep
    · rw [hs'.layersToLoad]
      exact hl
  · intro w wphase' hw' hweight
    obtain ⟨wphase, hw, hs⟩ := hd.get? hw'
    obtain ⟨p, phase, l, hp, hk, hdep⟩ :=
      h.weight_used w wphase hw (hs.isWeightLoading ▸ hweight)
    obtain ⟨phase', hp', hs'⟩ := hd.get?_of hp
    refine ⟨p, phase', l, hp', (hs'.kind_compute l).mpr hk, ?_⟩
    rw [hs'.dependencies]
    exact hdep
  · intro w wphase' hw' hweight
    obtain ⟨wphase, hw, hs⟩ := hd.get? hw'
    rw [hs.layersToLoad]
    exact h.weight_layers w wphase hw (hs.isWeightLoading ▸ hweight)
  · intro l a ha
    obtain ⟨phase, hp, hweight⟩ := h.activation l a ha
    obtain ⟨phase', hp', hs⟩ := hd.get?_of hp
    exact ⟨phase', hp', hs.isWeightLoading.trans hweight⟩

theorem freshInstances_retrafficked {s : PhaseSchedule} {d : Dict ℕ (Dict ℕ PhaseInstance)}
    (h : FreshInstances s d) {d' : Dict ℕ Phase} (hd : Retrafficked s.phases d') :
    FreshInstances { s with phases := d' } d := by
  constructor
  · intro i p
    rw [h.exist i p]
    refine and_congr_right fun _ => ⟨?_, ?_⟩
    · rintro ⟨phase, hp, hskip⟩
      obtain ⟨phase', hp', hs⟩ := hd.get?_of hp
      refine ⟨phase', hp', ?_⟩
      rw [← hskip, skipsInstance, skipsInstance, hs.isWeightLoading]
    · rintro ⟨phase', hp', hskip⟩
      obtain ⟨phase, hp, hs⟩ := hd.get? hp'
      refine ⟨phase, hp, ?_⟩
      rw [← hskip, skipsInstance, skipsInstance, hs.isWeightLoading]
  · intro i p x hx
    have hf := h.fresh i p x hx
    refine ⟨hf.phaseId, hf.inputIdx, hf.state, hf.start, hf.completion, hf.latency_nonneg, ?_⟩
    intro phase' hp' hcomm
    obtain ⟨phase, hp, hs⟩ := hd.get? hp'
    exact hf.latency_comm phase hp (hs.isCompute ▸ hcomm)

/-! ## A prepared model is initial -/

theorem getD_set_replicate_pos (n i : ℕ) (v t : ℚ) (hi : 0 < i) :
    ((List.replicate n v).set 0 t).getD i v = v := by
  rw [List.getD_eq_getElem?_getD, List.getElem?_set_ne (by omega), ← List.getD_eq_getElem?_getD,
    getD_replicate]

theorem initial_scheduled (a : Args) (strategy : WeightLoadingStrategy) (hL : 0 < a.numLayers) :
    Initial (scheduled a strategy) := by
  have hc := PhaseSchedule.config_scheduled a strategy
  have hN : (scheduled a strategy).numInputs = a.numInputs :=
    congrArg PhaseSchedule.Config.numInputs hc
  have hLs : (scheduled a strategy).numLayers = a.numLayers :=
    congrArg PhaseSchedule.Config.numLayers hc
  refine ⟨PhaseSchedule.wellFormed_scheduled a strategy hL, freshInstances_scheduled hL, ?_, ?_,
    ?_, ?_, ?_, ?_, rfl, ?_⟩
  · intro i
    have hkeys : (scheduled a strategy).phaseInstances.keys = List.range a.numInputs := by
      show ((initialInstances a.emptySchedule.buildDefaultPhaseSchedule).mapValues _).keys = _
      rw [Dict.keys_mapValues, initialInstances, Dict.keys_comprehension _ _ List.nodup_range]
      congr 1
      exact congrArg PhaseSchedule.Config.numInputs
        (PhaseSchedule.config_buildDefaultPhaseSchedule a.emptySchedule)
    rw [Dict.mem_def, hkeys, List.mem_range, hN]
  · intro hpos
    rw [hN] at hpos
    show ((List.replicate a.numInputs (-1)).set 0 a.modelStartTimeUs).getD 0 (-1) = _
    simp [List.getD_eq_getElem?_getD, hpos]
    rfl
  · exact fun i hi => getD_set_replicate_pos a.numInputs i (-1) a.modelStartTimeUs hi
  · rw [hN]
    show ((List.replicate a.numInputs (-1)).set 0 a.modelStartTimeUs).length = _
    simp
  · exact fun i => getD_replicate a.numInputs i (-1)
  · rw [hN]
    exact List.length_replicate
  · intro l
    show (Dict.comprehension (List.range a.numLayers) fun _ => false).get? l = _
    rw [Dict.get?_comprehension, hLs]
    simp [List.mem_range]

theorem Initial.setChunkResults (h : Initial m) (c : Dict ℕ (Dict ℕ (ℕ × ChunkResult))) :
    Initial { m with chunkResults := c } :=
  ⟨h.wellFormed, h.instances, h.inputs, h.inputStart_zero, h.inputStart_pos, h.inputStart_length,
    h.inputCompletion, h.inputCompletion_length, h.modelCompletion, h.weightsLoaded⟩

theorem Initial.setLayerRecords (h : Initial m) (r : LayerRecords) :
    Initial { m with layerRecords := r } :=
  ⟨h.wellFormed, h.instances, h.inputs, h.inputStart_zero, h.inputStart_pos, h.inputStart_length,
    h.inputCompletion, h.inputCompletion_length, h.modelCompletion, h.weightsLoaded⟩

theorem Initial.updateMetrics (h : Initial m)
    (htab : ∀ l c, m.layerToComputePhase.get? l = some c → l < m.numLayers) :
    Initial m.updateAllLayerComputeMetrics := by
  obtain ⟨d, hd, hmem, hinst⟩ := refreshed_updateMetrics h.wellFormed htab h.instances
  rw [hd]
  exact ⟨h.wellFormed, hinst, fun i => (h.inputs i).trans (hmem i).symm, h.inputStart_zero,
    h.inputStart_pos, h.inputStart_length, h.inputCompletion, h.inputCompletion_length,
    h.modelCompletion, h.weightsLoaded⟩

theorem Initial.calculateTraffic {m m' : MappedModel} (h : Initial m)
    (hm' : m.calculateAllTraffic source = .ok m') : Initial m' := by
  obtain ⟨d, rfl, hd⟩ := retrafficked_calculateAllTraffic hm'
  exact ⟨wellFormed_retrafficked h.wellFormed hd, freshInstances_retrafficked h.instances hd,
    h.inputs, h.inputStart_zero, h.inputStart_pos, h.inputStart_length, h.inputCompletion,
    h.inputCompletion_length, h.modelCompletion, h.weightsLoaded⟩

theorem layerToComputePhase_scheduled (hL : 0 < a.numLayers) (l p : ℕ)
    (hp : (scheduled a strategy).layerToComputePhase.get? l = some p) :
    l < (scheduled a strategy).numLayers := by
  rw [scheduled_schedule, (PhaseSchedule.configured_scheduled a strategy hL).compute] at hp
  by_contra hlt
  rw [scheduled_schedule] at hlt
  rw [if_neg hlt] at hp
  cases hp

/-- The table of chunk results after storing a list of them. -/
def storedChunks (chunks : List (ℕ × ℕ × ℕ × ChunkResult)) : Dict ℕ (Dict ℕ (ℕ × ChunkResult)) :=
  chunks.foldl (fun d c => d.set2 c.1 c.2.1 (c.2.2.1, c.2.2.2)) .empty

/-- Every stored result is one of the list. -/
theorem mem_storedChunks {l cid : ℕ} {d : Dict ℕ (ℕ × ChunkResult)}
    (hd : (storedChunks chunks).get? l = some d) (hcid : cid ∈ d) :
    ∃ c ∈ chunks, c.1 = l ∧ c.2.1 = cid := by
  have hall : ∀ l cid v, (storedChunks chunks).get2? l cid = some v →
      ∃ c ∈ chunks, c.1 = l ∧ c.2.1 = cid := by
    unfold storedChunks
    refine List.foldlRecOn (motive := fun D : Dict ℕ (Dict ℕ (ℕ × ChunkResult)) =>
      ∀ l cid v, D.get2? l cid = some v → ∃ c ∈ chunks, c.1 = l ∧ c.2.1 = cid) _ _ ?_ ?_
    · intro l cid v hv
      cases hv
    · intro D hD c hc l cid v hv
      rw [Dict.get2?_set2] at hv
      split at hv
      · next heq => exact ⟨c, hc, heq.1.symm, heq.2.symm⟩
      · exact hD l cid v hv
  obtain ⟨v, hv⟩ := Dict.mem_iff.mp hcid
  exact hall l cid v (by rw [Dict.get2?, hd]; exact hv)

theorem foldl_addChunk_eq (chunks : List (ℕ × ℕ × ℕ × ChunkResult)) (m : MappedModel) :
    chunks.foldl (fun m c => m.addChunkComputeResult c.1 c.2.1 c.2.2.1 c.2.2.2) m =
      { m with chunkResults :=
          chunks.foldl (fun d c => d.set2 c.1 c.2.1 (c.2.2.1, c.2.2.2)) m.chunkResults } := by
  induction chunks generalizing m with
  | nil => rfl
  | cons c chunks ih => rw [List.foldl_cons, ih]; rfl

/-- What a model keeps of the arguments it was constructed with. -/
structure BuiltFrom (a : Args) (chunks : Dict ℕ (Dict ℕ (ℕ × ChunkResult))) (m : MappedModel) :
    Prop where
  config : m.toPhaseSchedule.config = a.emptySchedule.config
  mapping : m.mapping = a.mapping
  usedCapacity : m.usedCapacity = a.usedCapacity
  modelStart : m.modelStartTimeUs = a.modelStartTimeUs
  chunkResults : m.chunkResults = chunks

theorem BuiltFrom.numInputs_eq {chunks : Dict ℕ (Dict ℕ (ℕ × ChunkResult))}
    (h : BuiltFrom a chunks m) : m.numInputs = a.numInputs :=
  congrArg PhaseSchedule.Config.numInputs h.config

/-- The compute metrics are stored in the phase instances. -/
theorem updateAllLayerComputeMetrics_eq (m : MappedModel) :
    ∃ d, m.updateAllLayerComputeMetrics = { m with phaseInstances := d } := by
  refine List.foldlRecOn
    (motive := fun m' : MappedModel => ∃ d, m' = { m with phaseInstances := d }) _ _ ⟨_, rfl⟩
    fun m' hm' e _ => ?_
  unfold setLayerComputeMetrics
  split
  · exact hm'
  · refine List.foldlRecOn
      (motive := fun m' : MappedModel => ∃ d, m' = { m with phaseInstances := d })
      _ _ hm' fun m'' hm'' i _ => ?_
    split
    · obtain ⟨d, rfl⟩ := hm''
      exact ⟨_, rfl⟩
    · exact hm''

theorem BuiltFrom.updateMetrics {chunks : Dict ℕ (Dict ℕ (ℕ × ChunkResult))}
    (h : BuiltFrom a chunks m) :
    BuiltFrom a chunks m.updateAllLayerComputeMetrics := by
  obtain ⟨d, hd⟩ := updateAllLayerComputeMetrics_eq m
  rw [hd]
  exact ⟨h.config, h.mapping, h.usedCapacity, h.modelStart, h.chunkResults⟩

theorem builtFrom_storedChunks (a : Args) (strategy : WeightLoadingStrategy)
    (chunks : List (ℕ × ℕ × ℕ × ChunkResult)) :
    BuiltFrom a (storedChunks chunks) (updateAllLayerComputeMetrics
      { scheduled a strategy with chunkResults := storedChunks chunks }) := by
  have hbuilt : BuiltFrom a (storedChunks chunks)
      { scheduled a strategy with chunkResults := storedChunks chunks } :=
    ⟨PhaseSchedule.config_scheduled a strategy, rfl, rfl, rfl, rfl⟩
  exact hbuilt.updateMetrics

/-- A preparation stores the compute results, then calculates the traffic and marks the layers that
send nothing. -/
theorem prepare_ok (h : prepare a strategy chunks source = .ok m) :
    ∃ m', (updateAllLayerComputeMetrics { scheduled a strategy with
        chunkResults := storedChunks chunks }).calculateAllTraffic source = .ok m' ∧
      m = m'.markLayersWithoutCommunication := by
  unfold prepare at h
  rw [foldl_addChunk_eq] at h
  obtain ⟨m', hm', hm⟩ := bind_eq_ok.mp h
  exact ⟨m', hm', (Except.ok.inj hm).symm⟩

theorem prepare_builtFrom (h : prepare a strategy chunks source = .ok m) :
    BuiltFrom a (storedChunks chunks) m := by
  obtain ⟨m', hm', rfl⟩ := prepare_ok h
  have hmetrics := builtFrom_storedChunks a strategy chunks
  obtain ⟨d, rfl, -⟩ := retrafficked_calculateAllTraffic hm'
  exact ⟨hmetrics.config, hmetrics.mapping, hmetrics.usedCapacity, hmetrics.modelStart,
    hmetrics.chunkResults⟩

/-- Nothing has been recorded but the marks of layers that send nothing. -/
def Unsynced (n : ℕ) (r : LayerRecords) : Prop :=
  ∃ latency history active traffic, r = { LayerRecords.new n with
    activationCommLatency := latency
    activationCommLatencyHistory := history
    activationCommIsActive := active
    activationCommTraffic := traffic }

theorem prepare_unsynced (h : prepare a strategy chunks source = .ok m) :
    Unsynced a.numInputs m.layerRecords := by
  obtain ⟨m', hm', rfl⟩ := prepare_ok h
  obtain ⟨d, hd⟩ := updateAllLayerComputeMetrics_eq
    { scheduled a strategy with chunkResults := storedChunks chunks }
  have hnew : m'.layerRecords = .new a.numInputs := by
    obtain ⟨_, hphases, -⟩ := retrafficked_calculateAllTraffic hm'
    rw [hphases]
    exact congrArg MappedModel.layerRecords hd
  unfold markLayersWithoutCommunication
  rw [hnew]
  refine List.foldlRecOn (motive := Unsynced a.numInputs) _ _ ⟨_, _, _, _, rfl⟩ fun r hr i _ => ?_
  refine List.foldlRecOn (motive := Unsynced a.numInputs) _ _ hr fun r hr l _ => ?_
  split
  · obtain ⟨_, _, _, _, rfl⟩ := hr
    exact ⟨_, _, _, _, rfl⟩
  · exact hr

/-- **Preparation.** A prepared model has not started and has a well-formed schedule. -/
theorem prepare_initial (hL : 0 < a.numLayers) (h : prepare a strategy chunks source = .ok m) :
    Initial m := by
  obtain ⟨m', hm', rfl⟩ := prepare_ok h
  have hinit : Initial { scheduled a strategy with chunkResults := storedChunks chunks } :=
    (initial_scheduled a strategy hL).setChunkResults _
  exact ((hinit.updateMetrics (layerToComputePhase_scheduled hL)).calculateTraffic
    hm').setLayerRecords _

/-! ## A small model -/

/-- Two linear layers on chiplets `1` and `2`, two pipelined inputs, stationary weights. -/
def twoLayers : Args where
  modelName := "two-layers"
  mapping := [(0, [(1, 100)]), (1, [(2, 100)])]
  modelStartTimeUs := 0
  modelDef := ⟨.ofList
    [(0, { description := .linear, parameters := {}, receivingLayers := [1] }),
      (1, { description := .linear, parameters := {}, receivingLayers := [-1] })]⟩
  modelMetrics := []
  numInputs := 2
  usedCapacity := [1, 1, 0]
  modelIdx := 0
  communicationMethod := .pipelined
  weightStationary := true

/-- The compute results of the two layers. -/
def twoLayersChunks : List (ℕ × ℕ × ℕ × ChunkResult) :=
  [(0, 1, 0, ⟨some 2, some 5⟩), (1, 2, 0, ⟨some 3, some 7⟩)]

/-- Ten packets from the first layer to the second, weights from the I/O chiplet `3`. -/
def twoLayersTraffic : TrafficSource where
  activation _ _ _ l := .ok (if l = 0 then .ofList [(1, .ofList [(2, 10)])] else .empty)
  weightLoading _ _ _ := .ok (.ofList [(3, .ofList [(1, 4), (2, 4)])])

theorem prepare_twoLayers (strategy : WeightLoadingStrategy) :
    ∃ m, prepare twoLayers strategy twoLayersChunks twoLayersTraffic = .ok m := by
  cases strategy <;> exact ⟨_, rfl⟩

end MappedModel

end ChipSim
