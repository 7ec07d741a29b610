import ChipSim.Lib.DictLoops
import ChipSim.MappedModel.Initial
import ChipSim.TrafficCalculator

/-!
# The weight traffic of the two strategies

Weights are loaded in one phase for all layers or in one phase for every layer. The traffic of a
combined phase is the sum of the traffic of its layers, so both strategies move the same packets.
-/

namespace ChipSim

open Lib

/-! ## Amounts -/

namespace TrafficMatrixDict

theorem amount_eq (t : TrafficMatrixDict) (src dst : ℕ) :
    t.amount src dst = (t.get2? src dst).getD 0 := rfl

@[simp] theorem amount_empty (src dst : ℕ) : amount .empty src dst = 0 := rfl

end TrafficMatrixDict

namespace TrafficCalculator

open TrafficMatrixDict

theorem amount_ensureSource (t : TrafficMatrixDict) (s src dst : ℕ) :
    (ensureSource t s).amount src dst = t.amount src dst := by
  unfold ensureSource
  split
  · rfl
  · next h =>
    unfold amount
    rw [Dict.get?_set]
    split
    · next heq => rw [heq, Dict.get?_eq_none_iff.mpr h]; rfl
    · rfl

theorem amount_addPackets (t : TrafficMatrixDict) (s d n src dst : ℕ) :
    (addPackets t s d n).amount src dst =
      t.amount src dst + if src = s ∧ dst = d then n else 0 := by
  unfold addPackets
  rw [amount_eq, Dict.get2?_set2, amount_eq]
  split
  · next h => rw [h.1, h.2, Option.getD_some]
  · rw [add_zero]

theorem lookup_eq_none {β : Type} {k : ℕ} {es : List (ℕ × β)} (h : k ∉ es.map Prod.fst) :
    es.lookup k = none := by
  rw [List.lookup_eq_none_iff]
  exact fun p hp => bne_iff_ne.mpr fun heq => h (heq ▸ List.mem_map_of_mem hp)

theorem amount_foldl_addPackets (s : ℕ) (dests : List (ℕ × ℕ)) (t : TrafficMatrixDict)
    (h : (dests.map Prod.fst).Nodup) (src dst : ℕ) :
    (dests.foldl (fun t f => addPackets t s f.1 f.2) t).amount src dst =
      t.amount src dst + if src = s then (dests.lookup dst).getD 0 else 0 := by
  induction dests generalizing t with
  | nil => simp
  | cons f dests ih =>
    rw [List.map_cons, List.nodup_cons] at h
    rw [List.foldl_cons, ih _ h.2, amount_addPackets, Dict.lookup_cons_ite, add_assoc]
    congr 1
    by_cases hs : src = s
    · by_cases hd : dst = f.1
      · rw [if_pos hs, if_pos hs, if_pos hd, if_pos ⟨hs, hd⟩, hd, lookup_eq_none h.1]
        rfl
      · rw [if_pos hs, if_pos hs, if_neg hd, if_neg fun h => hd h.2, zero_add]
    · rw [if_neg hs, if_neg hs, if_neg fun h => hs h.1]

theorem amount_foldl_merge (es : List (ℕ × Dict ℕ ℕ)) (t : TrafficMatrixDict)
    (h : (es.map Prod.fst).Nodup) (src dst : ℕ) :
    (es.foldl (fun t e => e.2.entries.foldl (fun t f => addPackets t e.1 f.1 f.2)
      (ensureSource t e.1)) t).amount src dst =
      t.amount src dst + ((es.lookup src).bind (·.get? dst)).getD 0 := by
  induction es generalizing t with
  | nil => simp
  | cons e es ih =>
    rw [List.map_cons, List.nodup_cons] at h
    rw [List.foldl_cons, ih _ h.2, amount_foldl_addPackets _ _ _ e.2.nodup, amount_ensureSource,
      Dict.lookup_cons_ite, add_assoc]
    congr 1
    by_cases hs : src = e.1
    · rw [if_pos hs, if_pos hs, hs, lookup_eq_none h.1]
      rfl
    · rw [if_neg hs, if_neg hs, zero_add]

/-- **Merging** adds the amounts. -/
theorem amount_mergeTraffic (t layer : TrafficMatrixDict) (src dst : ℕ) :
    (mergeTraffic t layer).amount src dst = t.amount src dst + layer.amount src dst :=
  amount_foldl_merge layer.entries t layer.nodup src dst

/-! ## Layers -/

section

variable {tc : TrafficCalculator} {s : System} {metrics : List LayerMetrics}
  {mapping : LayerMappings}

/-- The packets for the weights of one layer; none when the layer cannot be loaded. -/
def layerAmount (tc : TrafficCalculator) (s : System) (metrics : List LayerMetrics)
    (mapping : LayerMappings) (src dst layerIdx : ℕ) : ℕ :=
  ((tc.calculateSingleLayerWeightTraffic s metrics mapping layerIdx).toOption.getD
    .empty).amount src dst

theorem layerAmount_eq {layerIdx : ℕ} {t : TrafficMatrixDict}
    (h : tc.calculateSingleLayerWeightTraffic s metrics mapping layerIdx = .ok t) (src dst : ℕ) :
    layerAmount tc s metrics mapping src dst layerIdx = t.amount src dst := by
  unfold layerAmount
  rw [h]
  rfl

/-- Loading layer by layer, which is what the cases for no layer and for a single one come to. -/
def loadLayers (tc : TrafficCalculator) (s : System) (metrics : List LayerMetrics)
    (mapping : LayerMappings) (t : TrafficMatrixDict) (layerIdx : ℕ) :
    Except PyError TrafficMatrixDict := do
  let layer ← tc.calculateSingleLayerWeightTraffic s metrics mapping layerIdx
  return mergeTraffic t layer

theorem amount_foldlM_loadLayers {layers : List ℕ} {t t' : TrafficMatrixDict}
    (h : layers.foldlM (loadLayers tc s metrics mapping) t = .ok t') (src dst : ℕ) :
    t'.amount src dst =
      t.amount src dst + (layers.map (layerAmount tc s metrics mapping src dst)).sum := by
  induction layers generalizing t with
  | nil =>
    cases h
    simp
  | cons l layers ih =>
    obtain ⟨t₁, hstep, hrest⟩ := foldlM_cons_ok.mp h
    obtain ⟨layer, hlayer, hmerge⟩ := bind_eq_ok.mp hstep
    cases hmerge
    rw [ih hrest, amount_mergeTraffic, List.map_cons, List.sum_cons, layerAmount_eq hlayer,
      add_assoc]

/-- **Combined phases.** The traffic of a phase is the sum over its layers. -/
theorem amount_weightLoading {layers : List ℕ} {t : TrafficMatrixDict}
    (h : tc.calculateWeightLoadingTraffic s metrics mapping layers = .ok t) (src dst : ℕ) :
    t.amount src dst = (layers.map (layerAmount tc s metrics mapping src dst)).sum := by
  unfold calculateWeightLoadingTraffic at h
  split at h
  · cases h
    rfl
  · rw [List.map_singleton, List.sum_singleton, layerAmount_eq h]
  · rw [amount_foldlM_loadLayers h, amount_empty, zero_add]

theorem weightLoading_ok {layers : List ℕ} :
    (∃ t, tc.calculateWeightLoadingTraffic s metrics mapping layers = .ok t) ↔
      ∀ l ∈ layers, ∃ t, tc.calculateSingleLayerWeightTraffic s metrics mapping l = .ok t := by
  unfold calculateWeightLoadingTraffic
  split
  · simp
  · simp
  · refine foldlM_ok_iff fun l _ t => ?_
    constructor
    · rintro ⟨t', ht'⟩
      obtain ⟨layer, hlayer, -⟩ := bind_eq_ok.mp ht'
      exact ⟨layer, hlayer⟩
    · rintro ⟨layer, hlayer⟩
      rw [hlayer]
      exact ⟨_, rfl⟩

end

end TrafficCalculator

/-! ## Models -/

namespace PhaseSchedule

variable {s : PhaseSchedule} {strategy : WeightLoadingStrategy}

/-- The `j`-th weight loading phase of a new model. -/
def newWeightPhase (strategy : WeightLoadingStrategy) (modelIdx L j : ℕ) : Phase where
  phaseId := 2 * L - 1 + j
  modelIdx := modelIdx
  dependencies := weightDependencies j
  kind := .weightLoading (weightLayers strategy L j) none

/-- A sum over the weight loading phases of a configured schedule. -/
theorem Configured.sumOf_weight (h : Configured strategy s) {f : Phase → ℕ}
    (hf : ∀ phase, phase.isWeightLoading = false → f phase = 0) :
    Dict.sumOf f s.phases = ((List.range (weightPhaseCount strategy s.numLayers)).map fun j =>
      f (newWeightPhase strategy s.modelIdx s.numLayers j)).sum := by
  have hperm : s.phases.keys.Perm
      (List.range (2 * s.numLayers - 1 + weightPhaseCount strategy s.numLayers)) := by
    rw [List.perm_ext_iff_of_nodup s.phases.nodup_keys List.nodup_range]
    intro p
    rw [← Dict.mem_def, h.mem_phases, List.mem_range]
  rw [Dict.sumOf_keys, (hperm.map _).sum_eq, List.range_add, List.map_append, List.sum_append,
    List.map_map]
  have hzero : ((List.range (2 * s.numLayers - 1)).map fun p =>
      ((s.phases.get? p).map f).getD 0).sum = 0 := by
    refine List.sum_eq_zero fun v hv => ?_
    obtain ⟨p, hp, rfl⟩ := List.mem_map.mp hv
    cases hget : s.phases.get? p with
    | none => rfl
    | some phase =>
      refine hf phase ?_
      rw [h.isWeightLoading hget, decide_eq_false (not_le.mpr (List.mem_range.mp hp))]
  rw [hzero, zero_add]
  congr 1
  refine List.map_congr_left fun j hj => ?_
  rw [Function.comp_apply, h.get?_weight (List.mem_range.mp hj)]
  rfl

/-- The same sum for a model without layers, which has no other phases. -/
theorem sumOf_weight_of_no_layers (a : MappedModel.Args) (h : a.numLayers = 0) (f : Phase → ℕ) :
    Dict.sumOf f (WeightScheduler.configureDependencies strategy (weighted a strategy)).phases =
      ((List.range (weightPhaseCount strategy 0)).map fun j =>
        f (newWeightPhase strategy a.modelIdx 0 j)).sum := by
  unfold weighted
  have hbuild : a.emptySchedule.buildDefaultPhaseSchedule = a.emptySchedule := by
    unfold buildDefaultPhaseSchedule MappedModel.Args.emptySchedule
    rw [h]
    rfl
  rw [hbuild, h]
  cases strategy with
  | allAtOnce => rfl
  | justInTime =>
    unfold MappedModel.Args.emptySchedule
    rw [h]
    rfl

end PhaseSchedule

namespace MappedModel

open PhaseSchedule TrafficCalculator

variable {a : Args} {strategy : WeightLoadingStrategy} {chunks : List (ℕ × ℕ × ℕ × ChunkResult)}

/-- A sum over the weight loading phases of a new model. -/
theorem sumOf_scheduled (a : Args) (strategy : WeightLoadingStrategy) {f : Phase → ℕ}
    (hf : ∀ phase, phase.isWeightLoading = false → f phase = 0) :
    Dict.sumOf f (scheduled a strategy).phases =
      ((List.range (weightPhaseCount strategy a.numLayers)).map fun j =>
        f (newWeightPhase strategy a.modelIdx a.numLayers j)).sum := by
  rcases Nat.eq_zero_or_pos a.numLayers with hL | hL
  · rw [hL]
    exact sumOf_weight_of_no_layers a hL f
  · have hconfig := config_scheduled a strategy
    have hnum := congrArg Config.numLayers hconfig
    have hidx := congrArg Config.modelIdx hconfig
    have hsum := (configured_scheduled a strategy hL).sumOf_weight hf
    rw [show (WeightScheduler.configureDependencies strategy (weighted a strategy)).numLayers =
        a.numLayers from hnum,
      show (WeightScheduler.configureDependencies strategy (weighted a strategy)).modelIdx =
        a.modelIdx from hidx] at hsum
    exact hsum

/-- The traffic of a phase of a model that is constructed from `a`. -/
def phaseTraffic (a : Args) (source : TrafficSource) (phase : Phase) : Except PyError Phase :=
  (scheduled a .allAtOnce).calculatePhaseTraffic source phase

/-- The phases of a prepared model are those of the new one with their traffic. -/
theorem prepare_eq (a : Args) (strategy : WeightLoadingStrategy)
    (chunks : List (ℕ × ℕ × ℕ × ChunkResult)) (source : TrafficSource) :
    ∃ finish : Dict ℕ Phase → MappedModel, (∀ d, (finish d).phases = d) ∧
      prepare a strategy chunks source = do
        let d ← (scheduled a strategy).phases.entries.foldlM (fun d e => do
          return d.set e.1 (← phaseTraffic a source e.2)) (scheduled a strategy).phases
        return finish d := by
  obtain ⟨inst, hinst⟩ := updateAllLayerComputeMetrics_eq
    { scheduled a strategy with chunkResults := storedChunks chunks }
  refine ⟨fun d => markLayersWithoutCommunication
    { scheduled a strategy with
      chunkResults := storedChunks chunks
      phaseInstances := inst
      phases := d }, fun d => rfl, ?_⟩
  unfold prepare
  rw [foldl_addChunk_eq]
  change (do
    let m ← (updateAllLayerComputeMetrics
      { scheduled a strategy with chunkResults := storedChunks chunks }).calculateAllTraffic source
    return m.markLayersWithoutCommunication : Except PyError MappedModel) = _
  rw [hinst, calculateAllTraffic_eq]
  have hsame : ∀ phase, calculatePhaseTraffic
      { scheduled a strategy with
        chunkResults := storedChunks chunks
        phaseInstances := inst } source phase = phaseTraffic a source phase := fun _ => rfl
  simp only [hsame]
  cases (scheduled a strategy).phases.entries.foldlM (fun d e => do
    return d.set e.1 (← phaseTraffic a source e.2)) (scheduled a strategy).phases <;> rfl

theorem prepare_related {source : TrafficSource} {m : MappedModel}
    (h : prepare a strategy chunks source = .ok m) :
    Dict.Related (fun _ phase phase' => phaseTraffic a source phase = .ok phase')
      (scheduled a strategy).phases m.phases := by
  obtain ⟨finish, hphases, hprepare⟩ := prepare_eq a strategy chunks source
  rw [hprepare] at h
  obtain ⟨d, hd, hm⟩ := bind_eq_ok.mp h
  rw [← Except.ok.inj hm, hphases]
  refine Dict.Related.of_loop id rfl (fun e _ d d' hstep => ?_) hd
  obtain ⟨phase', hphase', hset⟩ := bind_eq_ok.mp hstep
  exact ⟨phase', hphase', (Except.ok.inj hset).symm⟩

theorem prepare_ok_iff {source : TrafficSource} :
    (∃ m, prepare a strategy chunks source = .ok m) ↔
      ∀ e ∈ (scheduled a strategy).phases.entries,
        ∃ phase', phaseTraffic a source e.2 = .ok phase' := by
  obtain ⟨finish, -, hprepare⟩ := prepare_eq a strategy chunks source
  have hloop : (∃ d, (scheduled a strategy).phases.entries.foldlM (fun d e => do
      return d.set e.1 (← phaseTraffic a source e.2)) (scheduled a strategy).phases = .ok d) ↔
      ∀ e ∈ (scheduled a strategy).phases.entries,
        ∃ phase', phaseTraffic a source e.2 = .ok phase' := by
    refine foldlM_ok_iff fun e _ d => ?_
    constructor
    · rintro ⟨d', hd'⟩
      obtain ⟨phase', hphase', -⟩ := bind_eq_ok.mp hd'
      exact ⟨phase', hphase'⟩
    · rintro ⟨phase', hphase'⟩
      rw [hphase']
      exact ⟨_, rfl⟩
  rw [← hloop, hprepare]
  constructor
  · rintro ⟨m, hm⟩
    obtain ⟨d, hd, -⟩ := bind_eq_ok.mp hm
    exact ⟨d, hd⟩
  · rintro ⟨d, hd⟩
    rw [hd]
    exact ⟨_, rfl⟩

/-- What holds of the layers of all weight loading phases of a new model. -/
theorem forall_scheduled (a : Args) (strategy : WeightLoadingStrategy) (Q : List ℕ → Prop) :
    (∀ e ∈ (scheduled a strategy).phases.entries, e.2.isWeightLoading = true → Q e.2.layersToLoad) ↔
      ∀ j < weightPhaseCount strategy a.numLayers, Q (weightLayers strategy a.numLayers j) := by
  classical
  -- both say that no phase is counted that violates `Q`
  have hsum := sumOf_scheduled a strategy
    (f := fun phase => if phase.isWeightLoading = true ∧ ¬ Q phase.layersToLoad then 1 else 0)
    fun phase hphase => if_neg fun h => by simp [hphase] at h
  have hleft : (∀ e ∈ (scheduled a strategy).phases.entries,
      e.2.isWeightLoading = true → Q e.2.layersToLoad) ↔
      Dict.sumOf (fun phase =>
        if phase.isWeightLoading = true ∧ ¬ Q phase.layersToLoad then 1 else 0)
        (scheduled a strategy).phases = 0 := by
    unfold Dict.sumOf Dict.values
    rw [List.sum_eq_zero_iff, List.map_map, List.forall_mem_map]
    refine forall₂_congr fun e _ => ?_
    simp
  have hright : (∀ j < weightPhaseCount strategy a.numLayers,
      Q (weightLayers strategy a.numLayers j)) ↔
      ((List.range (weightPhaseCount strategy a.numLayers)).map fun j =>
        if (newWeightPhase strategy a.modelIdx a.numLayers j).isWeightLoading = true ∧
          ¬ Q (newWeightPhase strategy a.modelIdx a.numLayers j).layersToLoad then 1 else 0).sum =
        0 := by
    rw [List.sum_eq_zero_iff]
    simp [newWeightPhase, Phase.isWeightLoading, Phase.layersToLoad]
  rw [hleft, hright, hsum]

/-- The number of weight loading phases of a model. -/
def weightLoadingPhases (m : MappedModel) : ℕ :=
  Dict.sumOf (fun phase => if phase.isWeightLoading then 1 else 0) m.phases

/-- The packets that all weight loading phases of a model move. -/
def weightLoadingTraffic (m : MappedModel) (src dst : ℕ) : ℕ :=
  Dict.sumOf (fun phase => if phase.isWeightLoading then
    (phase.traffic.getD .empty).amount src dst else 0) m.phases

/-- **Preparation** succeeds when the weights of every layer can be loaded, whatever the
strategy. -/
theorem prepare_ok_iff_layers {tc : TrafficCalculator} {s : System} :
    (∃ m, prepare a strategy chunks (tc.source s) = .ok m) ↔
      ∀ l < a.numLayers, ∃ t,
        tc.calculateSingleLayerWeightTraffic s a.modelMetrics a.mapping l = .ok t := by
  have hphase : ∀ phase, (∃ phase', phaseTraffic a (tc.source s) phase = .ok phase') ↔
      (phase.isWeightLoading = true → ∀ l ∈ phase.layersToLoad, ∃ t,
        tc.calculateSingleLayerWeightTraffic s a.modelMetrics a.mapping l = .ok t) := by
    intro phase
    unfold phaseTraffic calculatePhaseTraffic Phase.isWeightLoading Phase.layersToLoad
    cases phase.kind with
    | compute l => simp
    | activationComm l t => exact ⟨fun _ h => by simp at h, fun _ => ⟨_, rfl⟩⟩
    | weightLoading ls t =>
      have hload : (∃ t, (tc.source s).weightLoading a.modelMetrics a.mapping ls = .ok t) ↔
          ∀ l ∈ ls,
            ∃ t, tc.calculateSingleLayerWeightTraffic s a.modelMetrics a.mapping l = .ok t :=
        weightLoading_ok
      simp only [true_implies]
      rw [← hload]
      constructor
      · rintro ⟨phase', hphase'⟩
        obtain ⟨t, ht, -⟩ := bind_eq_ok.mp hphase'
        exact ⟨t, ht⟩
      · rintro ⟨t, ht⟩
        exact ⟨phase.setTraffic t, bind_eq_ok.mpr ⟨t, ht, rfl⟩⟩
  rw [prepare_ok_iff]
  simp only [hphase]
  rw [forall_scheduled a strategy fun ls => ∀ l ∈ ls, ∃ t,
    tc.calculateSingleLayerWeightTraffic s a.modelMetrics a.mapping l = .ok t]
  cases strategy with
  | allAtOnce => simp [weightPhaseCount, weightLayers]
  | justInTime => simp [weightPhaseCount, weightLayers]

/-- **Traffic** of all weight loading phases: the sum over all layers, whatever the strategy. -/
theorem weightLoadingTraffic_prepare {tc : TrafficCalculator} {s : System} {m : MappedModel}
    (h : prepare a strategy chunks (tc.source s) = .ok m) (src dst : ℕ) :
    m.weightLoadingTraffic src dst =
      ((List.range a.numLayers).map (layerAmount tc s a.modelMetrics a.mapping src dst)).sum := by
  let f : Phase → ℕ := fun phase => if phase.isWeightLoading then
    (phase.layersToLoad.map (layerAmount tc s a.modelMetrics a.mapping src dst)).sum else 0
  have hsum : m.weightLoadingTraffic src dst = Dict.sumOf f (scheduled a strategy).phases := by
    refine (prepare_related h).sumOf_eq fun _ phase phase' _ hphase' => ?_
    unfold phaseTraffic calculatePhaseTraffic at hphase'
    split at hphase'
    · next hkind =>
      cases hphase'
      simp [f, Phase.isWeightLoading, hkind]
    · next hkind =>
      obtain ⟨t, ht, hset⟩ := bind_eq_ok.mp hphase'
      cases hset
      simp [f, Phase.isWeightLoading, Phase.setTraffic, hkind]
    · next ls _ hkind =>
      obtain ⟨t, ht, hset⟩ := bind_eq_ok.mp hphase'
      cases hset
      have hamount : t.amount src dst =
          (ls.map (layerAmount tc s a.modelMetrics a.mapping src dst)).sum :=
        amount_weightLoading ht src dst
      simpa [f, Phase.isWeightLoading, Phase.layersToLoad, Phase.setTraffic, Phase.traffic, hkind]
        using hamount
  rw [hsum, sumOf_scheduled a strategy fun phase hphase => by simp [f, hphase]]
  cases strategy with
  | allAtOnce =>
    simp [f, weightPhaseCount, newWeightPhase, weightLayers, Phase.isWeightLoading,
      Phase.layersToLoad]
  | justInTime =>
    simp [f, weightPhaseCount, newWeightPhase, weightLayers, Phase.isWeightLoading,
      Phase.layersToLoad]

theorem weightLoadingPhases_prepare {source : TrafficSource} {m : MappedModel}
    (h : prepare a strategy chunks source = .ok m) :
    m.weightLoadingPhases = weightPhaseCount strategy a.numLayers := by
  have hsum : m.weightLoadingPhases = Dict.sumOf
      (fun phase => if phase.isWeightLoading then 1 else 0) (scheduled a strategy).phases := by
    refine (prepare_related h).sumOf_eq fun _ phase phase' _ hphase' => ?_
    unfold phaseTraffic calculatePhaseTraffic at hphase'
    split at hphase'
    · cases hphase'
      rfl
    · obtain ⟨t, -, hset⟩ := bind_eq_ok.mp hphase'
      cases hset
      rw [setTraffic_isWeightLoading]
    · obtain ⟨t, -, hset⟩ := bind_eq_ok.mp hphase'
      cases hset
      rw [setTraffic_isWeightLoading]
  rw [hsum, sumOf_scheduled a strategy fun phase hphase => by simp [hphase]]
  simp [newWeightPhase, Phase.isWeightLoading]

/-- **Strategies.** A model can be prepared with both strategies or with none. With `all_at_once` it
has a single weight loading phase, with `just_in_time` one for every layer, and at every source and
destination the single phase moves as many packets as the others together. -/
theorem weight_traffic_of_strategies (a : Args) (chunks : List (ℕ × ℕ × ℕ × ChunkResult))
    (tc : TrafficCalculator) (s : System) :
    ((∃ m, prepare a .allAtOnce chunks (tc.source s) = .ok m) ↔
      ∃ m, prepare a .justInTime chunks (tc.source s) = .ok m) ∧
    ∀ m m', prepare a .allAtOnce chunks (tc.source s) = .ok m →
      prepare a .justInTime chunks (tc.source s) = .ok m' →
      m.weightLoadingPhases = 1 ∧ m'.weightLoadingPhases = a.numLayers ∧
        ∀ src dst, m.weightLoadingTraffic src dst = m'.weightLoadingTraffic src dst := by
  refine ⟨by rw [prepare_ok_iff_layers, prepare_ok_iff_layers], fun m m' h h' => ?_⟩
  refine ⟨weightLoadingPhases_prepare h, weightLoadingPhases_prepare h', fun src dst => ?_⟩
  rw [weightLoadingTraffic_prepare h, weightLoadingTraffic_prepare h']

/-- Two compute chiplets and an I/O chiplet in a row. -/
def ioSystem : System where
  chiplets := [.cmos, .cmos, .io].map fun type => Chiplet.new
    { type := type
      energyPerMac := 1
      crossbarRows := 1
      crossbarColumns := 1
      bitsPerCell := 8
      bitsPerWeight := 8
      tilesPerChiplet := 0
      crossbarsPerTile := 0
      totalMemoryWeights := 1000
      imc_pos := fun _ => by decide }
  adjMatrix i j := if i + 1 = j then 1 else 0

/-- The two layers with `160` and `320` weights, the second one on both compute chiplets. -/
def twoWeightLayers : Args :=
  { twoLayers with
    mapping := [(0, [(1, 100)]), (1, [(1, 50), (2, 50)])]
    modelMetrics := [("layer_0", 16, 10), ("layer_1", 10, 32)].map fun (name, inputs, outputs) =>
      { name := name
        shape := .fc inputs outputs
        inputActivation := inputs
        totalMacs := inputs * outputs
        numWeights := inputs * outputs
        crossbarsRequired := inputs * outputs
        outputActivation := outputs } }

/-- The first chiplet gets `10` packets for each of its layers. -/
theorem weight_traffic_of_strategies_two :
    ∃ m m', prepare twoWeightLayers .allAtOnce twoLayersChunks (({} : TrafficCalculator).source
        ioSystem) = .ok m ∧
      prepare twoWeightLayers .justInTime twoLayersChunks (({} : TrafficCalculator).source
        ioSystem) = .ok m' ∧
      m.weightLoadingTraffic 3 1 = 20 ∧ m'.weightLoadingTraffic 3 1 = 20 := by
  have hlayers : ∀ l < twoWeightLayers.numLayers, ∃ t,
      ({} : TrafficCalculator).calculateSingleLayerWeightTraffic ioSystem
        twoWeightLayers.modelMetrics twoWeightLayers.mapping l = .ok t := by
    have hrun : ∀ l < twoWeightLayers.numLayers,
        (({} : TrafficCalculator).calculateSingleLayerWeightTraffic ioSystem
          twoWeightLayers.modelMetrics twoWeightLayers.mapping l).toOption.isSome = true := by
      decide +kernel
    intro l hl
    obtain ⟨t, ht⟩ := Option.isSome_iff_exists.mp (hrun l hl)
    exact ⟨t, toOption_eq_some.mp ht⟩
  obtain ⟨m, hm⟩ := prepare_ok_iff_layers.mpr hlayers
  obtain ⟨hsame, htraffic⟩ :=
    weight_traffic_of_strategies twoWeightLayers twoLayersChunks {} ioSystem
  obtain ⟨m', hm'⟩ := hsame.mp ⟨m, hm⟩
  have hvalue : m.weightLoadingTraffic 3 1 = 20 := by
    rw [weightLoadingTraffic_prepare hm]
    decide +kernel
  refine ⟨m, m', hm, hm', hvalue, ?_⟩
  rw [← (htraffic m m' hm hm').2.2, hvalue]

end MappedModel

end ChipSim
