import ChipSim.MappedModel.Phases

/-!
# Phase timing and per-layer records of a mapped model

`calculate_phase_timing` lets inputs start, fills in the times of phases whose dependencies are
met and records the completion of inputs and of the model. The remaining methods build a mapped
model and move data between its phases and its per-layer records.
-/

namespace ChipSim

open Lib

/-- The times `calculate_phase_timing` fills in for an incomplete phase, and whether any changed. -/
def PhaseInstance.fillTimes (x : PhaseInstance) (start : ℚ) : PhaseInstance × Bool :=
  let y := if x.startTimeUs < 0 then { x with startTimeUs := start } else x
  if 0 < y.latencyUs ∧ y.completionTimeUs < 0 then
    ({ y with completionTimeUs := y.startTimeUs + y.latencyUs }, true)
  else (y, x.startTimeUs < 0)

namespace MappedModel

/-! ## `calculate_phase_timing` -/

/-- When a layer of an input has completed: its computation and, if it has one, its activation
communication. -/
def layerCompletion (m : MappedModel) (i layerIdx : ℕ) : Option ℚ := do
  let c ← m.layerToComputePhase.get? layerIdx
  let x ← m.instance? i c
  match m.layerToActivationCommPhase.get? layerIdx with
  | some a => do
    let y ← m.instance? i a
    if x.state = .complete ∧ y.state = .complete then
      some (max x.completionTimeUs y.completionTimeUs)
    else none
  | none => if x.state = .complete then some x.completionTimeUs else none

/-- The completion time of the first layer of an input that has completed. -/
def firstLayerCompletion (m : MappedModel) (i : ℕ) : Option ℚ :=
  (m.layerToComputePhase.keys.insertionSort (· ≤ ·)).findSome? (m.layerCompletion i)

/-- The instances of an input, in execution order. -/
def existingInstances (m : MappedModel) (i : ℕ) : List PhaseInstance :=
  m.phaseExecutionOrder.filterMap (m.instance? i)

/-- All phases that exist for an input are complete. -/
def allPhasesComplete (m : MappedModel) (i : ℕ) : Bool :=
  (m.existingInstances i).all (·.state = .complete)

/-- When an input that has not started may start. -/
def nextInputStart (m : MappedModel) (i : ℕ) : Option ℚ :=
  match m.communicationMethod with
  | .pipelined => m.firstLayerCompletion (i - 1)
  | .nonPipelined =>
    if m.allPhasesComplete (i - 1) ∧ m.inputCompletion (i - 1) ≠ -1 then
      some (m.inputCompletion (i - 1))
    else none

/-- The start time handling of `calculate_phase_timing` for one input. -/
def startInput (acc : MappedModel × Bool) (i : ℕ) : MappedModel × Bool :=
  let m := acc.1
  if 0 < i ∧ m.inputStart i = -1 then
    match m.nextInputStart i with
    | some t => ({ m with inputStartTimeUs := m.inputStartTimeUs.set i t }, true)
    | none => acc
  else acc

/-- The times of one phase of an input. -/
def timePhase (i : ℕ) (acc : MappedModel × Bool) (p : ℕ) : Except PyError (MappedModel × Bool) :=
  let m := acc.1
  if m.completeOrAbsent i p then .ok acc
  else do
    if ← m.dependenciesMet i p then
      let phase ← getItem m.phases p
      let x ← m.getInstance i p
      let y := x.fillTimes (m.calculatePhaseStartTime i p phase)
      return (m.setInstance i p y.1, acc.2 || y.2)
    else return acc

/-- The completion time of an input all of whose phases are complete. -/
def completeInput (acc : MappedModel × Bool) (i : ℕ) : Except PyError (MappedModel × Bool) :=
  let m := acc.1
  if m.allPhasesComplete i ∧ m.inputCompletion i = -1 then do
    let last ← maxOf ((m.existingInstances i).map (·.completionTimeUs))
    return ({ m with inputCompletionTimeUs := m.inputCompletionTimeUs.set i last }, true)
  else .ok acc

/-- The loop body of `calculate_phase_timing`. -/
def timeInput (acc : MappedModel × Bool) (i : ℕ) : Except PyError (MappedModel × Bool) :=
  let acc := startInput acc i
  if acc.1.inputStart i = -1 then .ok acc
  else do
    let acc ← acc.1.phaseExecutionOrder.foldlM (timePhase i) acc
    completeInput acc i

/-- The completion time of a model all of whose inputs are complete. -/
def completeModel (acc : MappedModel × Bool) : Except PyError (MappedModel × Bool) :=
  let m := acc.1
  if m.inputCompletionTimeUs.all (· ≠ -1) then do
    let last ← maxOf m.inputCompletionTimeUs
    if m.modelCompletionTimeUs ≠ last then
      return ({ m with modelCompletionTimeUs := last }, true)
    else return acc
  else .ok acc

/-- `calculate_phase_timing`; it does not read the global time it is given. -/
def calculatePhaseTiming (m : MappedModel) (_g : ℚ) : Except PyError (MappedModel × Bool) := do
  let acc ← (List.range m.numInputs).foldlM timeInput (m, false)
  completeModel acc

/-- `is_complete(global_time_us)`, for the whole model. -/
def isComplete (m : MappedModel) (g : ℚ) : Bool :=
  if m.modelCompletionTimeUs = -1 then false else decide (m.modelCompletionTimeUs ≤ g)

/-! ## Construction -/

/-- The arguments of the constructor. -/
structure Args where
  modelName : String
  mapping : LayerMappings
  modelStartTimeUs : ℚ
  modelDef : ModelDef
  modelMetrics : List LayerMetrics
  numInputs : ℕ
  usedCapacity : List ℤ
  modelIdx : ℕ
  communicationMethod : CommunicationMethod
  weightStationary : Bool

/-- The number of layers of the model to be mapped. -/
def Args.numLayers (a : Args) : ℕ := a.modelDef.layers.keys.length

/-- The schedule before any phase is added. -/
def Args.emptySchedule (a : Args) : PhaseSchedule where
  modelIdx := a.modelIdx
  numLayers := a.numLayers
  numInputs := a.numInputs
  communicationMethod := a.communicationMethod
  weightStationary := a.weightStationary

/-- `_initialize_phase_instances`: an instance of every phase for every input. -/
def initialInstances (s : PhaseSchedule) : Dict ℕ (Dict ℕ PhaseInstance) :=
  .comprehension (List.range s.numInputs) fun i =>
    .comprehension s.phases.keys fun p => { phaseId := p, inputIdx := i }

/-- The constructor of `MappedModel`. -/
def new (a : Args) : MappedModel where
  toPhaseSchedule := a.emptySchedule.buildDefaultPhaseSchedule
  modelName := a.modelName
  mapping := a.mapping
  modelDef := a.modelDef
  modelMetrics := a.modelMetrics
  modelStartTimeUs := a.modelStartTimeUs
  inputStartTimeUs := (List.replicate a.numInputs (-1)).set 0 a.modelStartTimeUs
  inputCompletionTimeUs := List.replicate a.numInputs (-1)
  modelCompletionTimeUs := -1
  usedCapacity := a.usedCapacity
  phaseInstances := initialInstances a.emptySchedule.buildDefaultPhaseSchedule
  weightsLoaded := .comprehension (List.range a.numLayers) fun _ => false
  layerRecords := .new a.numInputs

/-- A weight phase has no instance for later inputs in stationary mode. -/
def skipsInstance (s : PhaseSchedule) (i : ℕ) (phase : Phase) : Bool :=
  phase.isWeightLoading && s.weightStationary && decide (0 < i)

/-- The instances of one input, completed by those of phases that have none yet. -/
def addMissingInstances (s : PhaseSchedule) (i : ℕ) (d : Dict ℕ PhaseInstance) :
    Dict ℕ PhaseInstance :=
  s.phases.entries.foldl (fun d e =>
    if e.1 ∈ d ∨ skipsInstance s i e.2 then d
    else d.set e.1 { phaseId := e.1, inputIdx := i }) d

/-- `add_weight_loading_phases`. -/
def addWeightLoadingPhases (m : MappedModel) (weightSchedule : Dict ℕ (List ℕ)) : MappedModel :=
  let s := m.toPhaseSchedule.addWeightLoadingPhases weightSchedule
  { m with
    toPhaseSchedule := s
    phaseInstances := m.phaseInstances.mapValues (addMissingInstances s) }

/-- `configure_dependencies(mapped_model)`. -/
def configureDependencies (m : MappedModel) (strategy : WeightLoadingStrategy) : MappedModel :=
  { m with toPhaseSchedule := WeightScheduler.configureDependencies strategy m.toPhaseSchedule }

/-- A new model with the weight loading phases of a strategy and their dependencies. -/
def scheduled (a : Args) (strategy : WeightLoadingStrategy) : MappedModel :=
  ((new a).addWeightLoadingPhases
    (WeightScheduler.generateSchedule strategy a.numLayers)).configureDependencies strategy

/-! ## Compute metrics and traffic -/

/-- `add_chunk_compute_result`. -/
def addChunkComputeResult (m : MappedModel) (layerIdx chipletId chunkIdx : ℕ)
    (result : ChunkResult) : MappedModel :=
  { m with chunkResults := m.chunkResults.set2 layerIdx chipletId (chunkIdx, result) }

/-- The latency of a layer: the largest of its chunks. -/
def layerLatency (chunks : Dict ℕ (ℕ × ChunkResult)) : ℚ :=
  chunks.values.foldl (fun t c => match c.2.latencyUs with
    | some l => max t l
    | none => t) 0

/-- The energy of a layer: the sum over its chunks. -/
def layerEnergy (chunks : Dict ℕ (ℕ × ChunkResult)) : ℚ :=
  chunks.values.foldl (fun t c => t + c.2.energyFj.getD 0) 0

/-- Set the compute latency and energy of a layer for every input. -/
def setLayerComputeMetrics (m : MappedModel) (layerIdx : ℕ) (chunks : Dict ℕ (ℕ × ChunkResult)) :
    MappedModel :=
  match m.layerToComputePhase.get? layerIdx with
  | none => m
  | some c =>
    (List.range m.numInputs).foldl (fun m i =>
      match m.instance? i c with
      | some x => m.setInstance i c
          { x with latencyUs := layerLatency chunks, energyFj := layerEnergy chunks }
      | none => m) m

/-- `update_all_layer_compute_metrics`. -/
def updateAllLayerComputeMetrics (m : MappedModel) : MappedModel :=
  m.chunkResults.entries.foldl (fun m e => m.setLayerComputeMetrics e.1 e.2) m

/-- The two traffic calculations a model asks its traffic calculator for. -/
structure TrafficSource where
  activation : ModelDef → List LayerMetrics → LayerMappings → ℕ → Except PyError TrafficMatrixDict
  weightLoading : List LayerMetrics → LayerMappings → List ℕ → Except PyError TrafficMatrixDict

/-- The traffic of one phase. -/
def calculatePhaseTraffic (m : MappedModel) (source : TrafficSource) (phase : Phase) :
    Except PyError Phase :=
  match phase.kind with
  | .compute _ => .ok phase
  | .activationComm l _ => do
    return phase.setTraffic (← source.activation m.modelDef m.modelMetrics m.mapping l)
  | .weightLoading ls _ => do
    return phase.setTraffic (← source.weightLoading m.modelMetrics m.mapping ls)

/-- `calculate_all_traffic`. -/
def calculateAllTraffic (m : MappedModel) (source : TrafficSource) : Except PyError MappedModel :=
  m.phases.entries.foldlM (fun m e => do
    let phase ← m.calculatePhaseTraffic source e.2
    return { m with phases := m.phases.set e.1 phase }) m

end MappedModel

end ChipSim
