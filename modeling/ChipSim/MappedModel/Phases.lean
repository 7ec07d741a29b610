import ChipSim.Lib.Round
import ChipSim.MappedModel.Schedule

/-!
# Mapped models and their ticks

A mapped model is a phase schedule together with the runtime state of its phase instances.
`get_active_phases` advances the current phase of every started input, `update_phase_latency`
records a latency returned by the network simulator, `calculate_phase_timing` fills in start and
completion times, and `sync_phase_metrics_to_layers` copies the phase data to per-layer records.
-/

namespace ChipSim

open Lib

/-- Chiplets and percentages of each layer: `[(layer_idx, [(chiplet_id, percentage)])]`. -/
abbrev LayerMappings := List (ℕ × List (ℕ × ℚ))

/-- The result of a compute simulation of one chunk. -/
structure ChunkResult where
  latencyUs : Option ℚ
  energyFj : Option ℚ
deriving DecidableEq

/-- The per-layer records, by input and layer, that the post-processing reads. -/
structure LayerRecords where
  computeLatency : Dict ℕ (Dict ℕ ℚ) := .empty
  computeEnergy : Dict ℕ (Dict ℕ ℚ) := .empty
  activationCommLatency : Dict ℕ (Dict ℕ ℚ) := .empty
  activationCommLatencyHistory : Dict ℕ (Dict ℕ (List (ℚ × ℚ))) := .empty
  activationCommIsActive : Dict ℕ (Dict ℕ Bool) := .empty
  activationCommTraffic : Dict ℕ TrafficMatrixDict := .empty
  weightLoadingLatency : Dict ℕ (Dict ℕ ℚ) := .empty
  weightLoadingLatencyHistory : Dict ℕ (Dict ℕ (List (ℚ × ℚ))) := .empty
  weightLoadingIsActive : Dict ℕ (Dict ℕ Bool) := .empty
  weightLoadingTraffic : Dict ℕ TrafficMatrixDict := .empty
  startTimeUs : Dict ℕ (Dict ℕ ℚ) := .empty
  completionTimeUs : Dict ℕ (Dict ℕ ℚ) := .empty

/-- `{input_idx: {} for input_idx in range(num_inputs)}`. -/
def LayerRecords.byInput {α : Type} (numInputs : ℕ) : Dict ℕ (Dict ℕ α) :=
  .comprehension (List.range numInputs) fun _ => .empty

theorem LayerRecords.get2?_byInput {α : Type} (numInputs i l : ℕ) :
    (byInput numInputs : Dict ℕ (Dict ℕ α)).get2? i l = none := by
  unfold byInput Dict.get2?
  rw [Dict.get?_comprehension]
  split <;> rfl

/-- The records of a new model: nothing for any input. -/
def LayerRecords.new (numInputs : ℕ) : LayerRecords where
  computeLatency := byInput numInputs
  computeEnergy := byInput numInputs
  activationCommLatency := byInput numInputs
  activationCommLatencyHistory := byInput numInputs
  activationCommIsActive := byInput numInputs
  weightLoadingLatency := byInput numInputs
  weightLoadingLatencyHistory := byInput numInputs
  weightLoadingIsActive := byInput numInputs
  startTimeUs := byInput numInputs
  completionTimeUs := byInput numInputs

/-- What a simulation call records about one of the phases it simulated together. -/
structure CoActivePhase where
  modelIdx : ℕ
  inputIdx : ℕ
  phaseId : ℕ
  isWeightLoading : Bool
  layerIdx : Option ℕ
  nextComputeLayer : Option ℕ
  trafficContribution : TrafficMatrixDict

/-- A model mapped to chiplets and under execution. -/
structure MappedModel extends PhaseSchedule where
  modelName : String
  mapping : LayerMappings
  modelDef : ModelDef
  modelMetrics : List LayerMetrics
  modelStartTimeUs : ℚ
  inputStartTimeUs : List ℚ
  inputCompletionTimeUs : List ℚ
  modelCompletionTimeUs : ℚ
  usedCapacity : List ℤ
  chunkResults : Dict ℕ (Dict ℕ (ℕ × ChunkResult)) := .empty
  phaseInstances : Dict ℕ (Dict ℕ PhaseInstance)
  weightsLoaded : Dict ℕ Bool
  layerRecords : LayerRecords := {}
  communicationCoActiveTraffic : Dict ℕ (ℚ × List CoActivePhase) := .empty

/-! ## Traffic of a phase -/

/-- `_get_phase_traffic`: the traffic of a phase, scaled to the part still to be sent. A positive
amount stays positive. -/
def getPhaseTraffic (traffic : Option TrafficMatrixDict) (scaleFactor : ℚ) : TrafficMatrixDict :=
  match traffic with
  | none => .empty
  | some t =>
    if 1 ≤ scaleFactor then t
    else
      t.mapValues fun _ dests =>
        dests.filterMapValues fun _ amount =>
          if 0 < amount then some (max 1 (roundHalfEven (amount * scaleFactor)).toNat) else none

/-- `_has_nonzero_traffic`. -/
def hasNonzeroTraffic (t : TrafficMatrixDict) : Bool :=
  t.values.any fun dests => dests.values.any fun amount => decide (0 < amount)

/-! ## One phase instance -/

/-- What handling the current phase of an input does to its instance: the new instance, whether it
is listed as active, and whether a weight phase has now loaded its layers. -/
structure PhaseOutcome where
  inst : PhaseInstance
  active : Bool := false
  weightsDone : Bool := false

/-- Compute phase handling in `get_active_phases`. -/
def advanceCompute (g start : ℚ) (x : PhaseInstance) : PhaseOutcome :=
  match x.state with
  | .notStarted =>
    { inst := { x with state := .running, startTimeUs := start, isActive := true }
      active := true }
  | .running =>
    let elapsed := g - x.startTimeUs
    if elapsed < x.latencyUs then
      { inst := { x with
          percentComplete := if 0 < x.latencyUs then elapsed / x.latencyUs else 0
          isActive := true }
        active := true }
    else
      { inst := { x with
          state := .complete
          isActive := false
          completionTimeUs := x.startTimeUs + x.latencyUs } }
  | .complete => { inst := x }

/-- Weight loading of layers that are all loaded already: complete at once, at the current time. -/
def skipWeightLoading (g : ℚ) (x : PhaseInstance) : PhaseOutcome :=
  if x.state = .notStarted then
    { inst := { x with
        state := .complete
        latencyUs := 0
        startTimeUs := g
        completionTimeUs := g
        isActive := false } }
  else { inst := x }

/-- A new communication: complete at once without traffic, otherwise running. -/
def startComm (start : ℚ) (traffic : Option TrafficMatrixDict) (x : PhaseInstance) :
    PhaseOutcome :=
  let scaled := getPhaseTraffic traffic 1
  if hasNonzeroTraffic scaled then
    { inst := { x with
        scaledTraffic := some scaled
        state := .running
        startTimeUs := start
        isActive := true
        percentComplete := 0 }
      active := true }
  else
    { inst := { x with
        scaledTraffic := some scaled
        state := .complete
        startTimeUs := start
        latencyUs := -1
        completionTimeUs := start
        isActive := false
        percentComplete := 1 }
      weightsDone := true }

/-- An ongoing communication: before its latency has passed the traffic is scaled to the remaining
fraction, afterwards it is complete; without a latency it waits for the network simulator. -/
def continueComm (g : ℚ) (traffic : Option TrafficMatrixDict) (x : PhaseInstance) : PhaseOutcome :=
  if 0 < x.latencyUs then
    let elapsed := g - x.startTimeUs
    if elapsed < x.latencyUs then
      let percent := min 1 (elapsed / x.latencyUs)
      let scaled := getPhaseTraffic traffic (1 - percent)
      { inst := { x with percentComplete := percent, scaledTraffic := some scaled }
        active := hasNonzeroTraffic scaled }
    else
      { inst := { x with
          state := .complete
          isActive := false
          completionTimeUs := x.startTimeUs + x.latencyUs }
        weightsDone := true }
  else
    let scaled := getPhaseTraffic traffic 1
    if hasNonzeroTraffic scaled then
      { inst := { x with scaledTraffic := some scaled }
        active := true }
    else
      { inst := { x with
          scaledTraffic := some scaled
          state := .complete
          isActive := false
          completionTimeUs := x.startTimeUs
          latencyUs := -1
          percentComplete := 1 }
        weightsDone := true }

/-- Communication phase handling in `get_active_phases`. -/
def advanceComm (g start : ℚ) (traffic : Option TrafficMatrixDict) (x : PhaseInstance) :
    PhaseOutcome :=
  if x.latencyUs = 0 ∧ x.state = .notStarted then startComm start traffic x
  else if x.state = .running then continueComm g traffic x
  else { inst := x }

/-- The instance update of `update_phase_latency`. -/
def PhaseInstance.updateLatency (x : PhaseInstance) (newLatency g : ℚ) : PhaseInstance :=
  let y := { x with latencyHistory := x.latencyHistory ++ [(g, newLatency)] }
  if x.latencyUs = 0 then { y with latencyUs := newLatency }
  else if 0 < x.latencyUs ∧ x.state = .running then
    let elapsed := g - x.startTimeUs
    let newTotal := elapsed + newLatency
    { y with
      latencyUs := newTotal
      percentComplete :=
        if 0 < newTotal then min 1 (elapsed / newTotal) else x.percentComplete }
  else y

namespace MappedModel

/-! ## Instances and dependencies -/

/-- The instance of a phase for an input, if it exists. -/
def instance? (m : MappedModel) (i p : ℕ) : Option PhaseInstance := m.phaseInstances.get2? i p

/-- Write an instance back. -/
def setInstance (m : MappedModel) (i p : ℕ) (x : PhaseInstance) : MappedModel :=
  { m with phaseInstances := m.phaseInstances.set2 i p x }

/-- `self.phase_instances[i][p]`. -/
def getInstance (m : MappedModel) (i p : ℕ) : Except PyError PhaseInstance :=
  match m.instance? i p with
  | some x => .ok x
  | none => .error (.keyError (toString p))

/-- `self.input_start_time_us[i]`. -/
def inputStart (m : MappedModel) (i : ℕ) : ℚ := m.inputStartTimeUs.getD i (-1)

/-- `self.input_completion_time_us[i]`. -/
def inputCompletion (m : MappedModel) (i : ℕ) : ℚ := m.inputCompletionTimeUs.getD i (-1)

/-- The instance is complete, or does not exist for this input. -/
def completeOrAbsent (m : MappedModel) (i p : ℕ) : Bool :=
  match m.instance? i p with
  | none => true
  | some x => x.state = .complete

/-- `self.weight_stationary and self.weights_loaded[layer_idx]`. -/
def weightsAlreadyLoaded (m : MappedModel) (layerIdx : ℕ) : Except PyError Bool :=
  if m.weightStationary then getItem m.weightsLoaded layerIdx else .ok false

/-- The validation of `_dependencies_met` for compute phases: the weights are loaded or the phase
waits for them. -/
def validateWeights (m : MappedModel) (i p : ℕ) (phase : Phase) (layerIdx : ℕ) :
    Except PyError Unit :=
  match m.layerToWeightCommPhase.get? layerIdx with
  | none => .ok ()
  | some w => do
    let loaded ← m.weightsAlreadyLoaded layerIdx
    if loaded then .ok ()
    else if (m.instance? i w).any (·.state = .complete) then .ok ()
    else if w ∈ phase.dependencies then .ok ()
    else
      let name := m.modelName
      let idx := m.modelIdx
      .error (.runtimeError
        (s!"CONFIGURATION ERROR: Compute phase for layer {layerIdx} " ++
          s!"(phase {p}) does not depend on weight loading phase {w}!\n" ++
          s!"  Model: {name} (idx: {idx})\n" ++
          "  This is a bug in the weight loading schedule setup."))

/-- `_dependencies_met`. -/
def dependenciesMet (m : MappedModel) (i p : ℕ) : Except PyError Bool := do
  let phase ← getItem m.phases p
  if ¬ phase.dependencies.all (m.completeOrAbsent i) then return false
  else if m.communicationMethod = .pipelined ∧ 0 < i ∧ ¬ m.completeOrAbsent (i - 1) p then
    return false
  else
    match phase.kind with
    | .compute layerIdx => do
      m.validateWeights i p phase layerIdx
      return true
    | _ => return true

/-- The loop of `_find_current_phase`: the first incomplete phase that can run. -/
def findCurrentPhaseIn (m : MappedModel) (i : ℕ) : List ℕ → Except PyError (Option ℕ)
  | [] => .ok none
  | p :: ps =>
    if m.completeOrAbsent i p then m.findCurrentPhaseIn i ps
    else do
      if ← m.dependenciesMet i p then return some p else m.findCurrentPhaseIn i ps

/-- `_find_current_phase`. -/
def findCurrentPhase (m : MappedModel) (i : ℕ) : Except PyError (Option ℕ) :=
  m.findCurrentPhaseIn i m.phaseExecutionOrder

/-- The later of a time and the completion time of an instance, if there is one. -/
def laterOf (start : ℚ) (x? : Option PhaseInstance) : ℚ :=
  match x? with
  | some x => if start < x.completionTimeUs then x.completionTimeUs else start
  | none => start

/-- `_calculate_phase_start_time`. -/
def calculatePhaseStartTime (m : MappedModel) (i p : ℕ) (phase : Phase) : ℚ :=
  let start := phase.dependencies.foldl (fun t d => laterOf t (m.instance? i d)) (m.inputStart i)
  if m.communicationMethod = .pipelined ∧ 0 < i then laterOf start (m.instance? (i - 1) p)
  else start

/-! ## `get_active_phases` -/

/-- All weights of these layers are loaded (stationary mode only). -/
def allWeightsLoaded (m : MappedModel) (layers : List ℕ) : Bool :=
  m.weightStationary && layers.all fun l => m.weightsLoaded.getD l false

/-- Handle the current phase of an input by its type. -/
def handlePhase (m : MappedModel) (g : ℚ) (i p : ℕ) (phase : Phase) (x : PhaseInstance) :
    PhaseOutcome :=
  let start := m.calculatePhaseStartTime i p phase
  match phase.kind with
  | .compute _ => advanceCompute g start x
  | .activationComm _ t => advanceComm g start t x
  | .weightLoading ls t =>
    if m.allWeightsLoaded ls then skipWeightLoading g x else advanceComm g start t x

/-- `for layer_idx in layers: self.weights_loaded[layer_idx] = True`. -/
def markWeightsLoaded (m : MappedModel) (layers : List ℕ) : MappedModel :=
  { m with weightsLoaded := layers.foldl (fun d l => d.set l true) m.weightsLoaded }

/-- Store the outcome of handling a phase. -/
def applyOutcome (m : MappedModel) (i p : ℕ) (phase : Phase) (o : PhaseOutcome) : MappedModel :=
  let m' := m.setInstance i p o.inst
  if o.weightsDone then m'.markWeightsLoaded phase.layersToLoad else m'

/-- The loop body of `get_active_phases`. -/
def activateInput (g : ℚ) (acc : MappedModel × List PhaseInstance) (i : ℕ) :
    Except PyError (MappedModel × List PhaseInstance) :=
  let m := acc.1
  if m.inputStart i = -1 then .ok acc
  else if g < m.inputStart i then .ok acc
  else do
    match ← m.findCurrentPhase i with
    | none => .ok acc
    | some p => do
      let phase ← getItem m.phases p
      let x ← m.getInstance i p
      let o := m.handlePhase g i p phase x
      return (m.applyOutcome i p phase o, if o.active then acc.2 ++ [o.inst] else acc.2)

/-- `get_active_phases`. -/
def getActivePhases (m : MappedModel) (g : ℚ) : Except PyError (MappedModel × List PhaseInstance) :=
  (List.range m.numInputs).foldlM (activateInput g) (m, [])

/-! ## `update_phase_latency` -/

/-- `update_phase_latency`; an unknown input index raises `KeyError`. -/
def updatePhaseLatency (m : MappedModel) (i p : ℕ) (newLatency g : ℚ) :
    Except PyError MappedModel :=
  match m.phaseInstances.get? i with
  | none => .error (.keyError (toString i))
  | some _ =>
    match m.instance? i p with
    | none => .ok m
    | some x => .ok (m.setInstance i p (x.updateLatency newLatency g))

end MappedModel

end ChipSim
