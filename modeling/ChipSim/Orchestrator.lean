import ChipSim.MappedModel.Run

/-!
# Communication orchestrator

At every tick the orchestrator collects the communications that are active in any model, as one
traffic matrix each. If one of them has no latency yet, the network simulator is called with all
of them; the latencies it returns are recorded, and all models are synchronised.
-/

namespace ChipSim

open Lib

/-- Packets between chiplets, by rows. -/
abbrev TrafficMatrix := List (List ℕ)

/-- What the network simulator is given for one phase: the matrix, model, input and phase. -/
abbrev SimulatorInput := TrafficMatrix × ℕ × ℕ × ℕ

/-- The latencies of a simulation by model, input and phase. -/
abbrev PhaseLatencies := Dict (ℕ × ℕ × ℕ) ℚ

/-- What the network simulator can return: nothing, statistics without a latency block, a latency
block without phases, or the latencies of the phases. -/
inductive NetworkStats
  | noResults
  | noLatency
  | noPhaseLatencies
  | latencies (allPhaseLatenciesUs : PhaseLatencies)

/-- An active communication with its traffic matrix. -/
structure ActivePhase where
  modelIdx : ℕ
  inputIdx : ℕ
  phaseId : ℕ
  phase : Phase
  matrix : TrafficMatrix

namespace ActivePhase

/-- The tuple given to the simulator. -/
def simulatorInput (a : ActivePhase) : SimulatorInput :=
  (a.matrix, a.modelIdx, a.inputIdx, a.phaseId)

/-- `getattr(phase, 'layer_idx', -1)`; weight loading phases have no such attribute. -/
def layerIdx (phase : Phase) : ℤ :=
  match phase.kind with
  | .compute l => l
  | .activationComm l _ => l
  | .weightLoading _ _ => -1

end ActivePhase

namespace Orchestrator

/-! ## Traffic matrices -/

/-- A matrix of zeros. -/
def zeroMatrix (n : ℕ) : TrafficMatrix := List.replicate n (List.replicate n 0)

/-- Set one entry, by chiplet ids. -/
def setEntry (matrix : TrafficMatrix) (src dst amount : ℕ) : TrafficMatrix :=
  matrix.modify (src - 1) fun row => row.set (dst - 1) amount

/-- An id outside the system. -/
def invalidId (role : String) (chipletId modelIdx inputIdx : ℕ) (layerIdx : ℤ) : PyError :=
  .valueError
    (s!"Invalid {role} chiplet ID {chipletId} found in traffic data " ++
      s!"for model {modelIdx}, input {inputIdx}, layer {layerIdx}.")

/-- `_create_traffic_matrix`. -/
def createTrafficMatrix (n : ℕ) (traffic : TrafficMatrixDict) (modelIdx inputIdx : ℕ)
    (layerIdx : ℤ) : Except PyError TrafficMatrix :=
  traffic.entries.foldlM (fun matrix e =>
    if 1 ≤ e.1 ∧ e.1 ≤ n then
      e.2.entries.foldlM (fun matrix f =>
        if 1 ≤ f.1 ∧ f.1 ≤ n then .ok (setEntry matrix e.1 f.1 f.2)
        else .error (invalidId "destination" f.1 modelIdx inputIdx layerIdx)) matrix
    else .error (invalidId "source" e.1 modelIdx inputIdx layerIdx)) (zeroMatrix n)

/-! ## Collecting the active phases -/

/-- The active communications of one model among its active phases. -/
def collectPhases (n modelIdx : ℕ) (m : MappedModel) (instances : List PhaseInstance) :
    Except PyError (List ActivePhase) :=
  instances.foldlM (fun acc x => do
    let phase ← getItem m.phases x.phaseId
    match phase.isCompute, x.scaledTraffic with
    | false, some traffic =>
      if hasNonzeroTraffic traffic then do
        let matrix ← createTrafficMatrix n traffic modelIdx x.inputIdx (ActivePhase.layerIdx phase)
        return acc ++ [{ modelIdx := modelIdx, inputIdx := x.inputIdx, phaseId := x.phaseId,
                         phase := phase, matrix := matrix }]
      else return acc
    | _, _ => return acc) []

/-- `_collect_active_phases_and_traffic`. -/
def collectActivePhases (n : ℕ) (active : Dict ℕ MappedModel) (g : ℚ) :
    Except PyError (Dict ℕ MappedModel × List ActivePhase) :=
  active.entries.foldlM (fun acc e => do
    let r ← e.2.getActivePhases g
    let phases ← collectPhases n e.1 r.1 r.2
    return (acc.1.set e.1 r.1, acc.2 ++ phases)) (active, [])

/-- `_needs_initial_simulation`: some active phase has no latency yet. -/
def needsInitialSimulation (active : Dict ℕ MappedModel) (phases : List ActivePhase) : Bool :=
  phases.any fun a =>
    (((active.get? a.modelIdx).bind (·.instance? a.inputIdx a.phaseId)).any
      (·.latencyUs = 0))

/-! ## Recording -/

/-- What is recorded about one co-active phase. -/
def coActivePhase (active : Dict ℕ MappedModel) (a : ActivePhase) : CoActivePhase where
  modelIdx := a.modelIdx
  inputIdx := a.inputIdx
  phaseId := a.phaseId
  isWeightLoading := a.phase.isWeightLoading
  layerIdx := a.phase.layerIndices.head?
  nextComputeLayer := a.phase.layersToLoad.head?
  trafficContribution :=
    let scaled := ((active.get? a.modelIdx).bind
      (·.instance? a.inputIdx a.phaseId)).bind (·.scaledTraffic)
    match scaled.filter (!·.entries.isEmpty) with
    | some t => t
    | none => a.phase.traffic.getD .empty

/-- `_record_co_active_traffic`: in every model with an active communication. -/
def recordCoActive (active : Dict ℕ MappedModel) (phases : List ActivePhase) (callId : ℕ) (g : ℚ) :
    Dict ℕ MappedModel :=
  active.mapValues fun idx m =>
    if phases.any (·.modelIdx = idx) then
      m.recordCoActiveTraffic callId g (phases.map (coActivePhase active))
    else m

/-- One entry of the latencies. -/
def updateLatency (g : ℚ) (active : Dict ℕ MappedModel) (e : (ℕ × ℕ × ℕ) × ℚ) :
    Except PyError (Dict ℕ MappedModel) :=
  match active.get? e.1.1 with
  | none => .ok active
  | some m => do
    let m' ← m.updatePhaseLatency e.1.2.1 e.1.2.2 e.2 g
    return active.set e.1.1 m'

/-- `_update_phase_latencies`. -/
def updatePhaseLatencies (g : ℚ) (active : Dict ℕ MappedModel) (latencies : PhaseLatencies) :
    Except PyError (Dict ℕ MappedModel) := do
  let active ← latencies.entries.foldlM (updateLatency g) active
  return active.mapValues fun _ m => m.syncPhaseMetricsToLayers

/-- `_update_simulation_results`. -/
def updateSimulationResults (g : ℚ) (active : Dict ℕ MappedModel) (stats : NetworkStats) :
    Except PyError (Dict ℕ MappedModel) :=
  match stats with
  | .noResults => .error (.runtimeError
      ("❌ ERROR: Communication simulation returned no results.\n" ++
        "The network simulator (Garnet) failed to produce valid statistics."))
  | .noLatency => .error (.runtimeError
      ("❌ ERROR: Communication simulation returned invalid results.\n" ++
        "Missing 'latency' key in network statistics.\n"))
  | .noPhaseLatencies => .error (.runtimeError
      ("❌ ERROR: Communication simulation returned zero latencies for all phases.\n" ++
        "This indicates the network simulator failed to properly process traffic.\n"))
  | .latencies d => updatePhaseLatencies g active d

/-- `simulate_communication`: the models and the number of simulator calls afterwards. The answer
of the simulator may depend on the number of the call. -/
def simulateCommunication (n : ℕ) (network : ℕ → List SimulatorInput → NetworkStats)
    (active : Dict ℕ MappedModel) (calls : ℕ) (g : ℚ) :
    Except PyError (Dict ℕ MappedModel × ℕ) := do
  let r ← collectActivePhases n active g
  if r.2.isEmpty ∨ ¬ needsInitialSimulation r.1 r.2 then return (r.1, calls)
  else do
    let active := recordCoActive r.1 r.2 (calls + 1) g
    let active ← updateSimulationResults g active
      (network (calls + 1) (r.2.map ActivePhase.simulatorInput))
    return (active, calls + 1)

end Orchestrator

end ChipSim
