import ChipSim.CommTypes
import ChipSim.ModelProcessor
import ChipSim.Lib.TopoSort

/-!
# Building the phase schedule of a mapped model

The constructor of `MappedModel` creates, layer by layer, a compute phase and (except for the
last layer) an activation communication phase; `add_weight_loading_phases` appends the weight
loading phases of the chosen strategy, and the `WeightScheduler` adds the dependencies between
them. After each change of dependencies the execution order is sorted topologically.
-/

namespace ChipSim

open Lib

/-- The phases of a model and the lookup tables over them. -/
structure PhaseSchedule where
  modelIdx : ℕ
  numLayers : ℕ
  numInputs : ℕ
  communicationMethod : CommunicationMethod
  weightStationary : Bool
  phases : Dict ℕ Phase := .empty
  phaseExecutionOrder : List ℕ := []
  nextPhaseId : ℕ := 0
  layerToComputePhase : Dict ℕ ℕ := .empty
  layerToActivationCommPhase : Dict ℕ ℕ := .empty
  layerToWeightCommPhase : Dict ℕ ℕ := .empty

namespace PhaseSchedule

/-- `_add_phase_object`. -/
def addPhaseObject (s : PhaseSchedule) (phase : Phase) : PhaseSchedule :=
  { s with
    nextPhaseId := max s.nextPhaseId (phase.phaseId + 1)
    phases := s.phases.set phase.phaseId phase
    phaseExecutionOrder := s.phaseExecutionOrder ++ [phase.phaseId] }

/-- The compute phase of a layer, under the next free id. -/
def addComputePhase (s : PhaseSchedule) (layerIdx : ℕ) : PhaseSchedule :=
  { s.addPhaseObject
      { phaseId := s.nextPhaseId, modelIdx := s.modelIdx, kind := .compute layerIdx } with
    layerToComputePhase := s.layerToComputePhase.set layerIdx s.nextPhaseId }

/-- The activation communication phase of a layer, depending on its compute phase. -/
def addActivationCommPhase (s : PhaseSchedule) (layerIdx computePhaseId : ℕ) : PhaseSchedule :=
  { s.addPhaseObject
      { phaseId := s.nextPhaseId
        modelIdx := s.modelIdx
        dependencies := [computePhaseId]
        kind := .activationComm layerIdx none } with
    layerToActivationCommPhase := s.layerToActivationCommPhase.set layerIdx s.nextPhaseId }

/-- Loop body of `_build_default_phase_schedule`: the phases of one layer. -/
def addLayerPhases (s : PhaseSchedule) (layerIdx : ℕ) : PhaseSchedule :=
  let s' := s.addComputePhase layerIdx
  if layerIdx + 1 < s.numLayers then s'.addActivationCommPhase layerIdx s.nextPhaseId else s'

/-- `self.phases[phase_id].dependencies.append(dep)`. -/
def appendDependency (s : PhaseSchedule) (phaseId dep : ℕ) : PhaseSchedule :=
  { s with phases := s.phases.modify phaseId (·.addDependency dep) }

/-- `if dep not in phase.dependencies: phase.dependencies.append(dep)`. -/
def ensureDependency (s : PhaseSchedule) (phaseId dep : ℕ) : PhaseSchedule :=
  { s with
    phases := s.phases.modify phaseId fun phase =>
      if dep ∈ phase.dependencies then phase else phase.addDependency dep }

/-- The compute phase of a layer depends on the activations of the layer before it. -/
def linkComputePhase (s : PhaseSchedule) (layerIdx : ℕ) : PhaseSchedule :=
  match s.layerToComputePhase.get? layerIdx,
      s.layerToActivationCommPhase.get? (layerIdx - 1) with
  | some computeId, some commId => s.appendDependency computeId commId
  | _, _ => s

/-- `_build_default_phase_schedule`, without the phase instances. -/
def buildDefaultPhaseSchedule (s : PhaseSchedule) : PhaseSchedule :=
  let s' := (List.range s.numLayers).foldl addLayerPhases s
  (List.range' 1 (s.numLayers - 1)).foldl linkComputePhase s'

/-- The dependencies of a phase id. -/
def dependenciesOf (s : PhaseSchedule) (p : ℕ) : List ℕ :=
  match s.phases.get? p with
  | some phase => phase.dependencies
  | none => []

/-- `_sort_execution_order`: depth-first topological sort. A visit is entered only for an unmarked
phase, so the recursion is never deeper than the number of phases. -/
def sortExecutionOrder (s : PhaseSchedule) : PhaseSchedule :=
  { s with
    phaseExecutionOrder := dfsSort s.dependenciesOf s.phases.keys.length s.phases.keys }

/-- The weight loading phase for a list of layers. -/
def addWeightLoadingPhase (s : PhaseSchedule) (layersToLoad : List ℕ) : PhaseSchedule :=
  { s.addPhaseObject
      { phaseId := s.nextPhaseId
        modelIdx := s.modelIdx
        kind := .weightLoading layersToLoad none } with
    layerToWeightCommPhase :=
      layersToLoad.foldl (fun d l => d.set l s.nextPhaseId) s.layerToWeightCommPhase }

/-- `add_weight_loading_phases`, without the phase instances. The schedule lists, per layer before
which they are loaded, the layers to load. -/
def addWeightLoadingPhases (s : PhaseSchedule) (weightSchedule : Dict ℕ (List ℕ)) :
    PhaseSchedule :=
  (weightSchedule.values.foldl addWeightLoadingPhase s).sortExecutionOrder

end PhaseSchedule

namespace WeightScheduler

/-- `generate_schedule`. -/
def generateSchedule (strategy : WeightLoadingStrategy) (numLayers : ℕ) : Dict ℕ (List ℕ) :=
  match strategy with
  | .allAtOnce => .comprehension [0] fun _ => List.range numLayers
  | .justInTime => .comprehension (List.range numLayers) fun l => [l]

/-- The compute phase of a layer depends on `weightPhaseId`. -/
def dependOnWeightPhase (weightPhaseId : ℕ) (s : PhaseSchedule) (layerIdx : ℕ) : PhaseSchedule :=
  match s.layerToComputePhase.get? layerIdx with
  | some computeId => s.ensureDependency computeId weightPhaseId
  | none => s

/-- `_configure_all_at_once_dependencies`: every compute phase depends on the one weight phase. -/
def configureAllAtOnceDependencies (s : PhaseSchedule) : PhaseSchedule :=
  match s.layerToWeightCommPhase.get? 0 with
  | none => s
  | some w => ((List.range s.numLayers).foldl (dependOnWeightPhase w) s).sortExecutionOrder

/-- Step 1 of the just-in-time configuration: a weight phase waits for the previous layer's
activations, or for its computation when it has no activation phase. -/
def delayWeightPhase (s : PhaseSchedule) (layerIdx : ℕ) : PhaseSchedule :=
  match s.layerToWeightCommPhase.get? layerIdx with
  | none => s
  | some w =>
    match s.layerToActivationCommPhase.get? (layerIdx - 1) with
    | some a => s.ensureDependency w a
    | none =>
      match s.layerToComputePhase.get? (layerIdx - 1) with
      | some c => s.ensureDependency w c
      | none => s

/-- Step 2: the compute phase of a layer depends on the weight phase of the layer. -/
def dependOnOwnWeightPhase (s : PhaseSchedule) (layerIdx : ℕ) : PhaseSchedule :=
  match s.layerToWeightCommPhase.get? layerIdx with
  | some w => dependOnWeightPhase w s layerIdx
  | none => s

/-- `_configure_jit_dependencies`. -/
def configureJitDependencies (s : PhaseSchedule) : PhaseSchedule :=
  let s' := (List.range' 1 (s.numLayers - 1)).foldl delayWeightPhase s
  ((List.range s.numLayers).foldl dependOnOwnWeightPhase s').sortExecutionOrder

/-- `configure_dependencies`. -/
def configureDependencies (strategy : WeightLoadingStrategy) (s : PhaseSchedule) :
    PhaseSchedule :=
  match strategy with
  | .justInTime => configureJitDependencies s
  | .allAtOnce => configureAllAtOnceDependencies s

end WeightScheduler

end ChipSim
