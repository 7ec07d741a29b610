import Mathlib.Data.Rat.Defs
import ChipSim.PyError

/-!
# Phases and their runtime instances

A model is executed as a sequence of phases: the computation of a layer, the communication of
its activations, and the loading of weights from the I/O chiplets. A phase is shared by all
inputs of the model; a phase instance is its execution for one input.

Times and latencies are exact rationals (microseconds). As in the source, `-1` stands for a time
that is not known yet, and a latency of `-1` for a phase that turned out to move no traffic.
-/

namespace ChipSim

open Lib

/-- Packets by source and destination chiplet id. -/
abbrev TrafficMatrixDict := Dict ℕ (Dict ℕ ℕ)

/-- The state of a phase instance. -/
inductive PhaseState
  | notStarted
  | running
  | complete
deriving DecidableEq, Repr

/-- The concrete phase classes with the fields of each. -/
inductive PhaseKind
  | compute (layerIdx : ℕ)
  | activationComm (layerIdx : ℕ) (traffic : Option TrafficMatrixDict)
  | weightLoading (layersToLoad : List ℕ) (traffic : Option TrafficMatrixDict)
deriving DecidableEq

/-- A phase of a model. -/
structure Phase where
  phaseId : ℕ
  modelIdx : ℕ
  dependencies : List ℕ := []
  kind : PhaseKind
deriving DecidableEq

namespace Phase

/-- `isinstance(phase, ComputePhase)`. -/
def isCompute (phase : Phase) : Bool :=
  match phase.kind with
  | .compute _ => true
  | _ => false

/-- `isinstance(phase, WeightLoadingPhase)`. -/
def isWeightLoading (phase : Phase) : Bool :=
  match phase.kind with
  | .weightLoading _ _ => true
  | _ => false

/-- The traffic of a communication phase, once calculated. -/
def traffic (phase : Phase) : Option TrafficMatrixDict :=
  match phase.kind with
  | .compute _ => none
  | .activationComm _ t => t
  | .weightLoading _ t => t

/-- The layers whose records a phase contributes to. -/
def layerIndices (phase : Phase) : List ℕ :=
  match phase.kind with
  | .compute l => [l]
  | .activationComm l _ => [l]
  | .weightLoading ls _ => ls

/-- The layers whose weights a phase loads. -/
def layersToLoad (phase : Phase) : List ℕ :=
  match phase.kind with
  | .weightLoading ls _ => ls
  | _ => []

/-- The phase with its traffic replaced; compute phases have none. -/
def setTraffic (phase : Phase) (t : TrafficMatrixDict) : Phase :=
  { phase with
    kind := match phase.kind with
      | .compute l => .compute l
      | .activationComm l _ => .activationComm l (some t)
      | .weightLoading ls _ => .weightLoading ls (some t) }

/-- `phase.dependencies.append(dep)`. -/
def addDependency (phase : Phase) (dep : ℕ) : Phase :=
  { phase with dependencies := phase.dependencies ++ [dep] }

end Phase

/-- The execution of a phase for one input. -/
structure PhaseInstance where
  phaseId : ℕ
  inputIdx : ℕ
  state : PhaseState := .notStarted
  startTimeUs : ℚ := -1
  completionTimeUs : ℚ := -1
  latencyUs : ℚ := 0
  energyFj : ℚ := 0
  scaledTraffic : Option TrafficMatrixDict := none
  percentComplete : ℚ := 0
  latencyHistory : List (ℚ × ℚ) := []
  isActive : Bool := false
deriving DecidableEq

/-- Two ways to overlap the inputs of a model. -/
inductive CommunicationMethod
  | pipelined
  | nonPipelined
deriving DecidableEq, Repr

/-- The weight loading strategies. -/
inductive WeightLoadingStrategy
  | allAtOnce
  | justInTime
deriving DecidableEq, Repr

/-- The amount a traffic dictionary sends from `src` to `dst`; absent entries send nothing. -/
def TrafficMatrixDict.amount (t : TrafficMatrixDict) (src dst : ℕ) : ℕ :=
  ((t.get? src).bind (·.get? dst)).getD 0

end ChipSim
