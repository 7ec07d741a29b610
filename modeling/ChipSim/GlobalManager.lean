import ChipSim.LayerPartitioner
import ChipSim.ModelMapper
import ChipSim.Orchestrator
import ChipSim.TrafficCalculator
import ChipSim.WorkloadManager

/-!
# The global manager

`run_simulation` is a loop over ticks. In every tick it tries to inject the ready models, lets the
orchestrator simulate the communication, updates the times of the active models and retires those
that are complete. The model is a machine whose steps are single injection attempts and single
retirement checks, so that its states include the ones between them.
-/

namespace ChipSim

open Lib

namespace GlobalManager

/-- What the compute simulator is asked for: one chunk of a layer on a chiplet. -/
structure ComputeRequest where
  modelName : String
  layerIdx : ℕ
  chipletId : ℕ
  partitionedLayer : PartitionedLayer
  numLayers : ℕ
  modelIdx : ℕ

/-- The configuration of a simulation, with the compute and the network simulator and the
arithmetic of the shares. -/
structure Config where
  models : Dict String ModelDef
  communicationMethod : CommunicationMethod
  weightStationary : Bool
  weightLoadingStrategy : WeightLoadingStrategy
  seedStartChipletIds : Dict ℕ ℕ := .empty
  allowedChipletIds : Dict ℕ (List ℕ) := .empty
  trafficCalculator : TrafficCalculator := {}
  arithmetic : Arithmetic := .double
  simulateCompute : ComputeRequest → Except PyError ChunkResult
  network : ℕ → List SimulatorInput → NetworkStats

/-- What the loop does next. -/
inductive Stage
  | loopHead
  | injecting (pending : List (String × ℕ × ℕ))
  | communicating
  | retiring (pending : List ℕ)
  | finished
deriving DecidableEq

/-- The state of a simulation. -/
structure State where
  globalTimeUs : ℚ
  system : System
  workload : WorkloadManager
  activeMappedModels : Dict ℕ MappedModel := .empty
  retiredMappedModels : Dict ℕ MappedModel := .empty
  simulationCallCounter : ℕ := 0
  stage : Stage := .loopHead

/-- The start of a run: all capacity is available. -/
def start (specs : List ChipletSpec) (adjMatrix : ℕ → ℕ → ℚ) (rows : List WorkloadEntry)
    (blockingAgeThreshold : ℕ) : Except PyError State :=
  if rows.isEmpty then .error (.systemExit 1)
  else .ok
    { globalTimeUs := 0
      system := { chiplets := specs.map Chiplet.new, adjMatrix := adjMatrix }
      workload := .load rows blockingAgeThreshold }

variable (c : Config)

/-! ## Injection -/

/-- The mapper preference of a model: the default, with its seed and its allowed chiplets. -/
def mapperPreference (modelIdx : ℕ) : Preference where
  preferredStartChipletId := c.seedStartChipletIds.get? modelIdx
  allowedChipletIds := c.allowedChipletIds.get? modelIdx

/-- The compute simulation of one layer: a result for every chunk. -/
def simulateLayer (a : MappedModel.Args) (e : ℕ × List (ℕ × ℚ)) :
    Except PyError (List (ℕ × ℕ × ℕ × ChunkResult)) :=
  match a.modelDef.layers.get? e.1 with
  | none => .error (.systemExit 1)
  | some layerDef =>
    let chunks := LayerPartitioner.partitionLayer layerDef
      (a.modelMetrics[e.1]?.map (·.totalMacs)) e.2
    chunks.zipIdx.mapM fun chunk => do
      let result ← c.simulateCompute
        { modelName := a.modelName
          layerIdx := e.1
          chipletId := chunk.1.1
          partitionedLayer := chunk.1.2
          numLayers := a.numLayers
          modelIdx := a.modelIdx }
      return (e.1, chunk.1.1, chunk.2, result)

/-- Construct and prepare a mapped model. -/
def createMappedModel (s : System) (a : MappedModel.Args) : Except PyError MappedModel := do
  let chunks ← a.mapping.mapM (simulateLayer c a)
  MappedModel.prepare a c.weightLoadingStrategy chunks.flatten (c.trafficCalculator.source s)

/-- A failed attempt: the model gets older, and may block the ones behind it. -/
def postpone (s : State) (rest : List (String × ℕ × ℕ)) (modelIdx : ℕ) : State :=
  let w := s.workload.incrementFailureAge modelIdx
  { s with
    workload := w
    stage := if w.isModelBlocking modelIdx then .communicating else .injecting rest }

/-- One injection attempt. -/
def injectModel (s : State) (entry : String × ℕ × ℕ) (rest : List (String × ℕ × ℕ)) :
    Except PyError State :=
  let modelName := entry.1
  let modelIdx := entry.2.2
  match c.models.get? modelName with
  | none => .error (.systemExit 1)
  | some modelDef => do
    let metrics ← ModelProcessor.processModel modelDef
    if ¬ s.system.canModelEverFit metrics then .error (.systemExit 1)
    else if ¬ s.system.canModelFitNow metrics then return postpone s rest modelIdx
    else do
      let r ← @ModelMapper.generateMapping c.arithmetic s.system (mapperPreference c modelIdx)
        metrics
      let s := { s with system := r.1 }
      match r.2 with
      | .error .insufficientMemory => return postpone s rest modelIdx
      | .error .noAvailableChiplets => return postpone s rest modelIdx
      | .error _ => .error (.systemExit 1)
      | .ok (mapping, usedCapacity) => do
        let m ← createMappedModel c s.system
          { modelName := modelName
            mapping := mapping
            modelStartTimeUs := s.globalTimeUs
            modelDef := modelDef
            modelMetrics := metrics
            numInputs := entry.2.1
            usedCapacity := usedCapacity
            modelIdx := modelIdx
            communicationMethod := c.communicationMethod
            weightStationary := c.weightStationary }
        return { s with
          workload := s.workload.markModelInjected modelIdx
          activeMappedModels := s.activeMappedModels.set modelIdx m
          stage := .injecting rest }

/-! ## Communication and retirement -/

/-- `calculate_phase_timing` of all active models. -/
def timeModels (active : Dict ℕ MappedModel) (g : ℚ) : Except PyError (Dict ℕ MappedModel) :=
  active.entries.foldlM (fun active e => do
    let r ← e.2.calculatePhaseTiming g
    return active.set e.1 r.1) active

/-- The communication of a tick and the times after it. -/
def communicate (s : State) : Except PyError State := do
  let r ← Orchestrator.simulateCommunication s.system.numChiplets c.network s.activeMappedModels
    s.simulationCallCounter s.globalTimeUs
  let active ← timeModels r.1 s.globalTimeUs
  return { s with
    activeMappedModels := active
    simulationCallCounter := r.2
    stage := .retiring active.keys }

/-- The units of a model given back. -/
def freeCapacity (s : System) (m : MappedModel) : List ℤ :=
  List.zipWith (· + ·) s.getAvailableCapacityPerChiplet m.usedCapacity

/-- The retirement check of one model. -/
def retireModel (s : State) (modelIdx : ℕ) (rest : List ℕ) : Except PyError State := do
  let m ← getItem s.activeMappedModels modelIdx
  let r ← m.calculatePhaseTiming s.globalTimeUs
  if r.1.isComplete s.globalTimeUs then do
    let sys ← s.system.updateCapacityAvailability (freeCapacity s.system r.1)
    return { s with
      system := sys.1
      activeMappedModels := s.activeMappedModels.erase modelIdx
      retiredMappedModels := s.retiredMappedModels.set modelIdx r.1
      stage := .retiring rest }
  else return { s with
    activeMappedModels := s.activeMappedModels.set modelIdx r.1
    stage := .retiring rest }

/-! ## Steps -/

/-- One step of the simulation loop. -/
def step (s : State) : Except PyError State :=
  match s.stage with
  | .loopHead =>
    if s.workload.hasRemaining ∨ ¬ s.activeMappedModels.keys.isEmpty then
      let r := s.workload.getModelsToInject s.globalTimeUs
      .ok { s with workload := r.1, stage := .injecting r.2 }
    else .ok { s with stage := .finished }
  | .injecting [] => .ok { s with stage := .communicating }
  | .injecting (entry :: rest) => injectModel c s entry rest
  | .communicating => communicate c s
  | .retiring [] => .ok { s with globalTimeUs := s.globalTimeUs + 1, stage := .loopHead }
  | .retiring (modelIdx :: rest) => retireModel s modelIdx rest
  | .finished => .ok s

/-- The states of a simulation. -/
inductive Reachable (s₀ : State) : State → Prop
  | start : Reachable s₀ s₀
  | step {s s' : State} (h : Reachable s₀ s) (hstep : step c s = .ok s') : Reachable s₀ s'

end GlobalManager

end ChipSim
