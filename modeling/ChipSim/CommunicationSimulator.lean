import Mathlib.Data.List.Sort
import ChipSim.Garnet.Stats

/-!
# Communication simulator

A call is given one traffic matrix for each active phase. It looks for a cached result of the same
key, and otherwise runs the network simulator and converts the latencies of the phases to
microseconds. The key has the sum of the matrices and the sorted ids of the phases.
-/

namespace ChipSim

open Lib

/-! ## Calls -/

/-- `simulator_type`. -/
inductive SimulatorType
  | garnet
  | booksim
  | other (name : String)
deriving DecidableEq

/-- `system_params`; the topology stands for its hash. -/
structure SystemParams where
  numChiplets : ℕ
  simulatorType : SimulatorType
  communicationMethod : String
  networkOperationFrequency : ℚ
  gem5SimCycles : ℕ
  gem5InjectionRate : ℚ
  gem5TicksPerCycle : ℚ
  gem5DeadlockThreshold : Option ℕ
  dsentTechNode : String
  enableDsent : Bool
  adjMatrix : List (List ℤ)
deriving DecidableEq

namespace SystemParams

/-- Ticks per second. -/
def clock (p : SystemParams) : ℚ := p.networkOperationFrequency * p.gem5TicksPerCycle

end SystemParams

/-- The arguments of `simulate_communication`, and the parameters of the simulator it is called
on. -/
structure SimulationCall where
  params : SystemParams
  simulationType : String
  trafficMatrices : List SimulatorInput
  square : Garnet.Square params.numChiplets trafficMatrices

/-- What the cache keys are computed from; the hash has no collisions. -/
structure CacheKey where
  trafficMatrix : TrafficMatrix
  simulationType : String
  systemParams : SystemParams
  activePhases : List (ℕ × ℕ × ℕ)
deriving DecidableEq

/-- The order of tuples. -/
def idLe (a b : ℕ × ℕ × ℕ) : Prop :=
  a.1 < b.1 ∨ a.1 = b.1 ∧ (a.2.1 < b.2.1 ∨ a.2.1 = b.2.1 ∧ a.2.2 ≤ b.2.2)

instance : DecidableRel idLe := fun _ _ => inferInstanceAs (Decidable (_ ∨ _))

namespace SimulationCall

/-- `combined_traffic`. -/
def combinedTraffic (c : SimulationCall) : TrafficMatrix :=
  c.trafficMatrices.foldl (fun acc input => List.zipWith (List.zipWith (· + ·)) acc input.1)
    (Orchestrator.zeroMatrix c.params.numChiplets)

/-- `active_phases_info`. -/
def activePhasesInfo (c : SimulationCall) : List (ℕ × ℕ × ℕ) := c.trafficMatrices.map Prod.snd

/-- `cache_key`. -/
def cacheKey (c : SimulationCall) : CacheKey where
  trafficMatrix := c.combinedTraffic
  simulationType := c.simulationType
  systemParams := c.params
  activePhases := c.activePhasesInfo.insertionSort idLe

end SimulationCall

/-! ## Results -/

/-- The block `'latency'` of the statistics. -/
structure LatencyStats where
  garnetStats : Garnet.GarnetStats
  totalRuntimeS : Option ℚ
  totalRuntimeUs : Option ℚ
  allPhaseLatenciesUs : Option PhaseLatencies

/-- The network simulator: the statistics of Garnet, and whether DSENT succeeds after it. -/
structure Backend where
  garnet : SystemParams → List SimulatorInput → Garnet.GarnetStats
  dsent : SystemParams → List SimulatorInput → Bool

namespace CommunicationSimulator

/-- The result without traffic. -/
def zeroLatencies (inputs : List SimulatorInput) : LatencyStats where
  garnetStats := Garnet.GarnetStats.empty
  totalRuntimeS := none
  totalRuntimeUs := none
  allPhaseLatenciesUs := some (Dict.comprehension (inputs.map Prod.snd) fun _ => 0)

/-- The latencies in microseconds. -/
def addRuntime (p : SystemParams) (s : Garnet.GarnetStats) : Except PyError LatencyStats :=
  match s.simTicks with
  | none => .ok ⟨s, none, none, none⟩
  | some simTicks =>
    if p.clock = 0 then .error (.zeroDivisionError "float division by zero")
    else .ok
      { garnetStats := s
        totalRuntimeS := some (simTicks / p.clock)
        totalRuntimeUs := some (simTicks / p.clock * 10 ^ 6)
        allPhaseLatenciesUs :=
          if s.allPhaseLatencies.keys.isEmpty then none
          else some (s.allPhaseLatencies.mapValues fun _ ticks => ticks / p.clock * 10 ^ 6) }

/-- The branch of Garnet, when there is traffic; `none` is a run that failed. -/
def runGarnet (b : Backend) (c : SimulationCall) : Except PyError (Option LatencyStats) :=
  let garnetStats := b.garnet c.params c.trafficMatrices
  if garnetStats.isEmpty then .ok none
  else if c.params.enableDsent && !b.dsent c.params c.trafficMatrices then
    .error (.runtimeError "❌ DSENT simulation failed. Exiting simulation.")
  else do
    let stats ← addRuntime c.params garnetStats
    return some stats

/-- A run that printed latencies returns them in microseconds. -/
theorem runGarnet_eq {b : Backend} {c : SimulationCall} {s : Garnet.GarnetStats} {simTicks : ℚ}
    (hs : b.garnet c.params c.trafficMatrices = s) (hticks : s.simTicks = some simTicks)
    (hphases : s.allPhaseLatencies.keys ≠ []) (hclock : c.params.clock ≠ 0)
    (hdsent : c.params.enableDsent = true → b.dsent c.params c.trafficMatrices = true) :
    runGarnet b c = .ok (some
      { garnetStats := s
        totalRuntimeS := some (simTicks / c.params.clock)
        totalRuntimeUs := some (simTicks / c.params.clock * 10 ^ 6)
        allPhaseLatenciesUs := some
          (s.allPhaseLatencies.mapValues fun _ ticks => ticks / c.params.clock * 10 ^ 6) }) := by
  have hne : s.isEmpty = false := by
    unfold Garnet.GarnetStats.isEmpty
    rw [hticks]
    rfl
  have hok : (c.params.enableDsent && !b.dsent c.params c.trafficMatrices) = false := by
    cases he : c.params.enableDsent with
    | false => rfl
    | true => rw [hdsent he]; rfl
  have hkeys : s.allPhaseLatencies.keys.isEmpty = false := by simpa using hphases
  unfold runGarnet addRuntime
  simp only [hs, hne, hok, hticks, hkeys, if_neg hclock, Bool.false_eq_true, if_false]
  rfl

/-- The results stored by key. -/
abbrev Cache := Dict CacheKey LatencyStats

/-- `valid_cache`. -/
def validCache (c : SimulationCall) (cached : LatencyStats) : Bool :=
  match cached.allPhaseLatenciesUs with
  | some latencies => c.activePhasesInfo.all fun id => decide (id ∈ latencies.keys)
  | none => false

/-- The simulation itself: what is returned, `none` being an empty dictionary, and what is to be
cached. -/
def simulate (b : Backend) (c : SimulationCall) :
    Except PyError (Option LatencyStats) × Option LatencyStats :=
  match c.params.simulatorType with
  | .garnet =>
    if (Garnet.trafficData c.trafficMatrices).isEmpty then
      (.ok (some (zeroLatencies c.trafficMatrices)), none)
    else
      match runGarnet b c with
      | .ok (some stats) => (.ok (some stats), some stats)
      | r => (r, none)
  | .booksim => (.error (.notImplementedError "Booksim simulation is not yet implemented."), none)
  | .other name => (.error (.valueError s!"Unknown simulator type: {name}"), none)

/-- `simulate_communication`: what is returned, and the cache. -/
def simulateCommunication (b : Backend) (enableCache : Bool) (c : SimulationCall) (cache : Cache) :
    Except PyError (Option LatencyStats) × Cache :=
  if c.trafficMatrices.isEmpty then (.ok none, cache)
  else
    let cachedResult := if enableCache then cache.get? c.cacheKey else none
    match cachedResult.filter (validCache c) with
    | some stats => (.ok (some stats), cache)
    | none =>
      let r := simulate b c
      match enableCache, r.2 with
      | true, some stats => (r.1, cache.set c.cacheKey stats)
      | _, _ => (r.1, cache)

/-- `all_phase_latencies_us` of a result. -/
def phaseLatencies (r : Except PyError (Option LatencyStats)) :
    Except PyError (Option PhaseLatencies) :=
  match r with
  | .ok stats => .ok (stats.bind LatencyStats.allPhaseLatenciesUs)
  | .error e => .error e

/-- What a sequence of calls returns, from a cache. -/
def results (b : Backend) (enableCache : Bool) :
    Cache → List SimulationCall → List (Except PyError (Option PhaseLatencies))
  | _, [] => []
  | cache, c :: calls =>
    let r := simulateCommunication b enableCache c cache
    phaseLatencies r.1 :: results b enableCache r.2 calls

/-- Four chiplets in a square, with the default clock. -/
def fourChiplets : SystemParams where
  numChiplets := 4
  simulatorType := .garnet
  communicationMethod := "non-pipelined"
  networkOperationFrequency := 10 ^ 9
  gem5SimCycles := 500000000
  gem5InjectionRate := 0
  gem5TicksPerCycle := 1000
  gem5DeadlockThreshold := none
  dsentTechNode := "32"
  enableDsent := false
  adjMatrix := [[0, 1, 1, 0], [1, 0, 0, 1], [1, 0, 0, 1], [0, 1, 1, 0]]

end CommunicationSimulator

end ChipSim
