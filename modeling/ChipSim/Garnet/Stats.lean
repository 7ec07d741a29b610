import ChipSim.Garnet.Trace
import ChipSim.PyString

/-!
# Phase latencies

Every packet of the trace is injected as flits that carry the ids of their phase. The latencies of
the flits that arrive are collected by phase; the largest one becomes a statistic, if one was
registered for the phase. The statistics are printed to a text file, in which the communication
simulator finds the phases again.
-/

namespace ChipSim

open Lib

namespace Garnet

/-! ## Flits -/

/-- The network, input and phase of a flit. -/
abbrev PhaseKey := ℤ × ℤ × ℤ

/-- The ids in the route of a packet. -/
def phaseKey (r : NetworkTraceRecord) : PhaseKey := (r.networkIdx, r.inputIdx, r.phaseId)

/-- `transferTraceRecordsToInjectionQueue`: the flits of the packets of an interface, in turn. -/
def injectionQueue (records : List NetworkTraceRecord) : List PhaseKey :=
  let maxNumFlits := records.foldl (fun m r => max m r.numFlits) 0
  (List.range maxNumFlits.toNat).flatMap fun i =>
    (records.filter fun r => (i : ℤ) < r.numFlits).map phaseKey

/-- The flits injected at all interfaces. -/
def injectedFlits (numNis : ℕ) (records : List NetworkTraceRecord) : List PhaseKey :=
  (List.range numNis).flatMap fun ni => injectionQueue (records.filter fun r => r.srcId = ni)

/-- The network delivers every flit once, in some order, after a positive number of ticks. -/
structure Delivers (flits : List PhaseKey) (arrivals : List (PhaseKey × ℕ)) : Prop where
  perm : (arrivals.map Prod.fst).Perm flits
  pos : ∀ a ∈ arrivals, 0 < a.2

/-! ## Statistics -/

/-- `add_phase_latency`; every flit is a packet of its own. -/
def addPhaseLatency (latencies : Dict PhaseKey (List ℕ)) (a : PhaseKey × ℕ) :
    Dict PhaseKey (List ℕ) :=
  latencies.set a.1 (latencies.getD a.1 [] ++ [a.2])

/-- `m_packet_phase_latencies`. -/
def packetPhaseLatencies (arrivals : List (PhaseKey × ℕ)) : Dict PhaseKey (List ℕ) :=
  arrivals.foldl addPhaseLatency .empty

/-- `MAX_NETWORKS`. -/
def maxNetworks : ℕ := 20

/-- `MAX_INPUTS`. -/
def maxInputs : ℕ := 20

/-- `MAX_PHASES`. -/
def maxPhases : ℕ := 500

/-- `regStats`: the phases with a statistic. -/
def regStats : List (ℕ × ℕ × ℕ) :=
  (List.range maxNetworks).flatMap fun net => (List.range maxInputs).flatMap fun inp =>
    (List.range maxPhases).map fun phase => (net, inp, phase)

/-- The key of a registered phase. -/
def keyOf (id : ℕ × ℕ × ℕ) : PhaseKey := (id.1, id.2.1, id.2.2)

/-- `m_phase_latency_stats.find(key) != m_phase_latency_stats.end()`. -/
def isRegistered (key : PhaseKey) : Bool :=
  decide (0 ≤ key.1 ∧ key.1 < maxNetworks ∧ 0 ≤ key.2.1 ∧ key.2.1 < maxInputs ∧
    0 ≤ key.2.2 ∧ key.2.2 < maxPhases)

/-- `collateStats`: the values of the statistics, which begin at zero. -/
def collateStats (latencies : Dict PhaseKey (List ℕ)) : PhaseKey → ℕ :=
  latencies.entries.foldl (fun stats e =>
    if !e.2.isEmpty && isRegistered e.1 then
      Function.update stats e.1 (e.2.foldl max 0)
    else stats) fun _ => 0

/-! ## Printing -/

/-- The name of the statistic of a phase. -/
def statName (id : ℕ × ℕ × ℕ) : List Char :=
  "system.ruby.network.phase_latency_".toList ++ Nat.toDigits 10 id.1 ++ '_' ::
    (Nat.toDigits 10 id.2.1 ++ '_' :: Nat.toDigits 10 id.2.2)

/-- `ScalarPrint` of a statistic with the flag `nozero` and without description: the name and the
value, then the columns of two percentages, which are blank, and the unit. -/
def scalarPrint (name : List Char) (value : ℕ) : Option String :=
  if value = 0 then none
  else some (String.ofList (name.rightpad 40 ' ' ++ ' ' ::
    ((Nat.toDigits 10 value).leftpad 12 ' ' ++
      (List.replicate 22 ' ' ++ " (Unspecified)".toList))))

/-- The lines of the phases. -/
def phaseLines (arrivals : List (PhaseKey × ℕ)) : List String :=
  let stats := collateStats (packetPhaseLatencies arrivals)
  regStats.filterMap fun id => scalarPrint (statName id) (stats (keyOf id))

/-! ## Reading -/

/-- What `_extract_garnet_stats` finds in the file. -/
structure GarnetStats where
  simTicks : Option ℚ
  averages : Dict String (Option ℚ)
  allPhaseLatencies : Dict (ℕ × ℕ × ℕ) ℚ

/-- The dictionary the statistics are kept in is empty. -/
def GarnetStats.isEmpty (s : GarnetStats) : Bool :=
  s.simTicks.isNone && s.averages.keys.isEmpty && s.allPhaseLatencies.keys.isEmpty

/-- No statistics. -/
def GarnetStats.empty : GarnetStats := ⟨none, .empty, .empty⟩

/-- The averages that are read, and the keys they are kept under. -/
def averageStats : List (String × String) :=
  [("system.ruby.network.average_packet_latency", "average_packet_latency"),
    ("system.ruby.network.average_packet_queueing_latency", "average_packet_queueing_latency"),
    ("system.ruby.network.average_packet_network_latency", "average_packet_network_latency"),
    ("system.ruby.network.packets_injected::total", "packets_injected"),
    ("system.ruby.network.packets_received::total", "packets_received"),
    ("system.ruby.network.average_hops", "average_hops")]

/-- The digits at the start of a text, as a number, and what follows. -/
def digitRun (s : List Char) : Option (ℕ × List Char) :=
  let run := s.takeWhile Char.isDigit
  if run.isEmpty then none
  else some (Nat.ofDigitChars 10 run 0, s.dropWhile Char.isDigit)

/-- The text after a given start. -/
def after (start s : List Char) : Option (List Char) :=
  if start.isPrefixOf s then some (s.drop start.length) else none

/-- `phase_latency_(\d+)_(\d+)_(\d+)` at the start of a text. -/
def matchPhase (s : List Char) : Option (ℕ × ℕ × ℕ) := do
  let s ← after "phase_latency_".toList s
  let (netIdx, s) ← digitRun s
  let s ← after ['_'] s
  let (inpIdx, s) ← digitRun s
  let s ← after ['_'] s
  let (phaseId, _) ← digitRun s
  return (netIdx, inpIdx, phaseId)

/-- `re.search`. -/
def searchPhase : List Char → Option (ℕ × ℕ × ℕ)
  | [] => none
  | c :: s => match matchPhase (c :: s) with
    | some id => some id
    | none => searchPhase s

/-- `float(parts[1])`. -/
def statValue (line : String) : Except PyError (Option ℚ) := do
  let text ← getIndex (split line) 1
  float text

/-- `float(parts[1])` of a number of ticks. -/
def ticksValue (line : String) : Except PyError ℚ := do
  match ← statValue line with
  | some ticks => return ticks
  -- numbers of ticks are finite
  | none => .error (.valueError "cannot convert float NaN to integer")

/-- One line of the file. -/
def extractLine (s : GarnetStats) (rawLine : String) : Except PyError GarnetStats := do
  let line := strip rawLine
  if startsWith line "simTicks" then
    let ticks ← ticksValue line
    return { s with simTicks := some ticks }
  else
    match averageStats.find? fun average => contains line average.1 with
    | some average =>
      let value ← statValue line
      return { s with averages := s.averages.set average.2 value }
    | none =>
      if contains line "system.ruby.network.phase_latency_" then
        match searchPhase line.toList with
        | some id =>
          let latency ← ticksValue line
          return { s with allPhaseLatencies := s.allPhaseLatencies.set id latency }
        | none => return s
      else return s

/-- `_extract_garnet_stats`: any exception leaves no statistics. -/
def extractGarnetStats (lines : List String) : GarnetStats :=
  match lines.foldlM extractLine GarnetStats.empty with
  | .ok s => s
  | .error _ => GarnetStats.empty

end Garnet

end ChipSim
