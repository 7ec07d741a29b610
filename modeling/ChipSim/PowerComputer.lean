import Mathlib.Algebra.Order.Floor.Semiring
import Mathlib.Data.List.Sort
import Mathlib.Data.Rat.Floor
import ChipSim.MappedModel.Phases

/-!
# Power and energy

`compute_power_profile` spreads the power of every compute chunk and of every communication over
the time bins it overlaps; `compute_energy_metrics` integrates the profiles. Arrays are lists, one
entry for each time point.
-/

namespace ChipSim

open Lib

/-! ## Statistics of the network -/

/-- The power of a router. -/
structure RouterPower where
  dynamicPowerW : ℚ := 0
  leakagePowerW : ℚ := 0

/-- The power block of a DSENT entry: the routers that have one, and the power of all links. -/
structure NetworkPower where
  routers : List (ℕ × Option RouterPower)
  linkPowerW : ℚ := 0

/-- An entry of the DSENT statistics, one for each simulation of the communication. -/
structure DsentEntry where
  globalTimeUs : ℚ
  totalRuntimeS : Option ℚ
  totalRuntimeUs : Option ℚ
  power : Option NetworkPower

namespace DsentEntry

/-- The duration of the simulated communication, `0` if there is none. -/
def commRuntimeUs (e : DsentEntry) : ℚ :=
  match e.totalRuntimeS with
  | some runtime => runtime * 10 ^ 6
  | none => e.totalRuntimeUs.getD 0

/-- The end of the activity: after its duration, or without one with the next entry. -/
def endTime (globalTimeUs : ℚ) (e : DsentEntry) (next : Option DsentEntry) : ℚ :=
  if e.commRuntimeUs ≤ 0 then (next.map DsentEntry.globalTimeUs).getD globalTimeUs
  else min (e.globalTimeUs + e.commRuntimeUs) globalTimeUs

/-- All entries with their ends. -/
def withEndTimes (globalTimeUs : ℚ) : List DsentEntry → List (DsentEntry × ℚ)
  | [] => []
  | e :: rest => (e, e.endTime globalTimeUs rest.head?) :: withEndTimes globalTimeUs rest

/-- `sorted(dsent_stats, key=lambda x: x['global_time_us'])`. -/
def sorted (entries : List DsentEntry) : List DsentEntry :=
  entries.insertionSort fun e e' => e.globalTimeUs ≤ e'.globalTimeUs

end DsentEntry

/-- The total power of a router, if it has one. -/
def RouterPower.total (p : Option RouterPower) : ℚ :=
  match p with
  | some p => p.dynamicPowerW + p.leakagePowerW
  | none => 0

/-! ## Profiles -/

/-- The inputs of the power computer; `allChiplets` is a set. -/
structure PowerComputer where
  retiredMappedModels : Dict ℕ MappedModel
  globalTimeUs : ℚ
  numChiplets : ℕ
  allChiplets : List ℕ
  dsentStats : List DsentEntry
  allChiplets_nodup : allChiplets.Nodup

/-- The power of each chiplet in each time bin. -/
abbrev ChipletPower := Dict ℕ (List ℚ)

/-- The profiles of the system. -/
structure PowerProfile where
  powerTimeStepUs : ℚ
  powerTimePoints : List ℚ
  chipletCompute : ChipletPower
  chipletActivationComm : ChipletPower
  chipletWeightLoading : ChipletPower
  chipletCommunication : ChipletPower
  chipletTotal : ChipletPower
  systemCompute : List ℚ
  systemActivationComm : List ℚ
  systemWeightLoading : List ℚ
  systemCommunication : List ℚ
  systemTotal : List ℚ

namespace PowerComputer

/-- `np.zeros`. -/
def zeros (n : ℕ) : List ℚ := List.replicate n 0

/-- The sum of two arrays. -/
def addArrays (l l' : List ℚ) : List ℚ := List.zipWith (· + ·) l l'

/-- `np.sum(..., axis=0)`. -/
def sumArrays (n : ℕ) (ls : List (List ℚ)) : List ℚ := ls.foldl addArrays (zeros n)

/-- Add an activity to a profile: every time bin gets the amount for the part of the bin that the
activity covers. -/
def addActivity (numTimePoints : ℕ) (timeStepUs startTime endTime : ℚ) (amount : ℚ → ℚ)
    (profile : List ℚ) : List ℚ :=
  let startIdx := ⌊startTime / timeStepUs⌋₊
  let endIdx := min numTimePoints ⌈endTime / timeStepUs⌉₊
  (List.range' startIdx (endIdx - startIdx)).foldl (fun profile (t : ℕ) =>
    let binStart := t * timeStepUs
    let binEnd := binStart + timeStepUs
    let overlapDuration := max 0 (min endTime binEnd - max startTime binStart)
    if 0 < overlapDuration then
      profile.modify t fun power => power + amount (overlapDuration / timeStepUs)
    else profile) profile

/-- Change the profile of a chiplet of the system. -/
def updateChiplet (chipletId : ℕ) (f : List ℚ → List ℚ) (power : ChipletPower) : ChipletPower :=
  match power.get? chipletId with
  | some profile => power.set chipletId (f profile)
  | none => power

variable (pc : PowerComputer)

/-- The chiplets of the system; all that were used if their number is not configured. -/
def systemChiplets : List ℕ :=
  if 0 < pc.numChiplets then List.range' 1 pc.numChiplets else pc.allChiplets

/-- `len(np.arange(0, global_time_us + time_step_us, time_step_us))`. -/
def numTimePoints (timeStepUs : ℚ) : ℕ := ⌈(pc.globalTimeUs + timeStepUs) / timeStepUs⌉₊

/-- Profiles without power. -/
def noPower (timeStepUs : ℚ) : ChipletPower :=
  .comprehension pc.systemChiplets fun _ => zeros (pc.numTimePoints timeStepUs)

/-! ## Compute power -/

/-- The power of one chunk, from the start of its layer for its own latency. -/
def addChunk (timeStepUs startTime : ℚ) (power : ChipletPower) (chunk : ℕ × ℕ × ChunkResult) :
    ChipletPower :=
  let chunkEnergyFj := chunk.2.2.energyFj.getD 0
  if chunkEnergyFj ≤ 0 then power
  else
    let chunkLatencyUs := chunk.2.2.latencyUs.getD 0
    if chunkLatencyUs ≤ 0 then power
    else
      let chunkPowerW := chunkEnergyFj * (1 / 10 ^ 15) / (chunkLatencyUs * (1 / 10 ^ 6))
      updateChiplet chunk.1 (addActivity (pc.numTimePoints timeStepUs) timeStepUs startTime
        (startTime + chunkLatencyUs) fun part => chunkPowerW * part) power

/-- The chunks of one layer for one input, if a start of the layer is recorded. -/
def addLayer (timeStepUs : ℚ) (m : MappedModel) (i : ℕ) (power : ChipletPower) (l : ℕ) :
    ChipletPower :=
  match m.layerRecords.startTimeUs.get2? i l with
  | none => power
  | some startTime =>
    match m.chunkResults.get? l with
    | none => power
    | some chunks => chunks.entries.foldl (pc.addChunk timeStepUs startTime) power

/-- The compute power of all retired models. -/
def computePower (timeStepUs : ℚ) : ChipletPower :=
  pc.retiredMappedModels.values.foldl (fun power m =>
    (List.range m.numInputs).foldl (fun power i =>
      (List.range m.numLayers).foldl (pc.addLayer timeStepUs m i) power) power)
    (pc.noPower timeStepUs)

/-! ## Communication power -/

/-- The power of activations and of weight loading. -/
structure CommPower where
  activationComm : ChipletPower
  weightLoading : ChipletPower

/-- Communication power is attributed half to activations and half to weight loading. -/
def addComm (timeStepUs startTime endTime watts : ℚ) (power : CommPower) (chipletId : ℕ) :
    CommPower :=
  let add := addActivity (pc.numTimePoints timeStepUs) timeStepUs startTime endTime
    fun part => watts * part * (1 / 2)
  { activationComm := updateChiplet chipletId add power.activationComm
    weightLoading := updateChiplet chipletId add power.weightLoading }

/-- The power of the routers and of the links of one entry. The power of the links is distributed
evenly: no entry has the layer information, and no model the traffic, for anything else. -/
def addEntry (timeStepUs : ℚ) (power : CommPower) (x : DsentEntry × ℚ) : CommPower :=
  match x.1.power with
  | none => power
  | some data =>
    let add := pc.addComm timeStepUs x.1.globalTimeUs x.2
    let power := data.routers.foldl (fun power router =>
      if 0 < RouterPower.total router.2 then add (RouterPower.total router.2) power (router.1 + 1)
      else power) power
    if 0 < data.linkPowerW then
      let powerShare := data.linkPowerW / pc.systemChiplets.length
      if 0 < powerShare then pc.systemChiplets.foldl (add powerShare) power else power
    else power

/-- The entries in the order of their times, with their ends. -/
def timedEntries : List (DsentEntry × ℚ) :=
  DsentEntry.withEndTimes pc.globalTimeUs (DsentEntry.sorted pc.dsentStats)

/-- The communication power of all entries. -/
def commPower (timeStepUs : ℚ) : CommPower :=
  pc.timedEntries.foldl (pc.addEntry timeStepUs) ⟨pc.noPower timeStepUs, pc.noPower timeStepUs⟩

/-! ## The profile -/

/-- `compute_power_profile`. -/
def computePowerProfile (timeStepUs : ℚ) : PowerProfile :=
  if pc.systemChiplets.isEmpty then
    { powerTimeStepUs := timeStepUs
      powerTimePoints := []
      chipletCompute := .empty
      chipletActivationComm := .empty
      chipletWeightLoading := .empty
      chipletCommunication := .empty
      chipletTotal := .empty
      systemCompute := []
      systemActivationComm := []
      systemWeightLoading := []
      systemCommunication := []
      systemTotal := [] }
  else
    let n := pc.numTimePoints timeStepUs
    let compute := pc.computePower timeStepUs
    let comm := pc.commPower timeStepUs
    let systemCompute := sumArrays n compute.values
    let systemActivationComm := sumArrays n comm.activationComm.values
    let systemWeightLoading := sumArrays n comm.weightLoading.values
    { powerTimeStepUs := timeStepUs
      powerTimePoints := (List.range n).map fun t => t * timeStepUs
      chipletCompute := compute
      chipletActivationComm := comm.activationComm
      chipletWeightLoading := comm.weightLoading
      chipletCommunication := .comprehension pc.systemChiplets fun cid =>
        addArrays (comm.activationComm.getD cid (zeros n)) (comm.weightLoading.getD cid (zeros n))
      chipletTotal := .comprehension pc.systemChiplets fun cid =>
        addArrays (addArrays (compute.getD cid (zeros n)) (comm.activationComm.getD cid (zeros n)))
          (comm.weightLoading.getD cid (zeros n))
      systemCompute := systemCompute
      systemActivationComm := systemActivationComm
      systemWeightLoading := systemWeightLoading
      systemCommunication := addArrays systemActivationComm systemWeightLoading
      systemTotal := addArrays (addArrays systemCompute systemActivationComm) systemWeightLoading }

end PowerComputer

/-! ## Energy -/

/-- The energies of the chiplets and of the system, in microjoule. -/
structure EnergyMetrics where
  chipletComputeEnergyUj : Dict ℕ ℚ
  chipletActivationCommEnergyUj : Dict ℕ ℚ
  chipletWeightLoadingEnergyUj : Dict ℕ ℚ
  chipletCommunicationEnergyUj : Dict ℕ ℚ
  chipletTotalEnergyUj : Dict ℕ ℚ
  systemComputeEnergyUj : ℚ
  systemActivationCommEnergyUj : ℚ
  systemWeightLoadingEnergyUj : ℚ
  systemCommunicationEnergyUj : ℚ
  systemTotalEnergyUj : ℚ

namespace EnergyComputer

/-- `np.isclose` with its default tolerances. -/
def isClose (a b : ℚ) : Bool := decide (|a - b| ≤ 1 / 10 ^ 8 + 1 / 10 ^ 5 * |b|)

/-- The energies of the chiplets. -/
def chipletEnergy (timeStepUs : ℚ) (power : ChipletPower) : Dict ℕ ℚ :=
  power.mapValues fun _ profile => profile.sum * timeStepUs

/-- `compute_energy_metrics`; nothing is computed for an invalid time step. -/
def computeEnergyMetrics (p : PowerProfile) : Except PyError (Option EnergyMetrics) :=
  if p.powerTimeStepUs ≤ 0 then .ok none
  else
    let timeStepUs := p.powerTimeStepUs
    let activation := chipletEnergy timeStepUs p.chipletActivationComm
    let weight := chipletEnergy timeStepUs p.chipletWeightLoading
    let systemCompute := p.systemCompute.sum * timeStepUs
    let systemActivation := p.systemActivationComm.sum * timeStepUs
    let systemWeight := p.systemWeightLoading.sum * timeStepUs
    let systemTotal := p.systemTotal.sum * timeStepUs
    if isClose systemTotal (systemCompute + systemActivation + systemWeight) then
      .ok (some
        { chipletComputeEnergyUj := chipletEnergy timeStepUs p.chipletCompute
          chipletActivationCommEnergyUj := activation
          chipletWeightLoadingEnergyUj := weight
          chipletCommunicationEnergyUj := .comprehension (activation.keys ++ weight.keys)
            fun cid => activation.getD cid 0 + weight.getD cid 0
          chipletTotalEnergyUj := chipletEnergy timeStepUs p.chipletTotal
          systemComputeEnergyUj := systemCompute
          systemActivationCommEnergyUj := systemActivation
          systemWeightLoadingEnergyUj := systemWeight
          systemCommunicationEnergyUj := systemActivation + systemWeight
          systemTotalEnergyUj := systemTotal })
    else .error (.assertionError
      "System total energy does not match the sum of compute and communication energy components.")

end EnergyComputer

end ChipSim
