import ChipSim.Lib.DictLoops
import ChipSim.MappedModel.Phases

/-!
# Model summary computer

The summary of a retired model adds up its per-layer records: the latencies of all layers of an
input, input by input, the compute energy, and the packets of all layers. Assertions guard the
result.
-/

namespace ChipSim

open Lib

namespace ModelSummaryComputer

/-- The sum of the values that are positive. -/
def positiveSum (d : Dict ℕ ℚ) : ℚ := d.sumOf fun v => if 0 < v then v else 0

/-- The sum of the values that are not negative. -/
def nonNegativeSum (d : Dict ℕ ℚ) : ℚ := d.sumOf fun v => if 0 ≤ v then v else 0

/-- The packets of a traffic matrix. -/
def packets (t : TrafficMatrixDict) : ℕ := t.sumOf fun dests => dests.sumOf id

/-- The packets of all layers. -/
def totalTraffic (d : Dict ℕ TrafficMatrixDict) : ℕ := d.sumOf packets

/-- The latencies of one input, summed over the layers. -/
structure InputLatencies where
  compute : ℚ
  activationComm : ℚ
  weightLoading : ℚ

namespace InputLatencies

/-- The latencies an input has in the per-layer records. -/
def ofRecords (r : LayerRecords) (i : ℕ) : InputLatencies where
  compute := positiveSum (r.computeLatency.getD i .empty)
  activationComm := positiveSum (r.activationCommLatency.getD i .empty)
  weightLoading := positiveSum (r.weightLoadingLatency.getD i .empty)

/-- The input has a positive latency. -/
def valid (x : InputLatencies) : Bool :=
  decide (0 < x.compute ∨ 0 < x.activationComm ∨ 0 < x.weightLoading)

/-- The total latency of the input. -/
def total (x : InputLatencies) : ℚ := x.compute + x.activationComm + x.weightLoading

end InputLatencies

/-- The accumulators of the loop over the inputs. -/
structure Totals where
  maxTotal : ℚ := 0
  maxCompute : ℚ := 0
  maxActivationComm : ℚ := 0
  maxWeightLoading : ℚ := 0
  sumCompute : ℚ := 0
  sumActivationComm : ℚ := 0
  sumWeightLoading : ℚ := 0
  computeEnergy : ℚ := 0
  numValidInputs : ℕ := 0

/-- Count a valid input. -/
def Totals.addLatencies (t : Totals) (x : InputLatencies) : Totals :=
  if x.valid then
    { t with
      maxTotal := max t.maxTotal x.total
      maxCompute := max t.maxCompute x.compute
      maxActivationComm := max t.maxActivationComm x.activationComm
      maxWeightLoading := max t.maxWeightLoading x.weightLoading
      sumCompute := t.sumCompute + x.compute
      sumActivationComm := t.sumActivationComm + x.activationComm
      sumWeightLoading := t.sumWeightLoading + x.weightLoading
      numValidInputs := t.numValidInputs + 1 }
  else t

/-- The loop body over the inputs. -/
def Totals.addInput (r : LayerRecords) (t : Totals) (i : ℕ) : Totals :=
  let t := t.addLatencies (.ofRecords r i)
  { t with computeEnergy := t.computeEnergy + nonNegativeSum (r.computeEnergy.getD i .empty) }

/-- The duration of a model, `-1` if it is not known. -/
def overallModelDuration (m : MappedModel) : ℚ :=
  if 0 ≤ m.modelStartTimeUs ∧ m.modelStartTimeUs ≤ m.modelCompletionTimeUs then
    m.modelCompletionTimeUs - m.modelStartTimeUs
  else if 0 ≤ m.modelStartTimeUs then
    match maxOf (m.inputCompletionTimeUs.filter (0 ≤ ·)) with
    | .ok latest => latest - m.modelStartTimeUs
    | .error _ => -1
  else -1

/-- The summary of a model. -/
structure ModelSummary where
  maxSingleInputTotalLatency : ℚ
  maxSingleInputComputeLatency : ℚ
  maxSingleInputActivationCommLatency : ℚ
  maxSingleInputWeightLoadingLatency : ℚ
  sumComputeLatencyAllInputs : ℚ
  sumActivationCommLatencyAllInputs : ℚ
  sumWeightLoadingLatencyAllInputs : ℚ
  totalComputeEnergyAllInputs : ℚ
  totalModelLatencySummedWork : ℚ
  totalActivationCommTraffic : ℕ
  totalWeightLoadingTraffic : ℕ
  overallModelDuration : ℚ

/-- `assert condition, message`. -/
def assertThat (condition : Bool) (message : String) : Except PyError Unit :=
  if condition then .ok () else .error (.assertionError message)

/-- The summary of one model. -/
def summarize (modelIdx : ℕ) (m : MappedModel) : Except PyError ModelSummary := do
  let name := m.modelName
  let numInputs := m.numInputs
  let r := m.layerRecords
  assertThat (0 < numInputs)
    s!"ERROR: Model {modelIdx} ({name}) has invalid num_inputs: {numInputs}"
  assertThat ((List.range numInputs).any (· ∈ r.computeLatency))
    s!"ERROR: Model {modelIdx} ({name}) has no valid compute latency data for any input"
  assertThat ((List.range numInputs).any (· ∈ r.activationCommLatency))
    (s!"ERROR: Model {modelIdx} ({name}) has no valid activation communication latency data " ++
      "for any input")
  assertThat ((List.range numInputs).any (· ∈ r.weightLoadingLatency))
    s!"ERROR: Model {modelIdx} ({name}) has no valid weight loading latency data for any input"
  let t := (List.range numInputs).foldl (Totals.addInput r) {}
  assertThat (0 < t.numValidInputs)
    s!"ERROR: Model {modelIdx} ({name}) has no inputs with valid latency data"
  let summedWork := t.sumCompute + t.sumActivationComm + t.sumWeightLoading
  assertThat (0 < summedWork) s!"ERROR: Model {modelIdx} ({name}) has zero total latency"
  return {
    maxSingleInputTotalLatency := t.maxTotal
    maxSingleInputComputeLatency := t.maxCompute
    maxSingleInputActivationCommLatency := t.maxActivationComm
    maxSingleInputWeightLoadingLatency := t.maxWeightLoading
    sumComputeLatencyAllInputs := t.sumCompute
    sumActivationCommLatencyAllInputs := t.sumActivationComm
    sumWeightLoadingLatencyAllInputs := t.sumWeightLoading
    totalComputeEnergyAllInputs := t.computeEnergy
    totalModelLatencySummedWork := summedWork
    totalActivationCommTraffic := totalTraffic r.activationCommTraffic
    totalWeightLoadingTraffic := totalTraffic r.weightLoadingTraffic
    overallModelDuration := overallModelDuration m }

/-- `compute_model_summary_metrics`. -/
def computeModelSummaryMetrics (retired : Dict ℕ MappedModel) :
    Except PyError (Dict ℕ ModelSummary) := do
  assertThat (!retired.entries.isEmpty)
    "ERROR: No retired models found. Metrics cannot be computed."
  let metrics ← retired.entries.foldlM (fun d e => do
    return d.set e.1 (← summarize e.1 e.2)) .empty
  let computed := metrics.entries.length
  let total := retired.entries.length
  assertThat (computed = total)
    s!"ERROR: Metrics computed for only {computed} models out of {total}"
  return metrics

end ModelSummaryComputer

end ChipSim
