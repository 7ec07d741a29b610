import ChipSim.MappedModel.Timing

/-!
# Per-layer records

`sync_phase_metrics_to_layers` copies what the phase instances know into the per-layer records
read by the post-processing; `mark_layers_without_communication` marks layers that send nothing.
-/

namespace ChipSim

open Lib

namespace LayerRecords

/-- The type-specific part of the synchronisation of one phase instance. -/
def syncMetrics (r : LayerRecords) (i : ℕ) (phase : Phase) (x : PhaseInstance) : LayerRecords :=
  match phase.kind with
  | .compute l =>
    { r with
      computeLatency := r.computeLatency.set2 i l x.latencyUs
      computeEnergy := r.computeEnergy.set2 i l x.energyFj }
  | .activationComm l _ =>
    { r with
      activationCommLatency := r.activationCommLatency.set2 i l x.latencyUs
      activationCommLatencyHistory := r.activationCommLatencyHistory.set2 i l x.latencyHistory
      activationCommIsActive := r.activationCommIsActive.set2 i l x.isActive }
  | .weightLoading ls _ =>
    ls.foldl (fun r l =>
      { r with
        weightLoadingLatency := r.weightLoadingLatency.set2 i l x.latencyUs
        weightLoadingLatencyHistory := r.weightLoadingLatencyHistory.set2 i l x.latencyHistory
        weightLoadingIsActive := r.weightLoadingIsActive.set2 i l x.isActive }) r

/-- The earliest start: written when unset, or when the new start is earlier. -/
def syncStart (r : LayerRecords) (i l : ℕ) (x : PhaseInstance) : LayerRecords :=
  if 0 ≤ x.startTimeUs then
    match r.startTimeUs.get2? i l with
    | none => { r with startTimeUs := r.startTimeUs.set2 i l x.startTimeUs }
    | some t =>
      if t < 0 ∨ x.startTimeUs < t then
        { r with startTimeUs := r.startTimeUs.set2 i l x.startTimeUs }
      else r
  else r

/-- The latest completion. -/
def syncCompletion (r : LayerRecords) (i l : ℕ) (x : PhaseInstance) : LayerRecords :=
  if 0 ≤ x.completionTimeUs then
    match r.completionTimeUs.get2? i l with
    | none => { r with completionTimeUs := r.completionTimeUs.set2 i l x.completionTimeUs }
    | some t =>
      if t < x.completionTimeUs then
        { r with completionTimeUs := r.completionTimeUs.set2 i l x.completionTimeUs }
      else r
  else r

/-- The synchronisation of one phase instance. -/
def syncPhase (r : LayerRecords) (i : ℕ) (phase : Phase) (x : PhaseInstance) : LayerRecords :=
  phase.layerIndices.foldl (fun r l => (r.syncStart i l x).syncCompletion i l x)
    (r.syncMetrics i phase x)

/-- The traffic of a phase, copied to its layers when it is not empty. -/
def syncTraffic (r : LayerRecords) (phase : Phase) : LayerRecords :=
  match phase.kind with
  | .activationComm l (some t) =>
    if t.entries.isEmpty then r
    else { r with activationCommTraffic := r.activationCommTraffic.set l t }
  | .weightLoading ls (some t) =>
    if t.entries.isEmpty then r
    else ls.foldl (fun r l =>
      { r with weightLoadingTraffic := r.weightLoadingTraffic.set l t }) r
  | _ => r

/-- Mark a layer as sending nothing for one input. -/
def markNoCommunication (r : LayerRecords) (i l : ℕ) : LayerRecords :=
  { r with
    activationCommLatency := r.activationCommLatency.set2 i l (-1)
    activationCommLatencyHistory := r.activationCommLatencyHistory.set2 i l []
    activationCommIsActive := r.activationCommIsActive.set2 i l false
    activationCommTraffic :=
      if l ∈ r.activationCommTraffic then r.activationCommTraffic
      else r.activationCommTraffic.set l .empty }

end LayerRecords

namespace MappedModel

/-- The synchronisation of one input: all phases with an instance, in insertion order. -/
def syncInput (m : MappedModel) (r : LayerRecords) (i : ℕ) : LayerRecords :=
  m.phases.entries.foldl (fun r e =>
    match m.instance? i e.1 with
    | some x => r.syncPhase i e.2 x
    | none => r) r

/-- `sync_phase_metrics_to_layers`. -/
def syncPhaseMetricsToLayers (m : MappedModel) : MappedModel :=
  let r := (List.range m.numInputs).foldl m.syncInput m.layerRecords
  { m with layerRecords := m.phases.values.foldl LayerRecords.syncTraffic r }

/-- The layer has no activation phase, or one without traffic. -/
def sendsNothing (m : MappedModel) (l : ℕ) : Bool :=
  match m.layerToActivationCommPhase.get? l with
  | none => true
  | some a =>
    match (m.phases.get? a).bind Phase.traffic with
    | none => true
    | some t => !hasNonzeroTraffic t

/-- `mark_layers_without_communication`. -/
def markLayersWithoutCommunication (m : MappedModel) : MappedModel :=
  { m with
    layerRecords := (List.range m.numInputs).foldl (fun r i =>
      (List.range m.numLayers).foldl (fun r l =>
        if m.sendsNothing l then r.markNoCommunication i l else r) r) m.layerRecords }

/-- `record_co_active_traffic`. -/
def recordCoActiveTraffic (m : MappedModel) (callId : ℕ) (g : ℚ) (phases : List CoActivePhase) :
    MappedModel :=
  { m with
    communicationCoActiveTraffic := m.communicationCoActiveTraffic.set callId (g, phases) }

end MappedModel

end ChipSim
