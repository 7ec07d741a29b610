import ChipSim.Lib.Round
import ChipSim.MappedModel.Phases

/-!
# Partitioning layers

A mapped layer is cut along its output channels, one chunk for every chiplet in proportion to its
share; rounding errors are then moved to the smallest chunk or taken from the largest ones.
-/

namespace ChipSim

open Lib

/-- A layer definition cut down to the part of one chiplet. -/
structure PartitionedLayer where
  layerDef : LayerDef
  name : String
  percentage : ℚ
  totalMacs : Option ℚ
  outputChannels : ℤ

namespace LayerPartitioner

/-- The text of a layer description. -/
def descriptionText : LayerDescription → String
  | .conv2d => "Conv2d"
  | .conv1d => "Conv1D"
  | .linear => "Linear"
  | .selfAttention => "SelfAttention"
  | .other text => text

/-- The chunk of one chiplet before the rounding errors are adjusted. -/
def cutLayer (layerDef : LayerDef) (totalMacs : Option ℕ) (share : ℕ × ℚ) :
    ℕ × PartitionedLayer :=
  let base := layerDef.name.getD (descriptionText layerDef.description)
  let chipletId := share.1
  let original : ℕ := layerDef.parameters.outputChannels.getD 1
  (chipletId,
    { layerDef := layerDef
      name := s!"{base}_chiplet{chipletId}"
      percentage := share.2
      totalMacs := totalMacs.map fun macs => macs * (share.2 / 100)
      outputChannels := max 1 (roundHalfEven (original * share.2 / 100)) })

/-- Change the output channels of one chunk. -/
def setChannels (chunks : List (ℕ × PartitionedLayer)) (idx : ℕ) (channels : ℤ) :
    List (ℕ × PartitionedLayer) :=
  chunks.modify idx fun c => (c.1, { c.2 with outputChannels := channels })

/-- The first index with the smallest number of channels. -/
def smallestChunk (channels : List ℤ) : Option (ℕ × ℤ) :=
  channels.zipIdx.foldl (fun best e =>
    match best with
    | none => some (e.2, e.1)
    | some b => if e.1 < b.2 then some (e.2, e.1) else best) none

/-- The first index with the largest positive number of channels. -/
def largestChunk (channels : List ℤ) : Option (ℕ × ℤ) :=
  channels.zipIdx.foldl (fun best e =>
    if (best.map Prod.snd).getD 0 < e.1 then some (e.2, e.1) else best) none

/-- `_distribute_remaining_difference`: take what is left from the other chunks, largest first. -/
def distributeRemainingDifference (chunks : List (ℕ × PartitionedLayer)) (excluded : ℕ)
    (remaining : ℤ) : List (ℕ × PartitionedLayer) :=
  let order := ((chunks.zipIdx.map fun e => (e.2, e.1.2.outputChannels)).filter
    (·.1 ≠ excluded)).insertionSort fun a b => b.2 ≤ a.2
  (order.foldl (fun acc e =>
    let canReduce := min (e.2 - 1) |acc.2|
    if acc.2 ≠ 0 ∧ 0 < canReduce then
      (setChannels acc.1 e.1 (e.2 - canReduce), acc.2 + canReduce)
    else acc) (chunks, remaining)).1

/-- `_adjust_for_rounding_errors`. -/
def adjustForRoundingErrors (original : ℤ) (chunks : List (ℕ × PartitionedLayer)) :
    List (ℕ × PartitionedLayer) :=
  let channels := chunks.map (·.2.outputChannels)
  let difference := original - channels.sum
  if difference = 0 then chunks
  else if 0 < difference then
    match smallestChunk channels with
    | none => chunks
    | some (idx, value) => setChannels chunks idx (value + difference)
  else
    match largestChunk channels with
    | none => chunks
    | some (idx, value) =>
      let newValue := max 1 (value + difference)
      let chunks := setChannels chunks idx newValue
      let remaining := difference - (newValue - value)
      if remaining < 0 then distributeRemainingDifference chunks idx remaining else chunks

/-- `partition_layer`. -/
def partitionLayer (layerDef : LayerDef) (totalMacs : Option ℕ) (shares : List (ℕ × ℚ)) :
    List (ℕ × PartitionedLayer) :=
  adjustForRoundingErrors (layerDef.parameters.outputChannels.getD 1)
    (shares.map (cutLayer layerDef totalMacs))

end LayerPartitioner

end ChipSim
