import Mathlib.Algebra.Group.Nat.Defs
import Mathlib.Data.List.Sort
import Mathlib.Data.Rat.Defs
import ChipSim.PyError

/-!
# Model definitions and their layer metrics

`process_model` turns a model definition (a dictionary of layers) into one metrics record per
layer: the counts of weights, multiply-accumulates and activations that the mapper, the traffic
calculator and the admission checks read.
-/

namespace ChipSim

open Lib

/-- The layer descriptions the simulator distinguishes; any other text is unsupported. -/
inductive LayerDescription
  | conv2d
  | conv1d
  | linear
  | selfAttention
  | other (text : String)
deriving DecidableEq, Repr

/-- The parameters of a layer definition; a missing key is `none`. -/
structure LayerParams where
  inputChannels : Option ℕ := none
  outputChannels : Option ℕ := none
  weightHeight : Option ℕ := none
  inputHeight : Option ℕ := none
  inputWidth : Option ℕ := none
  outputHeight : Option ℕ := none
  outputWidth : Option ℕ := none
deriving DecidableEq, Repr

/-- One layer of a model definition. -/
structure LayerDef where
  description : LayerDescription
  parameters : LayerParams
  receivingLayers : List ℤ := []
  name : Option String := none
deriving DecidableEq, Repr

/-- A model definition: its layers by index. -/
structure ModelDef where
  layers : Dict ℕ LayerDef

/-- The part of the metrics that depends on the layer type. -/
inductive LayerShape
  | conv (filterSize outChannels : ℕ)
  | conv1d (filterSize outChannels : ℕ)
  | fc (inFeatures outFeatures : ℕ)
  | selfAttention (outChannels seqLength : ℕ)
deriving DecidableEq, Repr

/-- The metrics of one layer. -/
structure LayerMetrics where
  name : String
  shape : LayerShape
  inputActivation : ℕ
  totalMacs : ℕ
  numWeights : ℕ
  crossbarsRequired : ℕ
  outputActivation : ℕ
deriving DecidableEq, Repr

namespace ModelProcessor

/-- The layer name `f"layer_{idx}"` of the metrics. -/
def layerName (idx : ℕ) : String := s!"layer_{idx}"

/-- `params[key]`. -/
def require (key : String) (v : Option ℕ) : Except PyError ℕ :=
  match v with
  | some n => .ok n
  | none => .error (.keyError key)

/-- The spatial size carried from one convolution to the next. -/
abbrev InputSize := Option (ℕ × ℕ)

/-- Metrics of a `Conv2d` layer. -/
def processConv2dLayer (name : String) (params : LayerParams) (current : InputSize) :
    Except PyError LayerMetrics := do
  let (inputHeight, inputWidth) ← match current with
    | some size => pure size
    | none => do
      let h ← require "input_height" params.inputHeight
      let w ← require "input_width" params.inputWidth
      pure (h * params.outputHeight.getD 1, w * params.outputWidth.getD 1)
  let inputChannels ← require "input_channels" params.inputChannels
  let outputChannels ← require "output_channels" params.outputChannels
  let kernelSize ← require "weight_height" params.weightHeight
  let outputHeight ← require "output_height" params.outputHeight
  let outputWidth ← require "output_width" params.outputWidth
  let numWeights := outputChannels * inputChannels * kernelSize ^ 2
  return {
    name := name
    shape := .conv (inputChannels * kernelSize ^ 2) outputChannels
    inputActivation := inputHeight * inputWidth * inputChannels
    totalMacs := outputChannels * outputHeight * outputWidth * kernelSize ^ 2 * inputChannels
    numWeights := numWeights
    crossbarsRequired := numWeights
    outputActivation := outputHeight * outputWidth * outputChannels }

/-- Metrics of a `Conv1D` layer. -/
def processConv1dLayer (name : String) (params : LayerParams) (current : InputSize) :
    Except PyError LayerMetrics := do
  let inputHeight ← match current with
    | some size => pure size.1
    | none => do
      let h ← require "input_height" params.inputHeight
      pure (h * params.outputHeight.getD 1)
  let inputChannels ← require "input_channels" params.inputChannels
  let outputChannels ← require "output_channels" params.outputChannels
  let kernelSize ← require "weight_height" params.weightHeight
  let outputHeight ← require "output_height" params.outputHeight
  let numWeights := outputChannels * inputChannels * kernelSize
  return {
    name := name
    shape := .conv1d (inputChannels * kernelSize) outputChannels
    inputActivation := inputHeight * inputChannels
    totalMacs := outputChannels * outputHeight * kernelSize * inputChannels
    numWeights := numWeights
    crossbarsRequired := numWeights
    outputActivation := outputHeight * outputChannels }

/-- Metrics of a `Linear` layer; `output_height` is the sequence length, 1 by default. -/
def processLinearLayer (name : String) (params : LayerParams) : Except PyError LayerMetrics := do
  let inFeatures ← require "input_channels" params.inputChannels
  let outFeatures ← require "output_channels" params.outputChannels
  let pDimension := params.outputHeight.getD 1
  let numWeights := outFeatures * inFeatures
  return {
    name := name
    shape := .fc inFeatures outFeatures
    inputActivation := inFeatures * pDimension
    totalMacs := outFeatures * inFeatures * pDimension
    numWeights := numWeights
    crossbarsRequired := numWeights
    outputActivation := outFeatures * pDimension }

/-- Metrics of a self-attention layer: no learnable weights, but `C * M` units of computation. -/
def processSelfAttentionLayer (name : String) (params : LayerParams) : LayerMetrics :=
  let cDim := params.inputChannels.getD 768
  let mDim := params.outputChannels.getD 197
  let pDim := params.outputHeight.getD 197
  { name := name
    shape := .selfAttention mDim pDim
    inputActivation := pDim * cDim
    totalMacs := pDim * cDim * mDim
    numWeights := 0
    crossbarsRequired := cDim * mDim
    outputActivation := pDim * mDim }

/-- The loop body of `process_model`: append the metrics of layer `idx`. -/
def processLayer (modelDef : ModelDef) (acc : List LayerMetrics × InputSize) (idx : ℕ) :
    Except PyError (List LayerMetrics × InputSize) := do
  let layer ← getItem modelDef.layers idx
  let params := layer.parameters
  -- both are read before the layer type is looked at
  let _ ← require "input_channels" params.inputChannels
  let _ ← require "output_channels" params.outputChannels
  match layer.description with
  | .conv2d => do
    let info ← processConv2dLayer (layerName idx) params acc.2
    return (acc.1 ++ [info], some (params.outputHeight.getD 0, params.outputWidth.getD 0))
  | .conv1d => do
    let info ← processConv1dLayer (layerName idx) params acc.2
    return (acc.1 ++ [info], some (params.outputHeight.getD 0, 1))
  | .linear => do
    let info ← processLinearLayer (layerName idx) params
    return (acc.1 ++ [info], acc.2)
  | .selfAttention => return (acc.1 ++ [processSelfAttentionLayer (layerName idx) params], acc.2)
  | .other text => .error (.valueError s!"Unsupported layer type: {text}")

/-- `process_model`: the metrics of all layers, in the order of their indices. -/
def processModel (modelDef : ModelDef) : Except PyError (List LayerMetrics) := do
  if modelDef.layers.keys.isEmpty then
    .error (.valueError ("Model definition must contain a non-empty 'layers' dictionary " ++
      "in the new format."))
  else do
    let indices := modelDef.layers.keys.insertionSort (· ≤ ·)
    let out ← indices.foldlM (processLayer modelDef) ([], none)
    return out.1

end ModelProcessor

end ChipSim
