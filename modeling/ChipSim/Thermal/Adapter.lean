import Mathlib.Algebra.Order.Ring.Unbundled.Rat
import Mathlib.Data.List.Sort
import ChipSim.PyError

/-!
# The thermal adapter

The thermal model reads its power traces as percentages of a maximum, one row for each block of
the power configuration. The adapter turns the watts of every chiplet into such a row, and writes
the maxima into the configuration. Numbers are exact: the twelve digits of the written percentages
are not part of the model.
-/

namespace ChipSim

open Lib

namespace Thermal

/-! ## Power sequences -/

/-- One field of a power sequence: a number, or text that `float` rejects or reads as an infinity
or not a number. -/
inductive Cell
  | number (value : ℚ)
  | nonFinite (repr : String)
  | nonNumeric (repr : String)
deriving DecidableEq

/-- A row of the power sequence: the name of a block and its values. -/
structure PowerRow where
  name : String
  values : List Cell
deriving DecidableEq

/-- `V1_BLOCK_NAME`. -/
def v1BlockName : String := "total"

/-- `chiplet_name`. -/
def chipletName (chipletId : ℤ) : String := "chiplet_" ++ toString chipletId

/-- `power_row_key`. -/
def powerRowKey (powerLayer : String) (chipletId : ℤ) (blockName : String) : String :=
  powerLayer ++ "_" ++ chipletName chipletId ++ "_" ++ blockName

/-- What the adapter notes about one chiplet. -/
structure ChipletMetadata where
  chipletId : String
  chipletName : String
  blockName : String
  rowKey : String
  maxPowerW : ℚ
  numSamples : ℕ
  zeroPower : Bool
deriving DecidableEq

/-- The rows made of the traces, with the maxima of the chiplets. -/
structure PowerTraceConversion where
  rows : List PowerRow := []
  maxPowerWByChiplet : Dict ℤ ℚ := .empty
  zeroPowerChiplets : List ℤ := []
  chipletMetadata : Dict String ChipletMetadata := .empty
  numTimePoints : ℕ := 0

/-- `_coerce_power_trace`, for a trace of numbers. -/
def coercePowerTrace (chipletId : ℤ) (trace : List ℚ) : Except PyError (List ℚ) :=
  if trace.isEmpty then
    .error (.runtimeError s!"Power trace for chiplet {chipletId} is empty.")
  else if trace.any (· < 0) then
    .error (.runtimeError s!"Power trace for chiplet {chipletId} contains negative watt values.")
  else .ok trace

/-- All traces have the length of the first one. -/
def checkLength (expected : Option ℕ) (chipletId : ℤ) (length : ℕ) : Except PyError Unit :=
  match expected with
  | none => .ok ()
  | some n =>
    if length = n then .ok ()
    else .error (.runtimeError
      ("All chiplet power traces must have the same length. " ++
        s!"Expected {n} samples, but chiplet {chipletId} has {length} samples."))

/-- The values of a row: all zero for a chiplet that never uses power. -/
def percentValues (maxPowerW : ℚ) (trace : List ℚ) : List ℚ :=
  if maxPowerW = 0 then trace.map fun _ => 0
  else trace.map fun powerW => powerW / maxPowerW * 100

/-- One chiplet of `convert_watts_to_percent_rows`. The state is the conversion so far and the
length of the first trace. -/
def convertTrace (traces : Dict ℤ (List ℚ)) (powerLayer blockName : String)
    (acc : PowerTraceConversion × Option ℕ) (chipletId : ℤ) :
    Except PyError (PowerTraceConversion × Option ℕ) := do
  let trace ← coercePowerTrace chipletId (← getItem traces chipletId)
  checkLength acc.2 chipletId trace.length
  let maxPowerW ← maxOf trace
  let rowKey := powerRowKey powerLayer chipletId blockName
  return ({ acc.1 with
    rows := acc.1.rows ++ [⟨rowKey, (percentValues maxPowerW trace).map .number⟩]
    maxPowerWByChiplet := acc.1.maxPowerWByChiplet.set chipletId maxPowerW
    zeroPowerChiplets :=
      if maxPowerW = 0 then acc.1.zeroPowerChiplets ++ [chipletId] else acc.1.zeroPowerChiplets
    chipletMetadata := acc.1.chipletMetadata.set (toString chipletId)
      { chipletId := toString chipletId
        chipletName := chipletName chipletId
        blockName := blockName
        rowKey := rowKey
        maxPowerW := maxPowerW
        numSamples := trace.length
        zeroPower := maxPowerW = 0 } },
    some (acc.2.getD trace.length))

/-- `convert_watts_to_percent_rows`. -/
def convertWattsToPercentRows (traces : Dict ℤ (List ℚ)) (powerLayer : String)
    (blockName : String := v1BlockName) : Except PyError PowerTraceConversion := do
  let acc ← (traces.keys.insertionSort (· ≤ ·)).foldlM (convertTrace traces powerLayer blockName)
    ({}, none)
  return { acc.1 with numTimePoints := acc.2.getD 0 }

/-! ## The power configuration -/

/-- A block of a chiplet; its maximum may be missing until the adapter writes it. -/
structure BlockConfig where
  startPointX : ℚ
  startPointY : ℚ
  lengthX : ℚ
  lengthY : ℚ
  maxPower : Option ℚ
deriving DecidableEq

/-- A chiplet, with its blocks if it is a power source. -/
structure ChipletConfig where
  startChipletX : ℚ
  startChipletY : ℚ
  layoutBlocks : Option (Dict String BlockConfig)

/-- The chiplets of a layer by name. -/
abbrev LayerConfig := Dict String ChipletConfig

/-- The layers by name. -/
abbrev PowerConfig := Dict String LayerConfig

/-- Write the maximum of one chiplet into its block. -/
def setMaxPower (powerLayer : String) (layer : LayerConfig) (e : ℤ × ℚ) :
    Except PyError LayerConfig :=
  let name := chipletName e.1
  match layer.get? name with
  | none => .error (.runtimeError
      (s!"Thermal power_config_file is missing chiplet '{name}' " ++
        s!"under layer '{powerLayer}'."))
  | some chiplet =>
    match chiplet.layoutBlocks with
    | none => .error (.runtimeError
        (s!"Thermal power_config_file chiplet '{name}' must define " ++
          "layout_blocks for v1 granularity 'chiplet_total'."))
    | some blocks =>
      match blocks.get? v1BlockName with
      | none => .error (.runtimeError
          (s!"Thermal power_config_file chiplet '{name}' must define " ++
            "block 'total' for v1 granularity 'chiplet_total'."))
      | some block =>
        .ok (layer.set name { chiplet with
          layoutBlocks := some (blocks.set v1BlockName { block with maxPower := some e.2 }) })

/-- `_write_resolved_power_config`: the configuration that is written. -/
def writeResolvedPowerConfig (powerConfigFile : String) (config : PowerConfig)
    (maxPowerWByChiplet : Dict ℤ ℚ) (powerLayer : String) : Except PyError PowerConfig :=
  match config.get? powerLayer with
  | none => .error (.runtimeError
      (s!"Thermal power_config_file does not contain layer '{powerLayer}': " ++ powerConfigFile))
  | some layer => do
    let layer ← maxPowerWByChiplet.entries.foldlM (setMaxPower powerLayer) layer
    return config.set powerLayer layer

/-! ## Time controls -/

/-- The time settings of the `thermal` section, all of them optional. -/
structure ThermalConfig where
  timeStepS : Option ℚ := none
  powerIntervalS : Option ℚ := none
  totalDurationS : Option ℚ := none
  timeHeatmapS : Option ℚ := none

/-- The time controls the thermal model is started with. -/
structure TimeControls where
  timeStepS : ℚ
  powerIntervalS : ℚ
  totalDurationS : ℚ
  timeHeatmapS : ℚ
deriving DecidableEq

/-- `self.time_step_us` of the global manager. -/
def timeStepUs : ℚ := 1

/-- `_num_power_time_points`: the length of the first trace. -/
def numPowerTimePoints (traces : Dict ℤ (List ℚ)) : ℕ :=
  match traces.values with
  | [] => 0
  | trace :: _ => trace.length

/-- `_thermal_time_controls`. -/
def thermalTimeControls (t : ThermalConfig) (traces : Dict ℤ (List ℚ)) : TimeControls :=
  let timeStepS := t.timeStepS.getD (timeStepUs / 1000000)
  let powerIntervalS := t.powerIntervalS.getD timeStepS
  let totalDurationS := t.totalDurationS.getD (numPowerTimePoints traces * powerIntervalS)
  { timeStepS := timeStepS
    powerIntervalS := powerIntervalS
    totalDurationS := totalDurationS
    timeHeatmapS := t.timeHeatmapS.getD totalDurationS }

end Thermal

end ChipSim
