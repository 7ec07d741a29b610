import ChipSim.Lib.Round
import ChipSim.PyString
import ChipSim.Thermal.Adapter

/-!
# The power grid of the thermal model

The thermal model builds its power blocks from the configuration and checks the power sequence
against them: one row for each block, all of the same length, which is the number of power
intervals in the simulated time. Each block then takes its row as fractions of its maximum.
-/

namespace ChipSim

open Lib

namespace Thermal

/-! ## Arguments -/

/-- `--simulation_type`. -/
inductive SimulationType
  | transient
  | steady
deriving DecidableEq

/-- The arguments of the thermal model that the power grid reads. -/
structure Args where
  powerSeqFile : String
  simulationType : SimulationType
  timeStep : ℚ
  powerInterval : ℚ
  totalDuration : ℚ
  timeHeatmap : ℚ

/-- The command line built from the time controls. -/
def Args.ofTimeControls (powerSeqFile : String) (simulationType : SimulationType)
    (t : TimeControls) : Args where
  powerSeqFile := powerSeqFile
  simulationType := simulationType
  timeStep := t.timeStepS
  powerInterval := t.powerIntervalS
  totalDuration := t.totalDurationS
  timeHeatmap := t.timeHeatmapS

/-! ## Layers, chiplets and blocks -/

/-- `Power_block`. -/
structure PowerBlock where
  name : String
  x : ℚ
  y : ℚ
  lengthX : ℚ
  lengthY : ℚ
  maxPower : ℚ
deriving DecidableEq

/-- The constructor of `Power_block`. -/
def PowerBlock.new (chipletX chipletY : ℚ) (e : String × BlockConfig) :
    Except PyError PowerBlock :=
  match e.2.maxPower with
  | none => .error (.keyError "max_power")
  | some maxPower => .ok
    { name := e.1
      x := e.2.startPointX + chipletX
      y := e.2.startPointY + chipletY
      lengthX := e.2.lengthX
      lengthY := e.2.lengthY
      maxPower := maxPower }

/-- `Power_chiplet`. -/
structure PowerChiplet where
  name : String
  chipletX : ℚ
  chipletY : ℚ
  isPowerSrc : Bool
  powerBlocks : List PowerBlock
deriving DecidableEq

/-- The constructor of `Power_chiplet`. -/
def PowerChiplet.new (e : String × ChipletConfig) : Except PyError PowerChiplet :=
  match e.2.layoutBlocks with
  | none => .ok
    { name := e.1
      chipletX := e.2.startChipletX
      chipletY := e.2.startChipletY
      isPowerSrc := false
      powerBlocks := [] }
  | some blocks => do
    let powerBlocks ← blocks.entries.mapM (PowerBlock.new e.2.startChipletX e.2.startChipletY)
    return {
      name := e.1
      chipletX := e.2.startChipletX
      chipletY := e.2.startChipletY
      isPowerSrc := true
      powerBlocks := powerBlocks }

/-- `Power_layer`. -/
structure PowerLayer where
  name : String
  powerChiplets : List PowerChiplet
deriving DecidableEq

/-- The constructor of `Power_layer`: the chiplets in the order of their `x`, then their `y`. -/
def PowerLayer.new (e : String × LayerConfig) : Except PyError PowerLayer := do
  let chiplets ← e.2.entries.mapM PowerChiplet.new
  let sortedByY := chiplets.insertionSort fun a b => a.chipletY ≤ b.chipletY
  return {
    name := e.1
    powerChiplets := sortedByY.insertionSort fun a b => a.chipletX ≤ b.chipletX }

/-- The name of the row of a block. -/
def powerSeqName (layerName chipletName blockName : String) : String :=
  layerName ++ "_" ++ chipletName ++ "_" ++ blockName

/-! ## Reading the fields of a row -/

/-- `float(value)`; `none` is an infinity or not a number. -/
def Cell.float : Cell → Except PyError (Option ℚ)
  | .number v => .ok (some v)
  | .nonFinite _ => .ok none
  | .nonNumeric text => .error (.valueError s!"could not convert string to float: {text}")

/-! ## Validation -/

/-- `_count_steps`. -/
def countSteps (duration interval : ℚ) (label : String) : Except PyError ℤ :=
  if interval = 0 then .error (.zeroDivisionError "float division by zero")
  else
    let rawSteps := duration / interval
    let steps := roundHalfEven rawSteps
    if |rawSteps - steps| ≤ 1 / 1000000000 + 1 / 1000000000 * |(steps : ℚ)| then .ok steps
    else .error (.valueError s!"{label} must be an integer number of steps, got {rawSteps}")

/-- `_preview_names`. -/
def previewNames (names : List String) : String :=
  let preview := ", ".intercalate (names.take 5)
  if 5 < names.length then preview ++ ", ..." else preview

/-- The state of the loop over the rows: the names seen so far with their row numbers, the common
number of steps, and the rows with stripped names. -/
structure RowChecks where
  rowByName : Dict String ℕ := .empty
  sequenceSteps : Option ℕ := none
  rows : List PowerRow := []

/-- The check of one value. -/
def checkValue (rowName : String) (e : Cell × ℕ) : Except PyError Unit :=
  let step := e.2
  match e.1 with
  | .number _ => .ok ()
  | .nonFinite text =>
    .error (.valueError s!"Power sequence row {rowName}, step {step} is not finite: {text}")
  | .nonNumeric text =>
    .error (.valueError s!"Power sequence row {rowName}, step {step} is not numeric: {text}")

/-- The check of one row. -/
def checkRow (acc : RowChecks) (e : PowerRow × ℕ) : Except PyError RowChecks :=
  let rowNumber := e.2
  let rowName := strip e.1.name
  let rowSteps := e.1.values.length
  if rowName.isEmpty then
    .error (.valueError s!"Power sequence row {rowNumber} has an empty block name")
  else
    match acc.rowByName.get? rowName with
    | some other => .error (.valueError
        (s!"Duplicate power sequence row for block {rowName}: " ++
          s!"rows {other} and {rowNumber}"))
    | none =>
      if rowSteps = 0 then
        .error (.valueError s!"Power sequence row {rowName} has no timestep values")
      else
        let expected := acc.sequenceSteps.getD rowSteps
        if rowSteps ≠ expected then
          .error (.valueError
            s!"Power sequence row {rowName} has {rowSteps} steps, expected {expected}")
        else do
          (e.1.values.zipIdx 1).forM (checkValue rowName)
          return {
            rowByName := acc.rowByName.set rowName rowNumber
            sequenceSteps := some expected
            rows := acc.rows ++ [⟨rowName, e.1.values⟩] }

/-- `_expected_power_sequence_names`. -/
def expectedPowerSequenceNames (layers : List PowerLayer) : List String :=
  layers.flatMap fun layer =>
    layer.powerChiplets.flatMap fun chiplet =>
      chiplet.powerBlocks.map fun block => powerSeqName layer.name chiplet.name block.name

/-- `_validate_steady_heatmap_index`. -/
def validateSteadyHeatmapIndex (a : Args) (sequenceSteps : ℕ) : Except PyError Unit :=
  let timeStep := a.timeStep
  if timeStep ≤ 0 then
    .error (.valueError s!"time_step must be positive, got {timeStep}")
  else
    let stepIndex := roundHalfEven (a.timeHeatmap / timeStep)
    if stepIndex < 0 ∨ sequenceSteps < stepIndex then
      .error (.valueError
        (s!"steady time_heatmap selects power sequence index {stepIndex}, " ++
          s!"outside valid range 0..{sequenceSteps}"))
    else .ok ()

/-- The number of steps fits the time controls. -/
def validateSteps (a : Args) (sequenceSteps : ℕ) : Except PyError Unit :=
  match a.simulationType with
  | .steady => validateSteadyHeatmapIndex a sequenceSteps
  | .transient => do
    let duration := a.totalDuration
    let interval := a.powerInterval
    let expectedSteps ← countSteps duration interval "total_duration/power_interval"
    if (sequenceSteps : ℤ) ≠ expectedSteps then
      .error (.valueError
        (s!"Power sequence has {sequenceSteps} steps, expected {expectedSteps} " ++
          s!"from total_duration/power_interval ({duration}/{interval})"))
    else .ok ()

/-- `_validate_power_sequence`: the rows with stripped names. -/
def validatePowerSequence (a : Args) (layers : List PowerLayer) (powerSeq : List PowerRow) :
    Except PyError (List PowerRow) :=
  if powerSeq.isEmpty then
    .error (.valueError ("Power sequence file is empty: " ++ a.powerSeqFile))
  else do
    let checks ← (powerSeq.zipIdx 1).foldlM checkRow {}
    let expectedNames := expectedPowerSequenceNames layers
    let missing := expectedNames.filter fun name => decide (name ∉ checks.rowByName)
    let extra := (checks.rowByName.keys.filter fun name =>
      decide (name ∉ expectedNames)).insertionSort (· ≤ ·)
    let missingCount := missing.length
    let extraCount := extra.length
    if missing ≠ [] then
      .error (.valueError (s!"Power sequence is missing {missingCount} required rows: " ++
        previewNames missing))
    else if extra ≠ [] then
      .error (.valueError
        (s!"Power sequence has {extraCount} rows not present in the power config: " ++
          previewNames extra))
    else do
      validateSteps a (checks.sequenceSteps.getD 0)
      return checks.rows

/-- `Power_grid`. -/
structure PowerGrid where
  args : Args
  powerSeq : List PowerRow
  powerLayers : List PowerLayer

/-- The constructor of `Power_grid`, with the rows of the power sequence file. -/
def PowerGrid.new (a : Args) (powerDict : PowerConfig) (powerSeq : List PowerRow) :
    Except PyError PowerGrid := do
  let layers ← powerDict.entries.mapM PowerLayer.new
  let rows ← validatePowerSequence a layers powerSeq
  return { args := a, powerSeq := rows, powerLayers := layers }

/-! ## The sequence of a block -/

/-- `_steady_power_step_index`. -/
def steadyPowerStepIndex (a : Args) (sequenceLength : ℕ) : ℕ :=
  if sequenceLength = 0 then 0
  else if a.timeStep ≤ 0 then sequenceLength - 1
  else
    min (max (roundHalfEven (a.timeHeatmap / a.timeStep)) 0).toNat (sequenceLength - 1)

/-- `create_power_seq`: the fractions of the maximum; `none` is an infinity or not a number. -/
def PowerBlock.createPowerSeq (b : PowerBlock) (a : Args) (layerName chipletName : String)
    (powerSeq : List PowerRow) : Except PyError (List (Option ℚ)) :=
  let name := powerSeqName layerName chipletName b.name
  match powerSeq.find? fun row => decide (row.name = name) with
  | none => .error (.valueError s!"Power sequence not found for block: {name}")
  | some row =>
    match row.values.mapM Cell.float with
    | .error _ => .error (.valueError
        s!"Power sequence for block {name} contains a non-numeric value")
    | .ok percents =>
      match a.simulationType with
      | .transient => .ok (percents.map fun v => v.map (· / 100))
      | .steady =>
        match percents[steadyPowerStepIndex a percents.length]? with
        | none => .error (.indexError "list index out of range")
        | some v => .ok [v.map (· / 100)]

/-- The watts of a block: `max_power` times `power_seq`. -/
def PowerBlock.watts (b : PowerBlock) (powerSeq : List (Option ℚ)) : List (Option ℚ) :=
  powerSeq.map fun v => v.map (b.maxPower * ·)

end Thermal

end ChipSim
