import Mathlib.Algebra.Order.Floor.Semiring
import Mathlib.Data.Rat.Floor
import Mathlib.Tactic.Linarith
import ChipSim.ModelProcessor

/-!
# Chiplets

A chiplet offers capacity units: crossbars on in-memory-computing chiplets, single weights on CMOS
chiplets; I/O chiplets only serve weights. Only the available units change in the course of a
simulation; they are always clamped to what the chiplet has.
-/

namespace ChipSim

open Lib

/-- `int(q)`: truncation towards zero. -/
def truncate (q : ℚ) : ℤ := if 0 ≤ q then ⌊q⌋ else ⌈q⌉

/-- The compute types of chiplets. -/
inductive ChipletType
  | imc
  | cmos
  | io
deriving DecidableEq, Repr

/-- The parameters of a chiplet type; crossbars have positive dimensions. -/
structure ChipletSpec where
  type : ChipletType
  energyPerMac : ℚ
  crossbarRows : ℕ
  crossbarColumns : ℕ
  bitsPerCell : ℕ
  bitsPerWeight : ℕ
  tilesPerChiplet : ℕ
  crossbarsPerTile : ℕ
  totalMemoryWeights : ℕ := 0
  imc_pos : type = .imc → 0 < crossbarRows ∧ 0 < crossbarColumns ∧ 0 < bitsPerCell ∧
    0 < bitsPerWeight

/-- A chiplet: its parameters and what is available on it. -/
structure Chiplet where
  spec : ChipletSpec
  crossbarsAvailable : ℤ
  availableMemoryWeights : ℤ

namespace ChipletSpec

/-- Weights per crossbar. -/
def memoryPerCrossbar (spec : ChipletSpec) : ℚ :=
  if 0 < spec.bitsPerWeight ∧ 0 < spec.crossbarRows ∧ 0 < spec.crossbarColumns then
    spec.crossbarRows * spec.crossbarColumns * spec.bitsPerCell / spec.bitsPerWeight
  else 0

theorem memoryPerCrossbar_nonneg (spec : ChipletSpec) : 0 ≤ spec.memoryPerCrossbar := by
  unfold memoryPerCrossbar
  split
  · positivity
  · exact le_rfl

/-- All crossbars of the chiplet. -/
def totalCrossbars (spec : ChipletSpec) : ℕ := spec.tilesPerChiplet * spec.crossbarsPerTile

/-- `get_total_memory`. -/
def getTotalMemory (spec : ChipletSpec) : ℚ :=
  if spec.type = .cmos then spec.totalMemoryWeights
  else spec.crossbarsPerTile * spec.tilesPerChiplet * spec.memoryPerCrossbar

/-- `get_total_capacity_units`. -/
def getTotalCapacityUnits (spec : ChipletSpec) : ℕ :=
  if spec.type = .cmos then spec.totalMemoryWeights else spec.totalCrossbars

/-- `get_capacity_unit_size`. -/
def getCapacityUnitSize (spec : ChipletSpec) : ℤ :=
  if spec.type = .cmos then 1 else truncate spec.memoryPerCrossbar

end ChipletSpec

namespace Chiplet

/-- A chiplet with everything available. -/
def new (spec : ChipletSpec) : Chiplet where
  spec := spec
  crossbarsAvailable := spec.totalCrossbars
  availableMemoryWeights := if spec.type = .cmos then spec.totalMemoryWeights else 0

/-- `get_available_memory`; the memory of a CMOS chiplet is reported as a constant. -/
def getAvailableMemory (chiplet : Chiplet) : ℚ :=
  if chiplet.spec.type = .cmos then chiplet.spec.totalMemoryWeights
  else chiplet.crossbarsAvailable * chiplet.spec.memoryPerCrossbar

/-- `get_available_capacity_units`. -/
def getAvailableCapacityUnits (chiplet : Chiplet) : ℤ :=
  if chiplet.spec.type = .cmos then chiplet.availableMemoryWeights else chiplet.crossbarsAvailable

/-- `set_available_crossbars`. -/
def setAvailableCrossbars (chiplet : Chiplet) (units : ℤ) : Chiplet × Bool :=
  if units < 0 then (chiplet, false)
  else if (chiplet.spec.totalCrossbars : ℤ) < units then (chiplet, false)
  else ({ chiplet with crossbarsAvailable := units }, true)

/-- The clamping of `set_available_capacity_units`. -/
def clampUnits (chiplet : Chiplet) (units : ℤ) : ℤ :=
  let units := if units < 0 then 0 else units
  if (chiplet.spec.getTotalCapacityUnits : ℤ) < units then chiplet.spec.getTotalCapacityUnits
  else units

/-- `set_available_capacity_units`. -/
def setAvailableCapacityUnits (chiplet : Chiplet) (units : ℤ) : Chiplet × Bool :=
  if chiplet.spec.type = .cmos then
    ({ chiplet with availableMemoryWeights := chiplet.clampUnits units }, true)
  else chiplet.setAvailableCrossbars (chiplet.clampUnits units)

/-- The clamping leaves a value within the capacity as it is. -/
theorem clampUnits_of_mem {chiplet : Chiplet} {units : ℤ} (h0 : 0 ≤ units)
    (h1 : units ≤ chiplet.spec.getTotalCapacityUnits) : chiplet.clampUnits units = units := by
  unfold clampUnits
  dsimp only
  rw [if_neg (not_lt.mpr h0), if_neg (not_lt.mpr h1)]

theorem clampUnits_mem (chiplet : Chiplet) (units : ℤ) :
    0 ≤ chiplet.clampUnits units ∧
      chiplet.clampUnits units ≤ chiplet.spec.getTotalCapacityUnits := by
  unfold clampUnits
  dsimp only
  split_ifs <;> omega

/-- Setting the available units stores the clamped value, and always succeeds. -/
theorem setAvailableCapacityUnits_spec (chiplet : Chiplet) (units : ℤ) :
    (chiplet.setAvailableCapacityUnits units).2 = true ∧
      (chiplet.setAvailableCapacityUnits units).1.spec = chiplet.spec ∧
      (chiplet.setAvailableCapacityUnits units).1.getAvailableCapacityUnits =
        chiplet.clampUnits units := by
  obtain ⟨h0, h1⟩ := clampUnits_mem chiplet units
  unfold setAvailableCapacityUnits getAvailableCapacityUnits
  by_cases hc : chiplet.spec.type = .cmos
  · simp [hc]
  · unfold ChipletSpec.getTotalCapacityUnits at h1
    rw [if_neg hc] at h1 ⊢
    unfold setAvailableCrossbars
    rw [if_neg (not_lt.mpr h0), if_neg (not_lt.mpr h1)]
    exact ⟨rfl, rfl, if_neg hc⟩

/-- On a new chiplet all units are available. -/
theorem getAvailableCapacityUnits_new (spec : ChipletSpec) :
    (new spec).getAvailableCapacityUnits = spec.getTotalCapacityUnits := by
  unfold getAvailableCapacityUnits new ChipletSpec.getTotalCapacityUnits
  by_cases hc : spec.type = .cmos
  · simp [hc]
  · simp [hc]

end Chiplet

end ChipSim
