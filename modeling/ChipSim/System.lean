import Mathlib.Algebra.BigOperators.Group.List.Basic
import ChipSim.Chiplet

/-!
# Systems of chiplets

A system is a list of chiplets, numbered from `1`, with the network that connects them. It answers
the admission checks for a model and keeps the available capacity units of every chiplet.
-/

namespace ChipSim

open Lib

/-- A system: its chiplets and the adjacency matrix of their network, indexed from `0`. -/
structure System where
  chiplets : List Chiplet
  adjMatrix : ℕ → ℕ → ℚ

namespace System

variable (s : System)

/-- The number of chiplets. -/
def numChiplets : ℕ := s.chiplets.length

/-- The chiplet with a given id. -/
def chiplet? (chipletId : ℕ) : Option Chiplet :=
  if chipletId = 0 then none else s.chiplets[chipletId - 1]?

/-- The ids of the I/O chiplets. -/
def ioChipletIds : List ℕ :=
  ((List.range s.numChiplets).map (· + 1)).filter fun chipletId =>
    (s.chiplet? chipletId).any (·.spec.type = .io)

/-- `is_io_chiplet`. -/
def isIoChiplet (chipletId : ℕ) : Bool := decide (chipletId ∈ s.ioChipletIds)

/-! ## The network -/

/-- The edges of the chiplet network: the upper triangle of the matrix. -/
def connected (a b : ℕ) : Bool :=
  decide (1 ≤ min a b ∧ min a b < max a b ∧ max a b ≤ s.numChiplets ∧
    s.adjMatrix (min a b - 1) (max a b - 1) = 1)

/-- The chiplets within `k` links of a chiplet. -/
def within (source : ℕ) : ℕ → List ℕ
  | 0 => [source]
  | k + 1 => ((List.range s.numChiplets).map (· + 1)).filter fun b =>
      b ∈ within source k || (within source k).any (s.connected · b)

/-- The length of a shortest path, if there is a path. -/
def shortestPathLength (source target : ℕ) : Option ℕ :=
  (List.range s.numChiplets).find? fun k => target ∈ s.within source k

/-- `get_path_length_between_chiplets`, with `none` for the result `-1`. -/
def getPathLengthBetweenChiplets (a b : ℕ) : Option ℕ :=
  if a < 1 ∨ s.numChiplets < a ∨ b < 1 ∨ s.numChiplets < b then none
  else if a = b then some 0
  else s.shortestPathLength a b

/-- `get_io_chiplet_for_compute`: the first of the closest I/O chiplets. -/
def getIoChipletForCompute (computeChipletId : ℕ) : Option ℕ :=
  (s.ioChipletIds.foldl (fun best ioId =>
    match s.getPathLengthBetweenChiplets ioId computeChipletId with
    | none => best
    | some distance =>
      match best with
      | none => some (ioId, distance)
      | some (_, minDistance) => if distance < minDistance then some (ioId, distance) else best)
    (none : Option (ℕ × ℕ))).map Prod.fst

/-! ## Memory and capacity -/

/-- `get_total_system_memory`. -/
def getTotalSystemMemory : ℚ := (s.chiplets.map (·.spec.getTotalMemory)).sum

/-- `get_available_memory_in_system`: one integer for every chiplet. -/
def getAvailableMemoryInSystem : List ℤ := s.chiplets.map fun c => truncate c.getAvailableMemory

/-- `get_available_capacity_per_chiplet`. -/
def getAvailableCapacityPerChiplet : List ℤ := s.chiplets.map (·.getAvailableCapacityUnits)

/-- The loop of `update_capacity_availability`, which stops at the first failure. -/
def setUnits : List Chiplet → List ℤ → List Chiplet × Bool
  | c :: cs, u :: us =>
    let r := c.setAvailableCapacityUnits u
    if r.2 then
      let rest := setUnits cs us
      (r.1 :: rest.1, rest.2)
    else (r.1 :: cs, false)
  | cs, _ => (cs, true)

/-- `update_capacity_availability`. -/
def updateCapacityAvailability (units : List ℤ) : Except PyError (System × Bool) :=
  if units.length ≠ s.numChiplets then .error (.systemExit 1)
  else
    let r := setUnits s.chiplets units
    .ok ({ s with chiplets := r.1 }, r.2)

/-- `get_model_memory_requirement`. -/
def getModelMemoryRequirement (metrics : List LayerMetrics) : ℕ :=
  (metrics.map (·.crossbarsRequired)).sum

/-- `can_model_ever_fit`. -/
def canModelEverFit (metrics : List LayerMetrics) : Bool :=
  ¬ s.getTotalSystemMemory < getModelMemoryRequirement metrics

/-- `can_model_fit_now`. -/
def canModelFitNow (metrics : List LayerMetrics) : Bool :=
  ¬ s.getAvailableMemoryInSystem.sum < (getModelMemoryRequirement metrics : ℤ)

/-! ## Updating the capacity -/

theorem setUnits_spec (cs : List Chiplet) (us : List ℤ) (h : us.length = cs.length) :
    (setUnits cs us).2 = true ∧
      (setUnits cs us).1.map (·.spec) = cs.map (·.spec) ∧
      (setUnits cs us).1.map (·.getAvailableCapacityUnits) =
        List.zipWith Chiplet.clampUnits cs us := by
  induction cs generalizing us with
  | nil =>
    cases us with
    | nil => exact ⟨rfl, rfl, rfl⟩
    | cons u us => cases h
  | cons c cs ih =>
    cases us with
    | nil => cases h
    | cons u us =>
      obtain ⟨hok, hspec, hunits⟩ := c.setAvailableCapacityUnits_spec u
      obtain ⟨ih₁, ih₂, ih₃⟩ := ih us (by simpa using h)
      unfold setUnits
      dsimp only
      rw [if_pos hok]
      refine ⟨ih₁, ?_, ?_⟩
      · rw [List.map_cons, List.map_cons, hspec, ih₂]
      · rw [List.map_cons, List.zipWith_cons_cons, hunits, ih₃]

/-- An array of the right length is stored, clamped, and the update succeeds. -/
theorem updateCapacityAvailability_ok {units : List ℤ} (h : units.length = s.numChiplets) :
    ∃ s', s.updateCapacityAvailability units = .ok (s', true) ∧
      s'.adjMatrix = s.adjMatrix ∧ s'.chiplets.map (·.spec) = s.chiplets.map (·.spec) ∧
      s'.getAvailableCapacityPerChiplet = List.zipWith Chiplet.clampUnits s.chiplets units := by
  obtain ⟨hok, hspec, hunits⟩ := setUnits_spec s.chiplets units h
  refine ⟨{ s with chiplets := (setUnits s.chiplets units).1 }, ?_, rfl, hspec, hunits⟩
  unfold updateCapacityAvailability
  rw [if_neg (not_not.mpr h)]
  dsimp only
  rw [hok]

end System

end ChipSim
