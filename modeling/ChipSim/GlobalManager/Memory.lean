import ChipSim.GlobalManager.Capacity
import ChipSim.ModelMapper.Coverage

/-!
# Memory and capacity

A chiplet has two views of one resource: the memory `get_available_memory` reports and the capacity
units the mapper takes. The memory is never less than the units are worth. The two agree on a CMOS
chiplet only while nothing is mapped on it, since its memory is reported as a constant, and on a
chiplet with crossbars only while the fractions of a weight left on its crossbars make no whole one.
-/

namespace ChipSim

open Lib

namespace Chiplet

/-- The weights the available units of a compute chiplet hold. -/
def capacityLeft (chiplet : Chiplet) : ℤ :=
  if chiplet.spec.type = .io then 0
  else chiplet.getAvailableCapacityUnits * chiplet.spec.getCapacityUnitSize

/-- A CMOS chiplet is empty; on the other chiplets the parts of a weight that capacity units do not
count (on an I/O chiplet, all of its memory) add up to less than one weight. -/
def InStep (chiplet : Chiplet) : Prop :=
  match chiplet.spec.type with
  | .cmos => chiplet.availableMemoryWeights = chiplet.spec.totalMemoryWeights
  | .imc => chiplet.crossbarsAvailable * Int.fract chiplet.spec.memoryPerCrossbar < 1
  | .io => chiplet.crossbarsAvailable * chiplet.spec.memoryPerCrossbar < 1

theorem truncate_of_nonneg {q : ℚ} (h : 0 ≤ q) : truncate q = ⌊q⌋ := if_pos h

/-- The crossbars hold whole weights and a rest. -/
theorem truncate_mul {n : ℤ} {q : ℚ} (hn : 0 ≤ n) (hq : 0 ≤ q) :
    truncate (n * q) = n * truncate q + ⌊n * Int.fract q⌋ := by
  have hn' : (0 : ℚ) ≤ n := by exact_mod_cast hn
  have hsplit : n * q = n * Int.fract q + (n * ⌊q⌋ : ℤ) := by
    push_cast
    rw [← mul_add, Int.fract_add_floor]
  rw [truncate_of_nonneg (mul_nonneg hn' hq), truncate_of_nonneg hq, hsplit, Int.floor_add_intCast,
    add_comm]

/-- The memory reported for a chiplet is at least what its units hold, and equal to it exactly if
the two are in step. -/
theorem capacityLeft_le (chiplet : Chiplet) (h0 : 0 ≤ chiplet.getAvailableCapacityUnits)
    (h1 : chiplet.getAvailableCapacityUnits ≤ chiplet.spec.getTotalCapacityUnits) :
    chiplet.capacityLeft ≤ truncate chiplet.getAvailableMemory ∧
      (chiplet.capacityLeft = truncate chiplet.getAvailableMemory ↔ chiplet.InStep) := by
  have hmemory := chiplet.spec.memoryPerCrossbar_nonneg
  unfold getAvailableCapacityUnits at h0 h1
  unfold ChipletSpec.getTotalCapacityUnits at h1
  unfold capacityLeft InStep getAvailableMemory getAvailableCapacityUnits
    ChipletSpec.getCapacityUnitSize
  cases htype : chiplet.spec.type with
  | imc =>
    simp only [htype, reduceCtorEq, if_false] at h0 h1 ⊢
    rw [truncate_mul h0 hmemory]
    have hrest : (0 : ℚ) ≤ chiplet.crossbarsAvailable * Int.fract chiplet.spec.memoryPerCrossbar :=
      mul_nonneg (by exact_mod_cast h0) (Int.fract_nonneg _)
    refine ⟨le_add_of_nonneg_right (Int.floor_nonneg.mpr hrest), ?_⟩
    rw [left_eq_add, Int.floor_eq_zero_iff, Set.mem_Ico]
    exact and_iff_right hrest
  | cmos =>
    simp only [htype, reduceCtorEq, if_false, if_true] at h0 h1 ⊢
    rw [truncate_of_nonneg (Nat.cast_nonneg _), Int.floor_natCast, mul_one]
    exact ⟨h1, Iff.rfl⟩
  | io =>
    simp only [htype, reduceCtorEq, if_false, if_true] at h0 h1 ⊢
    have hall : (0 : ℚ) ≤ chiplet.crossbarsAvailable * chiplet.spec.memoryPerCrossbar :=
      mul_nonneg (by exact_mod_cast h0) hmemory
    rw [truncate_of_nonneg hall]
    refine ⟨Int.floor_nonneg.mpr hall, ?_⟩
    rw [eq_comm, Int.floor_eq_zero_iff, Set.mem_Ico]
    exact and_iff_right hall

end Chiplet

namespace System

/-- The weights all available units hold. -/
def capacityLeft (s : System) : ℤ := (s.chiplets.map Chiplet.capacityLeft).sum

/-- The memory reported for a compute chiplet is what its available units hold, and a model that
requires more than all of them hold does not fit now. -/
structure MemoryInStep (s : System) : Prop where
  entry : ∀ (k : ℕ) (chiplet : Chiplet), s.chiplets[k]? = some chiplet →
    chiplet.spec.type ≠ .io → s.getAvailableMemoryInSystem[k]? =
      some (chiplet.getAvailableCapacityUnits * chiplet.spec.getCapacityUnitSize)
  insufficient : ∀ metrics, s.capacityLeft < getModelMemoryRequirement metrics →
    s.canModelFitNow metrics = false

/-- A layer for a given number of weights. -/
def layerFor (weights : ℕ) : LayerMetrics where
  name := "fc"
  shape := .fc weights 1
  inputActivation := weights
  totalMacs := weights
  numWeights := weights
  crossbarsRequired := weights
  outputActivation := 1

/-- If every model that requires more than what is left is turned away, no more is reported. -/
theorem sum_le_capacityLeft {s : System} (hleft : 0 ≤ s.capacityLeft)
    (h : ∀ metrics, s.capacityLeft < getModelMemoryRequirement metrics →
      s.canModelFitNow metrics = false) :
    s.getAvailableMemoryInSystem.sum ≤ s.capacityLeft := by
  have hrequired : (getModelMemoryRequirement [layerFor (s.capacityLeft.toNat + 1)] : ℤ) =
      s.capacityLeft + 1 := by
    change ((s.capacityLeft.toNat + 1 + 0 : ℕ) : ℤ) = _
    omega
  have hfits := h [layerFor (s.capacityLeft.toNat + 1)] (by rw [hrequired]; omega)
  unfold canModelFitNow at hfits
  rw [hrequired, decide_eq_false_iff_not, not_not] at hfits
  omega

theorem memoryInStep_iff {s : System}
    (h : ∀ chiplet ∈ s.chiplets, 0 ≤ chiplet.getAvailableCapacityUnits ∧
      chiplet.getAvailableCapacityUnits ≤ chiplet.spec.getTotalCapacityUnits) :
    s.MemoryInStep ↔ ∀ chiplet ∈ s.chiplets, chiplet.InStep := by
  have hle : ∀ chiplet ∈ s.chiplets,
      chiplet.capacityLeft ≤ truncate chiplet.getAvailableMemory :=
    fun chiplet hc => (chiplet.capacityLeft_le (h chiplet hc).1 (h chiplet hc).2).1
  have heq : ∀ chiplet ∈ s.chiplets,
      (chiplet.capacityLeft = truncate chiplet.getAvailableMemory ↔ chiplet.InStep) :=
    fun chiplet hc => (chiplet.capacityLeft_le (h chiplet hc).1 (h chiplet hc).2).2
  constructor
  · intro hstep
    have hleft : 0 ≤ s.capacityLeft := by
      refine List.sum_nonneg fun v hv => ?_
      obtain ⟨chiplet, hc, rfl⟩ := List.mem_map.mp hv
      unfold Chiplet.capacityLeft ChipletSpec.getCapacityUnitSize
      split_ifs
      · exact le_rfl
      · exact mul_nonneg (h chiplet hc).1 zero_le_one
      · rw [Chiplet.truncate_of_nonneg (ChipletSpec.memoryPerCrossbar_nonneg _)]
        exact mul_nonneg (h chiplet hc).1
          (Int.floor_nonneg.mpr (ChipletSpec.memoryPerCrossbar_nonneg _))
    have hsum := (List.sum_le_sum hle).antisymm (sum_le_capacityLeft hleft hstep.insufficient)
    exact fun chiplet hc => (heq chiplet hc).mp ((sum_map_eq_iff_of_le hle).mp hsum chiplet hc)
  · intro hall
    have hentries : s.getAvailableMemoryInSystem = s.chiplets.map Chiplet.capacityLeft :=
      List.map_congr_left fun chiplet hc => ((heq chiplet hc).mpr (hall chiplet hc)).symm
    refine ⟨fun k chiplet hk hcompute => ?_, fun metrics hmore => ?_⟩
    · rw [hentries, List.getElem?_map, hk]
      exact congrArg some (if_neg hcompute)
    · unfold canModelFitNow
      rw [hentries, decide_eq_false_iff_not, not_not]
      exact hmore

end System

namespace GlobalManager

variable {c : Config} {specs : List ChipletSpec} {s s₀ : State}

/-- What the active models leave of a chiplet. On a CMOS chiplet none of them uses a unit; on the
others the parts of a weight that capacity units do not count (on an I/O chiplet, all of its
memory) add up to less than one weight on the crossbars they leave. -/
def LeavesInStep (s : State) (k : ℕ) (spec : ChipletSpec) : Prop :=
  match spec.type with
  | .cmos => ∀ m ∈ s.activeMappedModels.values, usedAt k m = 0
  | .imc => (spec.totalCrossbars - usedByActive s k : ℤ) * Int.fract spec.memoryPerCrossbar < 1
  | .io => (spec.totalCrossbars - usedByActive s k : ℤ) * spec.memoryPerCrossbar < 1

instance (s : State) (k : ℕ) (spec : ChipletSpec) : Decidable (LeavesInStep s k spec) := by
  unfold LeavesInStep
  split <;> infer_instance

/-- No units are used exactly if no model uses one. -/
theorem Balanced.usedByActive_eq_zero (h : Balanced specs s) (k : ℕ) :
    usedByActive s k = 0 ↔ ∀ m ∈ s.activeMappedModels.values, usedAt k m = 0 := by
  have hnonneg : ∀ m ∈ s.activeMappedModels.values, 0 ≤ usedAt k m := fun m hm => by
    obtain ⟨idx, hidx⟩ := Dict.mem_values.mp hm
    exact (h.used idx m hidx).2 k
  have heq := sum_map_eq_iff_of_le hnonneg
  rw [List.sum_map_zero, eq_comm] at heq
  exact heq.trans (forall₂_congr fun _ _ => eq_comm)

/-- Whether a chiplet is in step is up to the models on it. -/
theorem Balanced.inStep_iff (h : Balanced specs s) {k : ℕ} {chiplet : Chiplet}
    (hk : s.system.chiplets[k]? = some chiplet) :
    chiplet.InStep ↔ LeavesInStep s k chiplet.spec := by
  have hbalance := (h.accounted.balance k chiplet hk).1
  unfold Chiplet.getAvailableCapacityUnits ChipletSpec.getTotalCapacityUnits at hbalance
  unfold Chiplet.InStep LeavesInStep
  cases htype : chiplet.spec.type with
  | cmos =>
    simp only [htype, if_true] at hbalance ⊢
    rw [← h.usedByActive_eq_zero, ← hbalance, left_eq_add]
  | imc =>
    simp only [htype, reduceCtorEq, if_false] at hbalance ⊢
    rw [← hbalance, add_sub_cancel_right]
  | io =>
    simp only [htype, reduceCtorEq, if_false] at hbalance ⊢
    rw [← hbalance, add_sub_cancel_right]

/-- **Memory.** In every state of every simulation, memory and capacity agree exactly if no model
is on a CMOS chiplet and the rests on the crossbars that the models leave make no weight. -/
theorem memory_in_step_iff {adjMatrix : ℕ → ℕ → ℚ} {rows : List WorkloadEntry} {threshold : ℕ}
    (hstart : start specs adjMatrix rows threshold = .ok s₀) (h : Reachable c s₀ s) :
    s.system.MemoryInStep ↔ ∀ k spec, specs[k]? = some spec → LeavesInStep s k spec := by
  have hbalanced :=
    h.balanced (histories_start c hstart) (tracked_start hstart) (balanced_start hstart)
  have hbounds : ∀ chiplet ∈ s.system.chiplets, 0 ≤ chiplet.getAvailableCapacityUnits ∧
      chiplet.getAvailableCapacityUnits ≤ chiplet.spec.getTotalCapacityUnits := by
    intro chiplet hchiplet
    obtain ⟨k, hk⟩ := List.getElem?_of_mem hchiplet
    exact (hbalanced.accounted.balance k chiplet hk).2
  rw [System.memoryInStep_iff hbounds, ← hbalanced.specs]
  constructor
  · intro hall k spec hk
    rw [List.getElem?_map] at hk
    obtain ⟨chiplet, hchiplet, rfl⟩ := Option.map_eq_some_iff.mp hk
    exact (hbalanced.inStep_iff hchiplet).mp (hall chiplet (List.mem_of_getElem? hchiplet))
  · intro hall chiplet hchiplet
    obtain ⟨k, hk⟩ := List.getElem?_of_mem hchiplet
    exact (hbalanced.inStep_iff hk).mpr (hall k chiplet.spec (by rw [List.getElem?_map, hk]; rfl))

/-- A chiplet with four crossbars before the chiplets of the small simulation. -/
def crossbarSystem : List ChipletSpec :=
  { ModelMapper.crossbarChiplet with crossbarsPerTile := 4 } :: smallSystem

/-- With one model mapped to two of the crossbars, which hold whole weights, memory and capacity
agree. -/
theorem memory_in_step_crossbars :
    ∃ s₀ s, start crossbarSystem chainMatrix smallWorkload 10 = .ok s₀ ∧
      Reachable smallConfig s₀ s ∧
      s.system.getAvailableCapacityPerChiplet = [2, 100, 100, 0] ∧ s.system.MemoryInStep := by
  have hrun : ((do
      let s₀ ← start crossbarSystem chainMatrix smallWorkload 10
      let s ← stepsFrom smallConfig 2 s₀
      return (s.system.getAvailableCapacityPerChiplet,
        decide (∀ e ∈ crossbarSystem.zipIdx, LeavesInStep s e.2 e.1)) :
        Except PyError _).toOption) = some ([2, 100, 100, 0], true) := by decide +kernel
  rw [toOption_eq_some] at hrun
  obtain ⟨s₀, hs₀, hrun⟩ := bind_eq_ok.mp hrun
  obtain ⟨s, hs, hrun⟩ := bind_eq_ok.mp hrun
  rw [pure_eq_ok, Except.ok.injEq, Prod.mk.injEq, decide_eq_true_eq] at hrun
  have hreach := Reachable.start.stepsFrom hs
  refine ⟨s₀, s, hs₀, hreach, hrun.1, (memory_in_step_iff hs₀ hreach).mpr fun k spec hk => ?_⟩
  exact hrun.2 (spec, k) (List.mem_zipIdx_iff_getElem?.mpr hk)

/-- With one model mapped, the first chiplet is full and the second one has `80` weights left, but
all `200` weights are reported and a model of `150` weights is let through. -/
theorem memory_reported_in_full :
    ∃ s₀ s, start smallSystem chainMatrix smallWorkload 10 = .ok s₀ ∧ Reachable smallConfig s₀ s ∧
      s.system.getAvailableCapacityPerChiplet = [0, 80, 0] ∧
      s.system.getAvailableMemoryInSystem = [100, 100, 0] ∧ s.system.capacityLeft = 80 ∧
      s.system.canModelFitNow [System.layerFor 150] = true := by
  have hrun : ((smallRun 12).toOption.map fun s => (s.system.getAvailableCapacityPerChiplet,
      s.system.getAvailableMemoryInSystem, s.system.capacityLeft,
      s.system.canModelFitNow [System.layerFor 150])) =
      some ([0, 80, 0], [100, 100, 0], 80, true) := by decide +kernel
  obtain ⟨s, hs, heq⟩ := Option.map_eq_some_iff.mp hrun
  rw [toOption_eq_some] at hs
  obtain ⟨s₀, hs₀, hreach⟩ := smallRun_reachable hs
  simp only [Prod.mk.injEq] at heq
  exact ⟨s₀, s, hs₀, hreach, heq⟩

end GlobalManager

end ChipSim
