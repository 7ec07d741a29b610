import ChipSim.Lib.Binning
import ChipSim.Lib.DictLoops
import ChipSim.Lib.Lists
import ChipSim.PowerComputer

/-!
# The profiles in closed form

The nested loops of the compute power run through the chunks whose layer has a recorded start
(`chunkRuns`). Each adds its power to the bins it overlaps, so the power of a chiplet in a bin is a
sum over its chunks.
-/

namespace ChipSim

open Lib

namespace PowerComputer

/-! ## One activity -/

/-- An activity adds to every bin the amount for its overlap with the bin. -/
theorem addActivity_map {n : ℕ} {timeStepUs : ℚ} (hstep : 0 < timeStepUs) (s e : ℚ)
    {amount : ℚ → ℚ} (h0 : amount 0 = 0) (f : ℕ → ℚ) :
    addActivity n timeStepUs s e amount ((List.range n).map f) = (List.range n).map fun t =>
      f t + amount (binOverlap timeStepUs s e t / timeStepUs) := by
  refine List.ext_getElem? fun t => ?_
  unfold addActivity
  dsimp only
  rw [foldl_update_nodup (fun profile : List ℚ => profile[t]?)
    (fun v => v.map (· + amount (binOverlap timeStepUs s e t / timeStepUs))) t ?_
    (List.nodup_range' (h := by decide))]
  · by_cases ht : t < n
    · have hget : ∀ g : ℕ → ℚ, ((List.range n).map g)[t]? = some (g t) := fun g => by simp [ht]
      rw [hget, hget]
      split
      · rfl
      · next hout =>
        -- outside of the loop there is no overlap
        have hzero : binOverlap timeStepUs s e t = 0 := by
          rw [List.mem_range'_1] at hout
          by_cases hlo : t < ⌊s / timeStepUs⌋₊
          · exact binOverlap_of_lt_floor hstep hlo
          · exact binOverlap_of_ceil_le hstep (by omega)
        rw [hzero, zero_div, h0, add_zero]
    · have hnone : ∀ g : ℕ → ℚ, ((List.range n).map g)[t]? = none := fun g => by simp [ht]
      rw [hnone, hnone]
      simp
  · intro profile k
    by_cases hk : k = t
    · subst hk
      rw [if_pos rfl]
      split
      · rw [List.getElem?_modify_eq]
        rfl
      · next hpos =>
        have hzero : binOverlap timeStepUs s e k = 0 :=
          le_antisymm (not_lt.mp hpos) (overlap_nonneg ..)
        rw [hzero, zero_div, h0]
        simp
    · rw [if_neg hk]
      split
      · exact List.getElem?_modify_ne _ _ hk
      · rfl

theorem updateChiplet_eq (c : ℕ) (f : List ℚ → List ℚ) (power : ChipletPower) :
    updateChiplet c f power = power.modify c f := by
  unfold updateChiplet Dict.modify
  cases power.get? c <;> rfl

section

variable {α : Type*} {n : ℕ} {timeStepUs : ℚ} (chiplet : α → ℕ) (s e : α → ℚ) (amount : α → ℚ → ℚ)

/-- Add a list of activities. -/
def addActivities (n : ℕ) (timeStepUs : ℚ) (l : List α) (power : ChipletPower) : ChipletPower :=
  l.foldl (fun power a =>
    updateChiplet (chiplet a) (addActivity n timeStepUs (s a) (e a) (amount a)) power) power

/-- The power of a chiplet in a bin is the sum over its activities. -/
theorem get?_addActivities (hstep : 0 < timeStepUs) (h0 : ∀ a, amount a 0 = 0) (l : List α)
    {power : ChipletPower} {k : ℕ} {f : ℕ → ℚ} (hk : power.get? k = some ((List.range n).map f)) :
    (addActivities chiplet s e amount n timeStepUs l power).get? k =
      some ((List.range n).map fun t => f t + (l.map fun a => if chiplet a = k then
        amount a (binOverlap timeStepUs (s a) (e a) t / timeStepUs) else 0).sum) := by
  unfold addActivities
  induction l generalizing power f with
  | nil => simpa using hk
  | cons a l ih =>
    rw [List.foldl_cons, ih (f := fun t => f t + if chiplet a = k then
      amount a (binOverlap timeStepUs (s a) (e a) t / timeStepUs) else 0)]
    · simp only [List.map_cons, List.sum_cons, add_assoc]
    · rw [updateChiplet_eq, Dict.get?_modify, hk]
      by_cases ha : k = chiplet a
      · simp only [if_pos ha, if_pos ha.symm, Option.map_some]
        rw [addActivity_map hstep _ _ (h0 a)]
      · simp only [if_neg ha, if_neg (Ne.symm ha), add_zero]

theorem keys_addActivities (l : List α) (power : ChipletPower) :
    (addActivities chiplet s e amount n timeStepUs l power).keys = power.keys := by
  unfold addActivities
  refine List.foldlRecOn (motive := fun p : ChipletPower => p.keys = power.keys) _ _ rfl
    fun p hp a _ => ?_
  rw [updateChiplet_eq, Dict.keys_modify, hp]

end

/-! ## The chunks -/

/-- A chunk that is counted: on a chiplet, from the recorded start of its layer. -/
structure ChunkRun where
  chipletId : ℕ
  startTime : ℚ
  latencyUs : ℚ
  energyFj : ℚ
deriving DecidableEq

/-- The power of the chunk while it runs. -/
def ChunkRun.watts (r : ChunkRun) : ℚ :=
  r.energyFj * (1 / 10 ^ 15) / (r.latencyUs * (1 / 10 ^ 6))

/-- A chunk with positive energy and latency. -/
def chunkRun? (startTime : ℚ) (chunk : ℕ × ℕ × ChunkResult) : Option ChunkRun :=
  let energy := chunk.2.2.energyFj.getD 0
  let latency := chunk.2.2.latencyUs.getD 0
  if 0 < energy ∧ 0 < latency then some ⟨chunk.1, startTime, latency, energy⟩ else none

/-- The chunks of a layer for one input, if a start of the layer is recorded. -/
def layerRuns (m : MappedModel) (i l : ℕ) : List ChunkRun :=
  match m.layerRecords.startTimeUs.get2? i l with
  | none => []
  | some startTime => ((m.chunkResults.getD l .empty).entries).filterMap (chunkRun? startTime)

/-- The chunks of a model. -/
def modelRuns (m : MappedModel) : List ChunkRun :=
  (List.range m.numInputs).flatMap fun i => (List.range m.numLayers).flatMap (layerRuns m i)

variable (pc : PowerComputer)

/-- The chunks of all retired models. -/
def chunkRuns : List ChunkRun := pc.retiredMappedModels.values.flatMap modelRuns

/-- Add the power of some chunks. -/
def addRuns (timeStepUs : ℚ) : List ChunkRun → ChipletPower → ChipletPower :=
  addActivities ChunkRun.chipletId ChunkRun.startTime (fun r => r.startTime + r.latencyUs)
    (fun r part => r.watts * part) (pc.numTimePoints timeStepUs) timeStepUs

theorem addRuns_append (timeStepUs : ℚ) (l l' : List ChunkRun) (power : ChipletPower) :
    pc.addRuns timeStepUs (l ++ l') power =
      pc.addRuns timeStepUs l' (pc.addRuns timeStepUs l power) :=
  List.foldl_append

theorem addRuns_flatMap {α : Type*} (timeStepUs : ℚ) (f : α → List ChunkRun) (l : List α)
    (power : ChipletPower) :
    pc.addRuns timeStepUs (l.flatMap f) power =
      l.foldl (fun power a => pc.addRuns timeStepUs (f a) power) power := by
  induction l generalizing power with
  | nil => rfl
  | cons a l ih => rw [List.flatMap_cons, addRuns_append, List.foldl_cons, ih]

theorem addChunk_eq (timeStepUs startTime : ℚ) (power : ChipletPower)
    (chunk : ℕ × ℕ × ChunkResult) :
    pc.addChunk timeStepUs startTime power chunk =
      pc.addRuns timeStepUs (chunkRun? startTime chunk).toList power := by
  unfold addChunk chunkRun?
  dsimp only
  by_cases henergy : chunk.2.2.energyFj.getD 0 ≤ 0
  · rw [if_pos henergy, if_neg fun h => not_lt.mpr henergy h.1]
    rfl
  · rw [if_neg henergy]
    by_cases hlatency : chunk.2.2.latencyUs.getD 0 ≤ 0
    · rw [if_pos hlatency, if_neg fun h => not_lt.mpr hlatency h.2]
      rfl
    · rw [if_neg hlatency, if_pos ⟨not_le.mp henergy, not_le.mp hlatency⟩]
      rfl

theorem addLayer_eq (timeStepUs : ℚ) (m : MappedModel) (i : ℕ) (power : ChipletPower) (l : ℕ) :
    pc.addLayer timeStepUs m i power l = pc.addRuns timeStepUs (layerRuns m i l) power := by
  unfold addLayer layerRuns
  cases m.layerRecords.startTimeUs.get2? i l with
  | none => rfl
  | some startTime =>
    have hchunks : ∀ (chunks : List (ℕ × ℕ × ChunkResult)) (power : ChipletPower),
        chunks.foldl (pc.addChunk timeStepUs startTime) power =
          pc.addRuns timeStepUs (chunks.filterMap (chunkRun? startTime)) power := by
      intro chunks
      induction chunks with
      | nil => exact fun _ => rfl
      | cons chunk chunks ih =>
        intro power
        rw [List.foldl_cons, ih, addChunk_eq, ← addRuns_append]
        cases hrun : chunkRun? startTime chunk <;> simp [hrun]
    unfold Dict.getD
    cases m.chunkResults.get? l with
    | none => rfl
    | some chunks => exact hchunks chunks.entries power

/-- The loops of the compute power go through the chunks. -/
theorem computePower_eq (timeStepUs : ℚ) :
    pc.computePower timeStepUs = pc.addRuns timeStepUs pc.chunkRuns (pc.noPower timeStepUs) := by
  have hlayer : ∀ m i, pc.addLayer timeStepUs m i = fun power l =>
      pc.addRuns timeStepUs (layerRuns m i l) power := fun m i =>
    funext fun power => funext fun l => pc.addLayer_eq timeStepUs m i power l
  unfold computePower chunkRuns modelRuns
  simp only [addRuns_flatMap, hlayer]

theorem get?_noPower (timeStepUs : ℚ) (k : ℕ) : (pc.noPower timeStepUs).get? k =
    if k ∈ pc.systemChiplets then
      some ((List.range (pc.numTimePoints timeStepUs)).map fun _ => 0)
    else none := by
  unfold noPower
  rw [Dict.get?_comprehension]
  unfold zeros
  simp [List.map_const']

/-- The compute power of a chiplet in each bin. -/
theorem get?_computePower {timeStepUs : ℚ} (hstep : 0 < timeStepUs) {k : ℕ}
    (hk : k ∈ pc.systemChiplets) : (pc.computePower timeStepUs).get? k =
      some ((List.range (pc.numTimePoints timeStepUs)).map fun t =>
        (pc.chunkRuns.map fun r => if r.chipletId = k then
          r.watts * (binOverlap timeStepUs r.startTime (r.startTime + r.latencyUs) t / timeStepUs)
          else 0).sum) := by
  have hzero : (pc.noPower timeStepUs).get? k =
      some ((List.range (pc.numTimePoints timeStepUs)).map fun _ => 0) := by
    rw [get?_noPower, if_pos hk]
  have hruns := get?_addActivities ChunkRun.chipletId ChunkRun.startTime
    (fun r => r.startTime + r.latencyUs) (fun r part => r.watts * part) hstep
    (fun r => mul_zero r.watts) pc.chunkRuns hzero
  simp only [zero_add] at hruns
  rw [computePower_eq]
  exact hruns

end PowerComputer

end ChipSim
