import ChipSim.MappedModel.KnownTimes
import ChipSim.PowerComputer.Profile

/-!
# Binning keeps the energy

The bins cover the whole simulation, so the average powers of a chunk in the bins, times the width
of a bin, add up to its energy.
-/

namespace ChipSim

open Lib

namespace PowerComputer

variable (pc : PowerComputer)

/-- The bins reach beyond the end of the simulation. -/
theorem globalTimeUs_le {timeStepUs : ℚ} (hstep : 0 < timeStepUs) :
    pc.globalTimeUs + timeStepUs ≤ pc.numTimePoints timeStepUs * timeStepUs :=
  (div_le_iff₀ hstep).mp (Nat.le_ceil _)

theorem chunkRun?_eq_some {startTime : ℚ} {chunk : ℕ × ℕ × ChunkResult} {r : ChunkRun}
    (h : chunkRun? startTime chunk = some r) :
    r.startTime = startTime ∧ r.chipletId = chunk.1 ∧
      chunk.2.2.energyFj = some r.energyFj ∧ chunk.2.2.latencyUs = some r.latencyUs ∧
      0 < r.energyFj ∧ 0 < r.latencyUs := by
  unfold chunkRun? at h
  dsimp only at h
  split at h
  · next hpos =>
    cases h
    refine ⟨rfl, rfl, ?_, ?_, hpos.1, hpos.2⟩
    · cases henergy : chunk.2.2.energyFj with
      | none => rw [henergy] at hpos; exact absurd hpos.1 (lt_irrefl 0)
      | some energy => rfl
    · cases hlatency : chunk.2.2.latencyUs with
      | none => rw [hlatency] at hpos; exact absurd hpos.2 (lt_irrefl 0)
      | some latency => rfl
  · cases h

/-- Where a counted chunk comes from. -/
theorem mem_layerRuns {m : MappedModel} {i l : ℕ} {r : ChunkRun} : r ∈ layerRuns m i l ↔
    ∃ startTime chunks chunk, m.layerRecords.startTimeUs.get2? i l = some startTime ∧
      m.chunkResults.get? l = some chunks ∧ chunk ∈ chunks.entries ∧
      chunkRun? startTime chunk = some r := by
  unfold layerRuns Dict.getD
  cases m.layerRecords.startTimeUs.get2? i l with
  | none => simp
  | some startTime =>
    cases m.chunkResults.get? l with
    | none => simp [Dict.empty]
    | some chunks => simp [List.mem_filterMap]

theorem mem_chunkRuns {r : ChunkRun} : r ∈ pc.chunkRuns ↔
    ∃ k m i l, pc.retiredMappedModels.get? k = some m ∧ i < m.numInputs ∧ l < m.numLayers ∧
      r ∈ layerRuns m i l := by
  unfold chunkRuns modelRuns Dict.values
  simp only [List.mem_flatMap, List.mem_map, List.mem_range]
  constructor
  · rintro ⟨_, ⟨⟨k, m⟩, he, rfl⟩, i, hi, l, hl, hr⟩
    exact ⟨k, m, i, l, Dict.mem_entries_iff.mp he, hi, hl, hr⟩
  · rintro ⟨k, m, i, l, hm, hi, hl, hr⟩
    exact ⟨m, ⟨(k, m), Dict.mem_entries_iff.mpr hm, rfl⟩, i, hi, l, hl, hr⟩

theorem ChunkRun.pos {r : ChunkRun} (hr : r ∈ pc.chunkRuns) : 0 < r.energyFj ∧ 0 < r.latencyUs := by
  obtain ⟨k, m, i, l, -, -, -, hr⟩ := pc.mem_chunkRuns.mp hr
  obtain ⟨startTime, chunks, chunk, -, -, -, hrun⟩ := mem_layerRuns.mp hr
  exact (chunkRun?_eq_some hrun).2.2.2.2

/-- The energy of a chunk in microjoule: its power times its latency. -/
theorem ChunkRun.watts_mul {r : ChunkRun} (h : 0 < r.latencyUs) :
    r.watts * r.latencyUs = r.energyFj * (1 / 10 ^ 9) := by
  have hne := h.ne'
  unfold ChunkRun.watts
  field_simp

/-- A chunk within the simulation. -/
def ChunkRun.Within (r : ChunkRun) (globalTimeUs : ℚ) : Prop :=
  0 ≤ r.startTime ∧ r.startTime + r.latencyUs ≤ globalTimeUs

/-- The average powers of a chunk in all bins. -/
theorem ChunkRun.sum_bins {timeStepUs : ℚ} (hstep : 0 < timeStepUs) {r : ChunkRun}
    (hlat : 0 < r.latencyUs) (hr : r.Within pc.globalTimeUs) :
    ((List.range (pc.numTimePoints timeStepUs)).map fun t =>
      r.watts * (binOverlap timeStepUs r.startTime (r.startTime + r.latencyUs) t /
        timeStepUs)).sum * timeStepUs = r.energyFj * (1 / 10 ^ 9) := by
  have hend : r.startTime + r.latencyUs ≤ pc.numTimePoints timeStepUs * timeStepUs :=
    hr.2.trans ((le_add_of_nonneg_right hstep.le).trans (pc.globalTimeUs_le hstep))
  have hlength := sum_binOverlap_eq hstep.le hr.1 (le_add_of_nonneg_right hlat.le) hend
  rw [add_sub_cancel_left] at hlength
  calc _ = r.watts * ((List.range (pc.numTimePoints timeStepUs)).map
        (binOverlap timeStepUs r.startTime (r.startTime + r.latencyUs))).sum := by
        rw [← List.sum_map_mul_left, ← List.sum_map_mul_right]
        congr 1
        refine List.map_congr_left fun t _ => ?_
        rw [mul_assoc, div_mul_cancel₀ _ hstep.ne']
    _ = r.energyFj * (1 / 10 ^ 9) := by rw [hlength, watts_mul hlat]

/-- The profile of a chiplet, integrated. -/
theorem sum_computePower {timeStepUs : ℚ} (hstep : 0 < timeStepUs)
    (hruns : ∀ r ∈ pc.chunkRuns, r.Within pc.globalTimeUs) {k : ℕ} (hk : k ∈ pc.systemChiplets) :
    ∃ profile, (pc.computePower timeStepUs).get? k = some profile ∧
      profile.sum * timeStepUs =
        (pc.chunkRuns.map fun r =>
          if r.chipletId = k then r.energyFj * (1 / 10 ^ 9) else 0).sum := by
  refine ⟨_, pc.get?_computePower hstep hk, ?_⟩
  rw [sum_sum_comm, ← List.sum_map_mul_right]
  congr 1
  refine List.map_congr_left fun r hr => ?_
  split
  · exact ChunkRun.sum_bins pc hstep (ChunkRun.pos pc hr).2 (hruns r hr)
  · simp

/-- The chunks of a chiplet. -/
def chunksOf (k : ℕ) : List ChunkRun := pc.chunkRuns.filter fun r => r.chipletId = k

/-- **Binning.** The compute power of a chiplet in all bins times the time step, which is its
compute energy, is the energy of its chunks. -/
theorem binning_conserves_energy (timeStepUs : ℚ) (hstep : 0 < timeStepUs)
    (hruns : ∀ r ∈ pc.chunkRuns, 0 ≤ r.startTime ∧ r.startTime + r.latencyUs ≤ pc.globalTimeUs)
    (k : ℕ) (hk : k ∈ pc.systemChiplets) :
    ∃ profile, (pc.computePowerProfile timeStepUs).chipletCompute.get? k = some profile ∧
      (profile.map (· * timeStepUs)).sum =
        ((pc.chunksOf k).map fun r => r.energyFj * (1 / 10 ^ 9)).sum ∧
      (EnergyComputer.chipletEnergy timeStepUs
        (pc.computePowerProfile timeStepUs).chipletCompute).get? k =
          some ((pc.chunksOf k).map fun r => r.energyFj * (1 / 10 ^ 9)).sum := by
  have hne : pc.systemChiplets.isEmpty = false := by
    rw [List.isEmpty_eq_false_iff]
    exact List.ne_nil_of_mem hk
  have hcompute :
      (pc.computePowerProfile timeStepUs).chipletCompute = pc.computePower timeStepUs := by
    unfold computePowerProfile
    rw [if_neg (by rw [hne]; decide)]
  obtain ⟨profile, hprofile, hsum⟩ := pc.sum_computePower hstep hruns hk
  rw [sum_map_ite_zero] at hsum
  refine ⟨profile, by rw [hcompute, hprofile], ?_, ?_⟩
  · rw [List.sum_map_mul_right, List.map_id', hsum]
    rfl
  · unfold EnergyComputer.chipletEnergy
    rw [hcompute, Dict.get?_mapValues, hprofile, Option.map_some, hsum]
    rfl

/-- One retired model on three chiplets, at time `10`. -/
def oneModel (m : MappedModel) : PowerComputer where
  retiredMappedModels := .ofList [(0, m)]
  globalTimeUs := 10
  numChiplets := 3
  allChiplets := [1, 2]
  dsentStats := []
  allChiplets_nodup := by decide

open MappedModel in
/-- The chunk of `7` femtojoule on the second chiplet, in bins of three quarters. -/
theorem binning_conserves_energy_twoLayers : ∃ (m : MappedModel) (profile : List ℚ),
    ((oneModel m).computePowerProfile (3 / 4)).chipletCompute.get? 2 = some profile ∧
      ((oneModel m).chunksOf 2).map (·.energyFj) = [7] ∧
      (profile.map (· * (3 / 4))).sum =
        (((oneModel m).chunksOf 2).map fun r => r.energyFj * (1 / 10 ^ 9)).sum := by
  obtain ⟨m₀, h₀⟩ : ∃ m₀, prepare oneInput .justInTime twoLayersChunks twoLayersTraffic = .ok m₀ :=
    ⟨_, rfl⟩
  obtain ⟨m, -, hcheck⟩ := of_checkAfter h₀ (revised ++ completed ++ [(10, .syncLayers)])
    (fun m => (oneModel m).chunkRuns.all (fun r => decide (0 ≤ r.startTime ∧
      r.startTime + r.latencyUs ≤ (oneModel m).globalTimeUs)) &&
      decide (((oneModel m).chunksOf 2).map (·.energyFj) = [7])) (by decide +kernel)
  rw [Bool.and_eq_true, List.all_eq_true] at hcheck
  obtain ⟨hruns, henergy⟩ := hcheck
  have hchiplet : 2 ∈ (oneModel m).systemChiplets := (by decide : 2 ∈ List.range' 1 3)
  obtain ⟨profile, hprofile, hsum, -⟩ := binning_conserves_energy (oneModel m) (3 / 4) (by norm_num)
    (fun r hr => of_decide_eq_true (hruns r hr)) 2 hchiplet
  exact ⟨m, profile, hprofile, of_decide_eq_true henergy, hsum⟩

end PowerComputer

end ChipSim
