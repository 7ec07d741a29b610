import ChipSim.GlobalManager.Measured
import ChipSim.GlobalManager.Progress
import ChipSim.PowerComputer.Energy

/-!
# The compute energy of a simulation

All chunks that are counted lie within the simulation and on its chiplets, so the compute energy of
the system is the energy of the counted chunks. A chunk is counted for an input if a start of its
layer is recorded; the starts are recorded when communication is simulated, and a layer whose
compute phase starts after the last of these simulations is left out.
-/

namespace ChipSim

open Lib

namespace PowerComputer

/-! ## Arrays -/

theorem length_addArrays {n : ℕ} {l l' : List ℚ} (hl : l.length = n) (hl' : l'.length = n) :
    (addArrays l l').length = n := by
  unfold addArrays
  rw [List.length_zipWith, hl, hl', min_self]

theorem sum_addArrays {n : ℕ} {l l' : List ℚ} (hl : l.length = n) (hl' : l'.length = n) :
    (addArrays l l').sum = l.sum + l'.sum :=
  (List.sum_add_sum_eq_sum_zipWith_of_length_eq l l' (hl.trans hl'.symm)).symm

theorem sumArrays_spec {n : ℕ} {ls : List (List ℚ)} (h : ∀ l ∈ ls, l.length = n) :
    (sumArrays n ls).length = n ∧ (sumArrays n ls).sum = (ls.map List.sum).sum := by
  have hfold : ∀ acc : List ℚ, acc.length = n → (ls.foldl addArrays acc).length = n ∧
      (ls.foldl addArrays acc).sum = acc.sum + (ls.map List.sum).sum := by
    induction ls with
    | nil => simp
    | cons l ls ih =>
      intro acc hacc
      have hl := h l List.mem_cons_self
      obtain ⟨hlen, hsum⟩ := ih (fun l' hl' => h l' (List.mem_cons_of_mem l hl'))
        (addArrays acc l) (length_addArrays hacc hl)
      refine ⟨hlen, ?_⟩
      rw [List.foldl_cons, hsum, sum_addArrays hacc hl, List.map_cons, List.sum_cons, add_assoc]
  obtain ⟨hlen, hsum⟩ := hfold (zeros n) (List.length_replicate ..)
  refine ⟨hlen, hsum.trans ?_⟩
  unfold zeros
  rw [List.sum_replicate, nsmul_zero, zero_add]

theorem length_addActivity (n : ℕ) (timeStepUs s e : ℚ) (amount : ℚ → ℚ) (profile : List ℚ) :
    (addActivity n timeStepUs s e amount profile).length = profile.length := by
  unfold addActivity
  refine List.foldlRecOn (motive := fun p : List ℚ => p.length = profile.length) _ _ rfl
    fun p hp t _ => ?_
  dsimp only
  split
  · rw [List.length_modify, hp]
  · exact hp

/-- All profiles have the same number of time points. -/
def Sized (n : ℕ) (power : ChipletPower) : Prop :=
  ∀ k profile, power.get? k = some profile → profile.length = n

theorem Sized.values {n : ℕ} {power : ChipletPower} (h : Sized n power) :
    ∀ profile ∈ power.values, profile.length = n := by
  intro profile hprofile
  obtain ⟨e, he, rfl⟩ := List.mem_map.mp hprofile
  exact h e.1 e.2 (Dict.mem_entries_iff.mp he)

theorem Sized.addActivity {n : ℕ} {power : ChipletPower} (h : Sized n power) (chipletId : ℕ)
    (timeStepUs s e : ℚ) (amount : ℚ → ℚ) :
    Sized n (updateChiplet chipletId (addActivity n timeStepUs s e amount) power) := by
  intro k profile hk
  rw [updateChiplet_eq, Dict.get?_modify] at hk
  split at hk
  · obtain ⟨old, hold, rfl⟩ := Option.map_eq_some_iff.mp hk
    rw [length_addActivity, h k old hold]
  · exact h k profile hk

variable (pc : PowerComputer)

theorem sized_noPower (timeStepUs : ℚ) :
    Sized (pc.numTimePoints timeStepUs) (pc.noPower timeStepUs) := by
  intro k profile hk
  rw [get?_noPower] at hk
  split at hk
  · cases hk
    simp
  · cases hk

theorem sized_computePower (timeStepUs : ℚ) :
    Sized (pc.numTimePoints timeStepUs) (pc.computePower timeStepUs) := by
  rw [computePower_eq]
  exact List.foldlRecOn (motive := Sized (pc.numTimePoints timeStepUs)) _ _
    (pc.sized_noPower timeStepUs) fun power hpower r _ => hpower.addActivity _ _ _ _ _

/-- Both profiles of the communication. -/
def CommPower.Sized (n : ℕ) (power : CommPower) : Prop :=
  PowerComputer.Sized n power.activationComm ∧ PowerComputer.Sized n power.weightLoading

theorem CommPower.Sized.addComm {timeStepUs : ℚ} {power : CommPower}
    (h : power.Sized (pc.numTimePoints timeStepUs)) (s e watts : ℚ) (k : ℕ) :
    (pc.addComm timeStepUs s e watts power k).Sized (pc.numTimePoints timeStepUs) :=
  ⟨h.1.addActivity _ _ _ _ _, h.2.addActivity _ _ _ _ _⟩

theorem CommPower.Sized.addEntry {timeStepUs : ℚ} {power : CommPower}
    (h : power.Sized (pc.numTimePoints timeStepUs)) (x : DsentEntry × ℚ) :
    (pc.addEntry timeStepUs power x).Sized (pc.numTimePoints timeStepUs) := by
  unfold PowerComputer.addEntry
  split
  · exact h
  · next data _ =>
    dsimp only
    have hrouters : (data.routers.foldl (fun power router =>
        if 0 < RouterPower.total router.2 then pc.addComm timeStepUs x.1.globalTimeUs x.2
          (RouterPower.total router.2) power (router.1 + 1)
        else power) power).Sized (pc.numTimePoints timeStepUs) := by
      refine List.foldlRecOn (motive := CommPower.Sized (pc.numTimePoints timeStepUs)) _ _ h
        fun power hpower router _ => ?_
      split
      · exact hpower.addComm pc _ _ _ _
      · exact hpower
    split
    · split
      · exact List.foldlRecOn (motive := CommPower.Sized (pc.numTimePoints timeStepUs)) _ _ hrouters
          fun power hpower k _ => hpower.addComm pc _ _ _ _
      · exact hrouters
    · exact hrouters

theorem sized_commPower (timeStepUs : ℚ) :
    (pc.commPower timeStepUs).Sized (pc.numTimePoints timeStepUs) :=
  List.foldlRecOn (motive := CommPower.Sized (pc.numTimePoints timeStepUs)) _ _
    ⟨pc.sized_noPower timeStepUs, pc.sized_noPower timeStepUs⟩
    fun _ hpower x _ => hpower.addEntry pc x

theorem nodup_systemChiplets : pc.systemChiplets.Nodup := by
  unfold systemChiplets
  split
  · exact List.nodup_range' (h := by decide)
  · exact pc.allChiplets_nodup

theorem keys_computePower (timeStepUs : ℚ) :
    (pc.computePower timeStepUs).keys = pc.systemChiplets := by
  rw [computePower_eq]
  unfold addRuns
  rw [keys_addActivities]
  exact Dict.keys_comprehension _ _ pc.nodup_systemChiplets

/-! ## The energy of the system -/

/-- The compute power of the system, integrated: the energy of all chunks. -/
theorem sum_systemCompute {timeStepUs : ℚ} (hstep : 0 < timeStepUs)
    (hwithin : ∀ r ∈ pc.chunkRuns, r.Within pc.globalTimeUs)
    (hchiplet : ∀ r ∈ pc.chunkRuns, r.chipletId ∈ pc.systemChiplets) :
    (sumArrays (pc.numTimePoints timeStepUs) (pc.computePower timeStepUs).values).sum * timeStepUs =
      (pc.chunkRuns.map fun r => r.energyFj * (1 / 10 ^ 9)).sum := by
  rw [(sumArrays_spec (pc.sized_computePower timeStepUs).values).2]
  change Dict.sumOf List.sum (pc.computePower timeStepUs) * timeStepUs = _
  rw [Dict.sumOf_keys, keys_computePower, ← List.sum_map_mul_right]
  have hprofile : ∀ k ∈ pc.systemChiplets,
      (((pc.computePower timeStepUs).get? k).map List.sum).getD 0 * timeStepUs =
        (pc.chunkRuns.map fun r =>
          if r.chipletId = k then r.energyFj * (1 / 10 ^ 9) else 0).sum := by
    intro k hk
    obtain ⟨profile, hprofile, hsum⟩ := pc.sum_computePower hstep hwithin hk
    rw [hprofile, Option.map_some, Option.getD_some, hsum]
  rw [List.map_congr_left hprofile, sum_sum_comm]
  congr 1
  refine List.map_congr_left fun r hr => ?_
  exact sum_map_ite_eq_of_nodup pc.nodup_systemChiplets (hchiplet r hr) _

/-- In exact arithmetic the check of the total never fails. -/
theorem isClose_self (a : ℚ) : EnergyComputer.isClose a a = true := by
  unfold EnergyComputer.isClose
  rw [sub_self, abs_zero, decide_eq_true_eq]
  positivity

/-- The energy that is computed for the system. -/
theorem computeEnergyMetrics_eq {timeStepUs : ℚ} (hstep : 0 < timeStepUs)
    (hwithin : ∀ r ∈ pc.chunkRuns, r.Within pc.globalTimeUs)
    (hchiplet : ∀ r ∈ pc.chunkRuns, r.chipletId ∈ pc.systemChiplets) :
    ∃ e, EnergyComputer.computeEnergyMetrics (pc.computePowerProfile timeStepUs) = .ok (some e) ∧
      e.systemComputeEnergyUj = (pc.chunkRuns.map fun r => r.energyFj * (1 / 10 ^ 9)).sum := by
  unfold EnergyComputer.computeEnergyMetrics computePowerProfile
  by_cases hempty : pc.systemChiplets.isEmpty
  · have hnil : pc.systemChiplets = [] := List.isEmpty_iff.mp hempty
    have hruns : pc.chunkRuns = [] := by
      refine List.eq_nil_iff_forall_not_mem.mpr fun r hr => ?_
      have := hchiplet r hr
      rw [hnil] at this
      cases this
    simp only [if_pos hempty]
    rw [if_neg hstep.not_ge, if_pos (by simpa using isClose_self 0), hruns]
    exact ⟨_, rfl, by simp⟩
  · simp only [if_neg hempty]
    obtain ⟨hcomputeLen, -⟩ := sumArrays_spec (pc.sized_computePower timeStepUs).values
    obtain ⟨hactLen, -⟩ := sumArrays_spec (pc.sized_commPower timeStepUs).1.values
    obtain ⟨hweightLen, -⟩ := sumArrays_spec (pc.sized_commPower timeStepUs).2.values
    have htotal := sum_addArrays (length_addArrays hcomputeLen hactLen) hweightLen
    rw [sum_addArrays hcomputeLen hactLen] at htotal
    rw [if_neg hstep.not_ge, if_pos]
    · exact ⟨_, rfl, pc.sum_systemCompute hstep hwithin hchiplet⟩
    · rw [htotal, add_mul, add_mul]
      exact isClose_self _

/-! ## All chunks -/

/-- The energy of the chunks of a layer with positive energy and latency, in femtojoule. -/
def layerEnergyFj (m : MappedModel) (l : ℕ) : ℚ :=
  ((m.chunkResults.getD l .empty).values.map fun c =>
    if 0 < c.2.energyFj.getD 0 ∧ 0 < c.2.latencyUs.getD 0 then c.2.energyFj.getD 0 else 0).sum

/-- All models, their inputs and their layers. -/
def layerExecutions (models : Dict ℕ MappedModel) : List (MappedModel × ℕ × ℕ) :=
  models.values.flatMap fun m => (List.range m.numInputs).flatMap fun i =>
    (List.range m.numLayers).map fun l => (m, i, l)

/-- The energy of all chunks with positive energy and latency of all models for all their inputs,
in microjoule. -/
def chunkEnergyUj (models : Dict ℕ MappedModel) : ℚ :=
  ((layerExecutions models).map fun x => layerEnergyFj x.1 x.2.2 * (1 / 10 ^ 9)).sum

theorem mem_layerExecutions {models : Dict ℕ MappedModel} {x : MappedModel × ℕ × ℕ} :
    x ∈ layerExecutions models ↔ (∃ k, models.get? k = some x.1) ∧ x.2.1 < x.1.numInputs ∧
      x.2.2 < x.1.numLayers := by
  obtain ⟨m, i, l⟩ := x
  unfold layerExecutions Dict.values
  simp only [List.mem_flatMap, List.mem_map, List.mem_range]
  constructor
  · rintro ⟨_, ⟨⟨k, m⟩, he, rfl⟩, i, hi, l, hl, heq⟩
    cases heq
    exact ⟨⟨k, Dict.mem_entries_iff.mp he⟩, hi, hl⟩
  · rintro ⟨⟨k, hk⟩, hi, hl⟩
    exact ⟨m, ⟨(k, m), Dict.mem_entries_iff.mpr hk, rfl⟩, i, hi, l, hl, rfl⟩

theorem chunkRuns_eq : pc.chunkRuns =
    (layerExecutions pc.retiredMappedModels).flatMap fun x => layerRuns x.1 x.2.1 x.2.2 := by
  unfold chunkRuns modelRuns layerExecutions
  simp only [List.flatMap_assoc, List.flatMap_map]

theorem layerEnergyFj_nonneg (m : MappedModel) (l : ℕ) : 0 ≤ layerEnergyFj m l := by
  refine List.sum_nonneg fun v hv => ?_
  obtain ⟨c, -, rfl⟩ := List.mem_map.mp hv
  split
  · next h => exact h.1.le
  · exact le_rfl

/-- The counted energy of a layer: all of it, or nothing if no start is recorded. -/
theorem sum_layerRuns (m : MappedModel) (i l : ℕ) :
    ((layerRuns m i l).map fun r => r.energyFj * (1 / 10 ^ 9)).sum =
      if (m.layerRecords.startTimeUs.get2? i l).isSome then layerEnergyFj m l * (1 / 10 ^ 9)
      else 0 := by
  unfold layerRuns
  cases m.layerRecords.startTimeUs.get2? i l with
  | none => rfl
  | some startTime =>
    unfold layerEnergyFj Dict.values
    rw [Option.isSome_some, if_pos rfl, sum_map_filterMap, ← List.sum_map_mul_right, List.map_map]
    congr 1
    refine List.map_congr_left fun chunk _ => ?_
    unfold chunkRun?
    dsimp only [Function.comp_apply]
    split
    · rfl
    · simp

/-- Nothing is lost exactly if every layer with such a chunk has a recorded start. -/
theorem sum_chunkRuns_eq_iff :
    (pc.chunkRuns.map fun r => r.energyFj * (1 / 10 ^ 9)).sum =
        chunkEnergyUj pc.retiredMappedModels ↔
      ∀ k m, pc.retiredMappedModels.get? k = some m → ∀ i < m.numInputs, ∀ l < m.numLayers,
        0 < layerEnergyFj m l → ∃ t, m.layerRecords.startTimeUs.get2? i l = some t := by
  have hnonneg : ∀ x : MappedModel × ℕ × ℕ, 0 ≤ layerEnergyFj x.1 x.2.2 * (1 / 10 ^ 9) :=
    fun x => mul_nonneg (layerEnergyFj_nonneg x.1 x.2.2) (by norm_num)
  have hsum : (pc.chunkRuns.map fun r => r.energyFj * (1 / 10 ^ 9)).sum =
      ((layerExecutions pc.retiredMappedModels).map fun x =>
        if (x.1.layerRecords.startTimeUs.get2? x.2.1 x.2.2).isSome then
          layerEnergyFj x.1 x.2.2 * (1 / 10 ^ 9) else 0).sum := by
    rw [chunkRuns_eq, List.map_flatMap, List.flatMap_def, List.sum_flatten, List.map_map]
    congr 1
    exact List.map_congr_left fun x _ => sum_layerRuns x.1 x.2.1 x.2.2
  unfold chunkEnergyUj
  rw [hsum, sum_map_eq_iff_of_le]
  · constructor
    · intro h k m hm i hi l hl hpos
      have heq := h (m, i, l) (mem_layerExecutions.mpr ⟨⟨k, hm⟩, hi, hl⟩)
      by_contra hnone
      rw [if_neg fun hsome => hnone (Option.isSome_iff_exists.mp hsome)] at heq
      exact (mul_pos hpos (by norm_num)).ne heq
    · intro h x hx
      obtain ⟨⟨k, hk⟩, hi, hl⟩ := mem_layerExecutions.mp hx
      rcases (layerEnergyFj_nonneg x.1 x.2.2).eq_or_lt with hzero | hpos
      · rw [← hzero]
        simp
      · rw [if_pos (Option.isSome_iff_exists.mpr (h k x.1 hk x.2.1 hi x.2.2 hl hpos))]
  · intro x _
    split
    · exact le_rfl
    · exact hnonneg x

/-! ## Simulations -/

/-- The power computer of a simulation without warmup and cooldown gets all retired models, the
final time and the number of chiplets. -/
structure Processes (pc : PowerComputer) (s : GlobalManager.State) : Prop where
  models : pc.retiredMappedModels = s.retiredMappedModels
  time : pc.globalTimeUs = s.globalTimeUs
  chiplets : pc.numChiplets = s.system.numChiplets

section

variable {pc} {s : GlobalManager.State}

/-- The chunks of a simulation are within it. -/
theorem Processes.within (h : pc.Processes s)
    (hs : GlobalManager.AllMeasured s.system.numChiplets s) {r : ChunkRun} (hr : r ∈ pc.chunkRuns) :
    r.Within pc.globalTimeUs := by
  obtain ⟨k, m, i, l, hm, hi, hl, hr⟩ := pc.mem_chunkRuns.mp hr
  obtain ⟨startTime, chunks, chunk, hstart, hchunks, hchunk, hrun⟩ := mem_layerRuns.mp hr
  obtain ⟨hs₁, -, -, hlat, -, -⟩ := chunkRun?_eq_some hrun
  rw [h.models] at hm
  obtain ⟨hmeasured, hdone⟩ := hs.models.retired k m hm
  rw [h.time]
  unfold ChunkRun.Within
  rw [hs₁]
  exact (hmeasured.layerStarts (by omega)).chunk_within hdone hstart hl hchunks hchunk hlat

/-- They are on the chiplets of the system. -/
theorem Processes.chiplet (h : pc.Processes s)
    (hs : GlobalManager.AllMeasured s.system.numChiplets s) {r : ChunkRun} (hr : r ∈ pc.chunkRuns) :
    r.chipletId ∈ pc.systemChiplets := by
  obtain ⟨k, m, i, l, hm, -, -, hr⟩ := pc.mem_chunkRuns.mp hr
  obtain ⟨startTime, chunks, chunk, -, hchunks, hchunk, hrun⟩ := mem_layerRuns.mp hr
  rw [h.models] at hm
  have hmem : chunk.1 ∈ chunks := Dict.mem_of_get? (Dict.mem_entries_iff.mp hchunk)
  obtain ⟨h1, hn⟩ := (hs.models.retired k m hm).1.chiplet hchunks hmem
  rw [(chunkRun?_eq_some hrun).2.1]
  unfold systemChiplets
  rw [if_pos (by rw [h.chiplets]; omega), List.mem_range'_1, h.chiplets]
  omega

end

/-- **Compute energy.** After any simulation with a sensible network, the compute energy of the
system is the energy of all chunks, for all inputs of all retired models, exactly if every layer
that has such a chunk has a recorded start for every input. -/
theorem system_energy_iff {specs : List ChipletSpec} {adjMatrix : ℕ → ℕ → ℚ}
    {rows : List WorkloadEntry} {threshold : ℕ} {c : GlobalManager.Config}
    {s₀ s : GlobalManager.State} (hnet : Orchestrator.Sensible c.network)
    (hstart : GlobalManager.start specs adjMatrix rows threshold = .ok s₀)
    (hreach : GlobalManager.Reachable c s₀ s) (hpc : pc.Processes s) {timeStepUs : ℚ}
    (hstep : 0 < timeStepUs) :
    (∃ e, EnergyComputer.computeEnergyMetrics (pc.computePowerProfile timeStepUs) = .ok (some e) ∧
      e.systemComputeEnergyUj = chunkEnergyUj s.retiredMappedModels) ↔
    ∀ k m, s.retiredMappedModels.get? k = some m → ∀ i < m.numInputs, ∀ l < m.numLayers,
      0 < layerEnergyFj m l → ∃ t, m.layerRecords.startTimeUs.get2? i l = some t := by
  have hs := GlobalManager.allMeasured_of_reachable hnet hstart hreach
  obtain ⟨e, he, henergy⟩ := pc.computeEnergyMetrics_eq hstep (fun r => hpc.within hs)
    fun r => hpc.chiplet hs
  rw [← hpc.models, ← sum_chunkRuns_eq_iff, ← henergy]
  constructor
  · rintro ⟨e', he', heq⟩
    rw [he, Except.ok.injEq, Option.some.injEq] at he'
    rw [he', heq]
  · exact fun heq => ⟨e, he, heq⟩

/-- The power computer after a simulation, without statistics of the network. -/
def ofState (s : GlobalManager.State) : PowerComputer where
  retiredMappedModels := s.retiredMappedModels
  globalTimeUs := s.globalTimeUs
  numChiplets := s.system.numChiplets
  allChiplets := []
  dsentStats := []
  allChiplets_nodup := by decide

open GlobalManager in
/-- A simulation of one model with one input. -/
def singleInputRun (n : ℕ) : Except PyError State := do
  let s ← start smallSystem chainMatrix [⟨0, "two-layers", 1, 0⟩] 10
  stepsFrom smallConfig n s

open GlobalManager in
/-- With a single input all starts are recorded, and the energy of three chunks is counted. -/
theorem system_energy_single : ∃ s e, singleInputRun 200 = .ok s ∧ s.stage = .finished ∧
    EnergyComputer.computeEnergyMetrics ((ofState s).computePowerProfile (3 / 4)) = .ok (some e) ∧
    e.systemComputeEnergyUj = chunkEnergyUj s.retiredMappedModels ∧
    chunkEnergyUj s.retiredMappedModels = 21 / 10 ^ 9 := by
  have hrun : ((singleInputRun 200).toOption.map fun s => (s.stage,
      decide (chunkEnergyUj s.retiredMappedModels = 21 / 10 ^ 9),
      (layerExecutions s.retiredMappedModels).all fun x =>
        (x.1.layerRecords.startTimeUs.get2? x.2.1 x.2.2).isSome)) =
      some (.finished, true, true) := by decide +kernel
  obtain ⟨s, hs, heq⟩ := Option.map_eq_some_iff.mp hrun
  rw [toOption_eq_some] at hs
  rw [Prod.mk.injEq, Prod.mk.injEq, List.all_eq_true] at heq
  obtain ⟨hfinished, henergy, hall⟩ := heq
  obtain ⟨s₀, hs₀, hsteps⟩ := bind_eq_ok.mp hs
  obtain ⟨e, he, heq⟩ := (system_energy_iff (ofState s) smallConfig_responsive.sensible hs₀
    (Reachable.start.stepsFrom hsteps) ⟨rfl, rfl, rfl⟩ (by norm_num : (0 : ℚ) < 3 / 4)).mpr
    fun k m hm i hi l hl _ => Option.isSome_iff_exists.mp
      (hall (m, i, l) (mem_layerExecutions.mpr ⟨⟨k, hm⟩, hi, hl⟩))
  exact ⟨s, e, hs, hfinished, he, heq, of_decide_eq_true henergy⟩

open GlobalManager in
/-- The last layer of the second input starts after the last communication and is left out: two of
nine chunks are missing. -/
theorem system_energy_incomplete :
    ∃ s₀ s e, start smallSystem chainMatrix smallWorkload 10 = .ok s₀ ∧
    Reachable smallConfig s₀ s ∧ s.stage = .finished ∧
    EnergyComputer.computeEnergyMetrics ((ofState s).computePowerProfile 1) = .ok (some e) ∧
    e.systemComputeEnergyUj = 49 / 10 ^ 9 ∧
    chunkEnergyUj s.retiredMappedModels = 63 / 10 ^ 9 := by
  have hrun : ((smallRun 255).toOption.map fun s => (s.stage,
      decide (chunkEnergyUj s.retiredMappedModels = 63 / 10 ^ 9),
      (EnergyComputer.computeEnergyMetrics
        ((ofState s).computePowerProfile 1)).toOption.bind
          (Option.map (·.systemComputeEnergyUj)))) =
      some (.finished, true, some (49 / 10 ^ 9)) := by decide +kernel
  obtain ⟨s, hs, heq⟩ := Option.map_eq_some_iff.mp hrun
  rw [toOption_eq_some] at hs
  rw [Prod.mk.injEq, Prod.mk.injEq] at heq
  obtain ⟨hfinished, htotal, henergy⟩ := heq
  obtain ⟨r, hr, henergy⟩ := Option.bind_eq_some_iff.mp henergy
  obtain ⟨e, rfl, hvalue⟩ := Option.map_eq_some_iff.mp henergy
  rw [toOption_eq_some] at hr
  obtain ⟨s₀, hs₀, hreach⟩ := smallRun_reachable hs
  exact ⟨s₀, s, e, hs₀, hreach, hfinished, hr, hvalue, of_decide_eq_true htotal⟩

end PowerComputer

end ChipSim
