import ChipSim.PowerComputer.SystemEnergy

/-!
# Where compute power is placed

A chunk is counted from the recorded start of its layer, which may be that of its weight loading.
If the compute phase is the first of the layer's phases to start, the chunk is counted while it is
computed.
-/

namespace ChipSim

open Lib

namespace PowerComputer

open MappedModel

/-- An instance of the compute phase of a layer that is mapped to the chiplet. -/
def ComputesOn (models : Dict ℕ MappedModel) (chipletId : ℕ) (x : PhaseInstance) : Prop :=
  ∃ k m i p phase l, models.get? k = some m ∧ m.phases.get? p = some phase ∧
    phase.kind = .compute l ∧ MappedTo m.mapping l chipletId ∧ m.instance? i p = some x

/-- The instances of the compute phases of a model. -/
def computeInstances (m : MappedModel) : List PhaseInstance :=
  m.phaseInstances.values.flatMap fun d => (d.entries.filter fun e =>
    (m.phases.get? e.1).any Phase.isCompute).map Prod.snd

theorem ComputesOn.mem {models : Dict ℕ MappedModel} {chipletId : ℕ} {x : PhaseInstance}
    (h : ComputesOn models chipletId x) : x ∈ models.values.flatMap computeInstances := by
  obtain ⟨k, m, i, p, phase, l, hm, hp, hkind, -, hx⟩ := h
  obtain ⟨d, hd, hx⟩ := Option.bind_eq_some_iff.mp hx
  have hcompute : phase.isCompute = true := by rw [Phase.isCompute, hkind]
  refine List.mem_flatMap.mpr ⟨m, List.mem_map.mpr ⟨(k, m), Dict.mem_entries_iff.mpr hm, rfl⟩, ?_⟩
  refine List.mem_flatMap.mpr ⟨d, List.mem_map.mpr ⟨(i, d), Dict.mem_entries_iff.mpr hd, rfl⟩, ?_⟩
  refine List.mem_map.mpr ⟨(p, x), List.mem_filter.mpr ⟨Dict.mem_entries_iff.mpr hx, ?_⟩, rfl⟩
  rw [hp]
  exact hcompute

variable (pc : PowerComputer)

/-- Compute power in a bin comes with a computation in the bin. -/
def PowerWhereComputing (timeStepUs : ℚ) : Prop :=
  ∀ k profile t power, (pc.computePowerProfile timeStepUs).chipletCompute.get? k = some profile →
    profile[t]? = some power → 0 < power →
    ∃ x, ComputesOn pc.retiredMappedModels k x ∧
      0 < binOverlap timeStepUs x.startTimeUs x.completionTimeUs t

theorem ChunkRun.watts_pos {r : ChunkRun} (hr : r ∈ pc.chunkRuns) : 0 < r.watts := by
  obtain ⟨henergy, hlatency⟩ := ChunkRun.pos pc hr
  unfold ChunkRun.watts
  positivity

/-- The power in a bin is positive if a chunk overlaps it. -/
theorem computePower_pos_iff {timeStepUs : ℚ} (hstep : 0 < timeStepUs) {k t : ℕ} {power : ℚ}
    {profile : List ℚ} (hprofile : (pc.computePower timeStepUs).get? k = some profile)
    (ht : profile[t]? = some power) : 0 < power ↔ ∃ r ∈ pc.chunkRuns, r.chipletId = k ∧
      0 < binOverlap timeStepUs r.startTime (r.startTime + r.latencyUs) t := by
  have hk : k ∈ pc.systemChiplets := by
    rw [← pc.keys_computePower timeStepUs]
    exact Dict.mem_def.mp (Dict.mem_of_get? hprofile)
  rw [pc.get?_computePower hstep hk, Option.some.injEq] at hprofile
  rw [← hprofile, List.getElem?_map] at ht
  obtain ⟨t', ht', rfl⟩ := Option.map_eq_some_iff.mp ht
  obtain ⟨_, rfl⟩ := List.getElem?_eq_some_iff.mp ht'
  rw [List.getElem_range]
  have hpart : ∀ r ∈ pc.chunkRuns, (0 : ℚ) < (if r.chipletId = k then
      r.watts * (binOverlap timeStepUs r.startTime (r.startTime + r.latencyUs) t / timeStepUs)
      else 0) ↔ r.chipletId = k ∧
        0 < binOverlap timeStepUs r.startTime (r.startTime + r.latencyUs) t := by
    intro r hr
    split
    · next hrk =>
      rw [mul_pos_iff_of_pos_left (ChunkRun.watts_pos pc hr), div_pos_iff_of_pos_right hstep]
      exact ⟨fun h => ⟨hrk, h⟩, fun h => h.2⟩
    · next hrk => exact ⟨fun h => absurd h (lt_irrefl 0), fun h => absurd h.1 hrk⟩
  rw [sum_map_pos_iff_of_nonneg]
  · exact exists_congr fun r => and_congr_right (hpart r)
  · intro r hr
    split
    · exact mul_nonneg (ChunkRun.watts_pos pc hr).le (div_nonneg (overlap_nonneg ..) hstep.le)
    · exact le_rfl

theorem chipletCompute_eq {timeStepUs : ℚ} {k : ℕ} (hk : k ∈ pc.systemChiplets) :
    (pc.computePowerProfile timeStepUs).chipletCompute = pc.computePower timeStepUs := by
  unfold computePowerProfile
  rw [if_neg]
  rw [List.isEmpty_iff]
  exact List.ne_nil_of_mem hk

theorem mem_systemChiplets_of_profile {timeStepUs : ℚ} {k : ℕ} {profile : List ℚ}
    (h : (pc.computePowerProfile timeStepUs).chipletCompute.get? k = some profile) :
    k ∈ pc.systemChiplets := by
  unfold computePowerProfile at h
  split at h
  · cases h
  · rw [← pc.keys_computePower timeStepUs]
    exact Dict.mem_def.mp (Dict.mem_of_get? h)

/-- For every input, the compute phase of a layer with a chunk of positive energy and latency starts
before the other phases of the layer or together with them. -/
def ComputesFirst (models : Dict ℕ MappedModel) : Prop :=
  ∀ x ∈ layerExecutions models, 0 < layerEnergyFj x.1 x.2.2 →
    ∀ y ∈ x.1.instancesOf x.2.1 fun phase => phase.isCompute && x.2.2 ∈ phase.layerIndices,
      ∀ z ∈ x.1.instancesOf x.2.1 fun phase => x.2.2 ∈ phase.layerIndices,
        y.startTimeUs ≤ z.startTimeUs

instance (models : Dict ℕ MappedModel) : Decidable (ComputesFirst models) := by
  unfold ComputesFirst
  infer_instance

/-- A layer with a counted chunk has positive energy. -/
theorem layerEnergyFj_pos {m : MappedModel} {i l : ℕ} {r : ChunkRun} (hr : r ∈ layerRuns m i l) :
    0 < layerEnergyFj m l := by
  obtain ⟨startTime, chunks, chunk, -, hchunks, hchunk, hrun⟩ := mem_layerRuns.mp hr
  obtain ⟨-, -, henergy, hlatency, hpos, hlpos⟩ := chunkRun?_eq_some hrun
  unfold layerEnergyFj Dict.getD
  rw [hchunks, Option.getD_some]
  refine (sum_map_pos_iff_of_nonneg fun c _ => ?_).mpr
    ⟨chunk.2, List.mem_map_of_mem (f := Prod.snd) hchunk, ?_⟩
  · split
    · next h => exact h.1.le
    · exact le_rfl
  · rw [henergy, hlatency, Option.getD_some, Option.getD_some, if_pos ⟨hpos, hlpos⟩]
    exact hpos

/-- A chunk is then counted while its layer is computed. -/
theorem Processes.computed {pc : PowerComputer} {s : GlobalManager.State} (h : pc.Processes s)
    (hs : GlobalManager.AllMeasured s.system.numChiplets s)
    (hfirst : ComputesFirst pc.retiredMappedModels) {r : ChunkRun} (hr : r ∈ pc.chunkRuns) :
    ∃ y, ComputesOn pc.retiredMappedModels r.chipletId y ∧ y.startTimeUs ≤ r.startTime ∧
      r.startTime + r.latencyUs ≤ y.completionTimeUs := by
  obtain ⟨k, m, i, l, hm, hi, hl, hr⟩ := pc.mem_chunkRuns.mp hr
  have henergy := layerEnergyFj_pos hr
  obtain ⟨startTime, chunks, chunk, hstart, hchunks, hchunk, hrun⟩ := mem_layerRuns.mp hr
  obtain ⟨rfl, hchiplet, -, hlatency, -, -⟩ := chunkRun?_eq_some hrun
  obtain ⟨hmeasured, hdone⟩ := hs.models.retired k m (h.models ▸ hm)
  have hstarts := hmeasured.layerStarts (by omega)
  obtain ⟨c, cphase, y, hc, hkind, hy, hle, -, hends⟩ := hstarts.computed hdone hstart hl
  obtain ⟨-, p, phase, x, hp, hlp, -, hx, hxt⟩ := hstarts.starts i l r.startTime hstart
  have hlc : l ∈ cphase.layerIndices := by simp [Phase.layerIndices, hkind]
  have hge : y.startTimeUs ≤ r.startTime := by
    rw [← hxt]
    refine hfirst (m, i, l) (mem_layerExecutions.mpr ⟨⟨k, hm⟩, hi, hl⟩) henergy y
      (mem_instancesOf.mpr ⟨c, cphase, hc, ?_, hy⟩) x
      (mem_instancesOf.mpr ⟨p, phase, hp, decide_eq_true hlp, hx⟩)
    rw [Phase.isCompute, hkind, Bool.true_and, decide_eq_true_eq]
    exact hlc
  refine ⟨y, ⟨k, m, i, c, cphase, l, hm, hc, hkind, ?_, hy⟩, hge, ?_⟩
  · rw [hchiplet]
    exact hmeasured.chunks l chunks chunk.1 hchunks
      (Dict.mem_of_get? (Dict.mem_entries_iff.mp hchunk))
  · exact (add_le_add_left hle _).trans (hends chunks chunk _ hchunks hchunk hlatency)

/-- **Compute power.** After any simulation with a sensible network in which the compute phases
start first, compute power is placed only where a layer of the chiplet is computed. -/
theorem power_where_computing {specs : List ChipletSpec} {adjMatrix : ℕ → ℕ → ℚ}
    {rows : List WorkloadEntry} {threshold : ℕ} {c : GlobalManager.Config}
    {s₀ s : GlobalManager.State} (hnet : Orchestrator.Sensible c.network)
    (hstart : GlobalManager.start specs adjMatrix rows threshold = .ok s₀)
    (hreach : GlobalManager.Reachable c s₀ s) (hpc : pc.Processes s)
    (hfirst : ComputesFirst s.retiredMappedModels) {timeStepUs : ℚ} (hstep : 0 < timeStepUs) :
    pc.PowerWhereComputing timeStepUs := by
  have hs := GlobalManager.allMeasured_of_reachable hnet hstart hreach
  intro k profile t power hprofile ht hpos
  rw [pc.chipletCompute_eq (pc.mem_systemChiplets_of_profile hprofile)] at hprofile
  obtain ⟨r, hr, rfl, hoverlap⟩ := (pc.computePower_pos_iff hstep hprofile ht).mp hpos
  obtain ⟨y, hy, hbefore, hafter⟩ := hpc.computed hs (hpc.models ▸ hfirst) hr
  refine ⟨y, hy, overlap_pos_iff.mpr ?_⟩
  calc max y.startTimeUs (t * timeStepUs) ≤ max r.startTime (t * timeStepUs) :=
        max_le_max_right _ hbefore
    _ < min (r.startTime + r.latencyUs) (t * timeStepUs + timeStepUs) :=
        overlap_pos_iff.mp hoverlap
    _ ≤ min y.completionTimeUs (t * timeStepUs + timeStepUs) := min_le_min_right _ hafter

open GlobalManager in
/-- Without an I/O chiplet there are no weights to load, and the five chunks with a recorded start
are counted while they are computed. -/
theorem power_where_computing_without_io : ∃ s₀ s,
    start [cmosChiplet, cmosChiplet] chainMatrix smallWorkload 10 = .ok s₀ ∧
    Reachable smallConfig s₀ s ∧ s.stage = .finished ∧ (ofState s).chunkRuns.length = 5 ∧
    ∀ timeStepUs, 0 < timeStepUs → (ofState s).PowerWhereComputing timeStepUs := by
  have hrun : ((do
      let s₀ ← start [cmosChiplet, cmosChiplet] chainMatrix smallWorkload 10
      let s ← stepsFrom smallConfig 255 s₀
      return (s.stage, (ofState s).chunkRuns.length,
        decide (ComputesFirst s.retiredMappedModels)) : Except PyError _).toOption) =
      some (.finished, 5, true) := by decide +kernel
  rw [toOption_eq_some] at hrun
  obtain ⟨s₀, hs₀, hrun⟩ := bind_eq_ok.mp hrun
  obtain ⟨s, hs, hrun⟩ := bind_eq_ok.mp hrun
  rw [pure_eq_ok, Except.ok.injEq, Prod.mk.injEq, Prod.mk.injEq, decide_eq_true_eq] at hrun
  obtain ⟨hfinished, hchunks, hfirst⟩ := hrun
  have hreach := Reachable.start.stepsFrom hs
  exact ⟨s₀, s, hs₀, hreach, hfinished, hchunks, fun _ hstep => power_where_computing (ofState s)
    smallConfig_responsive.sensible hs₀ hreach ⟨rfl, rfl, rfl⟩ hfirst hstep⟩

open GlobalManager in
/-- In the small simulation the first chiplet gets compute power from the first instant on, while
the weights are loaded and nothing is computed. -/
theorem power_while_loading : ∃ s₀ s profile power,
    start smallSystem chainMatrix smallWorkload 10 = .ok s₀ ∧ Reachable smallConfig s₀ s ∧
    s.stage = .finished ∧ ((ofState s).computePowerProfile 1).chipletCompute.get? 1 = some profile ∧
    profile[0]? = some power ∧ 0 < power ∧
    ∀ x, ComputesOn s.retiredMappedModels 1 x →
      ¬ 0 < binOverlap 1 x.startTimeUs x.completionTimeUs 0 := by
  have hrun : ((smallRun 255).toOption.map fun s => (s.stage,
      (((ofState s).computePowerProfile 1).chipletCompute.get? 1).any fun profile =>
        profile[0]?.any fun power => decide (0 < power),
      (s.retiredMappedModels.values.flatMap computeInstances).all fun x =>
        decide (¬ 0 < binOverlap 1 x.startTimeUs x.completionTimeUs 0))) =
      some (.finished, true, true) := by decide +kernel
  obtain ⟨s, hs, heq⟩ := Option.map_eq_some_iff.mp hrun
  rw [toOption_eq_some] at hs
  rw [Prod.mk.injEq, Prod.mk.injEq, List.all_eq_true, Option.any_eq_true] at heq
  obtain ⟨hfinished, ⟨profile, hprofile, hpower⟩, hall⟩ := heq
  obtain ⟨power, hpower, hpos⟩ := (Option.any_eq_true _ _).mp hpower
  obtain ⟨s₀, hs₀, hreach⟩ := smallRun_reachable hs
  exact ⟨s₀, s, profile, power, hs₀, hreach, hfinished, hprofile, hpower, of_decide_eq_true hpos,
    fun x hx => of_decide_eq_true (hall x hx.mem)⟩

end PowerComputer

end ChipSim
