import ChipSim.MappedModel.Synchronised
import ChipSim.MappedModel.TimingFixpoint

/-!
# Times that are known are final

`calculate_phase_timing` writes the start of a phase as soon as its dependencies are complete, and
the phase computes it once more when it begins. Both calculations agree, so a start time that is
known never changes. The completion time is written once as well, when start and latency are
known; it stays the sum of the two only if the latency is not revised afterwards.
-/

namespace ChipSim

open Lib

namespace MappedModel

variable {m m' : MappedModel} {g : ℚ} {i p : ℕ}

/-! ## Start times -/

/-- A start time that is known before the phase begins is the one calculated when it does. -/
structure KnownStarts (g : ℚ) (m : MappedModel) : Prop extends NonNegTimes g m where
  loads : LoadsOnce m
  known : ∀ i p phase x, m.phases.get? p = some phase → m.instance? i p = some x →
    x.state = .notStarted → 0 ≤ x.startTimeUs → m.inputStart i ≠ -1 ∧ DepsComplete m i p phase ∧
      x.startTimeUs = m.calculatePhaseStartTime i p phase

theorem Initial.knownStarts (h : Initial m) (hN : 0 < m.numInputs) (h0 : 0 ≤ m.modelStartTimeUs)
    (g : ℚ) : KnownStarts g m where
  toNonNegTimes := h.nonNegTimes hN h0 g
  loads := h.loadsOnce
  known i p phase x _ hx _ hstart := by
    rw [(h.instances.fresh i p x hx).start] at hstart
    exact absurd hstart (by norm_num)

/-- Handling a phase moves its start only when it begins: to the calculated time, or to the
current one when its weights are loaded already. -/
theorem handlePhase_start (m : MappedModel) (g : ℚ) (i p : ℕ) (phase : Phase) (x : PhaseInstance) :
    (m.handlePhase g i p phase x).inst.startTimeUs = x.startTimeUs ∨
      x.state = .notStarted ∧
        ((m.handlePhase g i p phase x).inst.startTimeUs = m.calculatePhaseStartTime i p phase ∨
          phase.isWeightLoading = true ∧ m.allWeightsLoaded phase.layersToLoad = true) := by
  have hh := handlePhase_handling m g i p phase x
  generalize m.handlePhase g i p phase x = o at hh ⊢
  cases hh with
  | computeBegins hk hs => exact .inr ⟨hs, .inl rfl⟩
  | commBegins hk hs hl ht => exact .inr ⟨hs, .inl rfl⟩
  | commEmpty hk hs hl ht => exact .inr ⟨hs, .inl rfl⟩
  | skipped hw hall hs => exact .inr ⟨hs, .inr ⟨hw, hall⟩⟩
  | _ => exact .inl rfl

theorem DepsComplete.advance {ok : Guard} {phase : Phase} (h : DepsComplete m i p phase)
    (hadv : Advance ok g m m') : DepsComplete m' i p phase :=
  ⟨fun d hd => hadv.completeOrAbsent (h.deps d hd),
    fun hpipe hi => hadv.completeOrAbsent (h.previous (by rw [← hadv.schedule]; exact hpipe) hi)⟩

/-- **One step.** A start time that is known does not change. -/
theorem KnownStarts.start_eq (h : KnownStarts g m) (hadv : Advance nonNegative g m m')
    {x y : PhaseInstance} (hx : m.instance? i p = some x) (hy : m'.instance? i p = some y)
    (hstart : 0 ≤ x.startTimeUs) :
    y.startTimeUs = x.startTimeUs := by
  cases hadv.change hx hy with
  | same hxy => rw [hxy]
  | handled hset hg hphase hstate hmet hxy hm' =>
    next phase =>
    rw [hxy]
    rcases handlePhase_start m g i p phase x with hkeep | ⟨hs, hcalc | ⟨hw, hall⟩⟩
    · exact hkeep
    · rw [hcalc, (h.known i p phase x hphase hx hs hstart).2.2]
    · rw [h.loads.not_allWeightsLoaded h.wellFormed hphase hw hx hstate] at hall
      cases hall
  | latency hok hxy => rw [hxy, (updateLatency_times ..).1]
  | times hset hphase hstate hmet hxy =>
    rw [hxy]
    unfold PhaseInstance.fillTimes
    rw [if_neg (not_lt.mpr hstart)]
    dsimp only
    split <;> rfl

theorem KnownStarts.advance (h : KnownStarts g m) (hadv : Advance nonNegative g m m') :
    KnownStarts g m' := by
  refine ⟨h.toNonNegTimes.advance hadv, h.loads.advance h.toShape hadv, ?_⟩
  intro i p phase y hp hy hs hstart
  rw [hadv.schedule] at hp
  -- known before the step, or filled in by it
  have hbefore : m.inputStart i ≠ -1 ∧ DepsComplete m i p phase ∧
      y.startTimeUs = m.calculatePhaseStartTime i p phase := by
    obtain ⟨x, hx, hchange⟩ := hadv.instance_cases hy
    have hold := h.known i p phase x hp hx
    cases hchange with
    | same hxy => rw [hxy] at hs hstart ⊢; exact hold hs hstart
    | handled hset hg hphase hstate hmet hxy hm' =>
      rw [hxy] at hs hstart ⊢
      obtain ⟨-, -, hmove⟩ := handlePhase_step m g i p _ x hstate
      cases hmove with
      | stay state start => rw [state] at hs; rw [start] at hstart ⊢; exact hold hs hstart
      | begin was state => rw [state] at hs; cases hs
      | finish was state => rw [state] at hs; cases hs
      | pass was state => rw [state] at hs; cases hs
    | latency hok hxy =>
      rw [hxy, updateLatency_state] at hs
      rw [hxy, (updateLatency_times ..).1] at hstart ⊢
      exact hold hs hstart
    | times hset hphase hstate hmet hxy =>
      rw [hp, Option.some.injEq] at hphase
      subst hphase
      rw [hxy, fillTimes_state] at hs
      rw [hxy] at hstart ⊢
      rcases fillTimes_start x (m.calculatePhaseStartTime i p phase) with hf | hf <;>
        rw [hf] at hstart ⊢
      · exact hold hs hstart
      · exact ⟨hset, depsComplete_of_met hp hmet, rfl⟩
  obtain ⟨hset, hdeps, hval⟩ := hbefore
  refine ⟨?_, hdeps.advance hadv, ?_⟩
  · rw [hadv.inputStart_eq h.toShape hset]
    exact hset
  · rw [hval, calculatePhaseStartTime_advance h.toShape hadv hdeps hset]

theorem KnownStarts.later {g g' : ℚ} (hg : g ≤ g') (h : KnownStarts g m) :
    KnownStarts g' m :=
  ⟨h.toNonNegTimes.later hg, h.loads, h.known⟩

/-! ## Completion times -/

/-- Latencies are recorded for running communications only, and a new one is what is left of the
old one, if there is one. -/
def steady : Guard
  | g, m, .updateLatency i p newLatency => 0 ≤ newLatency ∧ ∃ phase x,
      m.phases.get? p = some phase ∧ phase.isCompute = false ∧ m.instance? i p = some x ∧
      x.state = .running ∧ (0 < x.latencyUs → g - x.startTimeUs + newLatency = x.latencyUs)
  | _, _, _ => True

theorem nonNegative_of_steady (g : ℚ) (m : MappedModel) (op : TickOp) (h : steady g m op) :
    nonNegative g m op :=
  nonNegative_of_updates steady (fun _ _ _ _ _ h => h.1) g m op h

/-- A completion time that is known before the phase completes is its start plus its latency, and
the recorded completion of a layer is known to one of its phases. -/
structure KnownCompletions (g : ℚ) (m : MappedModel) : Prop extends KnownStarts g m where
  waiting : WaitsUntimed m
  completions : ∀ i p x, m.instance? i p = some x → x.state ≠ .complete →
    0 ≤ x.completionTimeUs → 0 ≤ x.startTimeUs ∧ 0 < x.latencyUs ∧
      x.completionTimeUs = x.startTimeUs + x.latencyUs
  layers : ∀ i l t, m.layerRecords.completionTimeUs.get2? i l = some t → 0 ≤ t ∧
    ∃ p phase x, m.phases.get? p = some phase ∧ l ∈ phase.layerIndices ∧
      m.instance? i p = some x ∧ t ≤ x.completionTimeUs

/-- Handling a phase with a known latency completes it, if at all, when that latency has passed. -/
theorem handlePhase_completion {phase : Phase} {x : PhaseInstance} (hlat : 0 < x.latencyUs)
    (hcomm : phase.isCompute = false → x.state ≠ .notStarted) :
    (m.handlePhase g i p phase x).inst.completionTimeUs = x.completionTimeUs ∨
      (m.handlePhase g i p phase x).inst.completionTimeUs = x.startTimeUs + x.latencyUs := by
  have hh := handlePhase_handling m g i p phase x
  generalize m.handlePhase g i p phase x = o at hh ⊢
  cases hh with
  | computeEnds hk hs he => exact .inr rfl
  | commEmpty hk hs hl ht => exact absurd hs (hcomm hk)
  | commEnds hk hs hl he => exact .inr rfl
  | commDrops hk hs hl ht => exact absurd hlat (not_lt.mpr hl)
  | skipped hw hall hs => exact absurd hs (hcomm (isCompute_of_isWeightLoading hw))
  | _ => exact .inl rfl

theorem fillTimes_completion (x : PhaseInstance) (start : ℚ) :
    (x.fillTimes start).1.completionTimeUs = x.completionTimeUs ∨
      x.completionTimeUs < 0 ∧ 0 < x.latencyUs ∧ (x.fillTimes start).1.completionTimeUs =
        (x.fillTimes start).1.startTimeUs + (x.fillTimes start).1.latencyUs := by
  unfold PhaseInstance.fillTimes
  by_cases hs : x.startTimeUs < 0
  · rw [if_pos hs]
    dsimp only
    split
    · next h => exact .inr ⟨h.2, h.1, rfl⟩
    · exact .inl rfl
  · rw [if_neg hs]
    dsimp only
    split
    · next h => exact .inr ⟨h.2, h.1, rfl⟩
    · exact .inl rfl

section

variable {g : ℚ} {m m' : MappedModel} (h : KnownCompletions g m) (hadv : Advance steady g m m')
include h hadv

/-- **One step.** A completion time that is known does not change. -/
theorem KnownCompletions.completion_eq {x y : PhaseInstance} (hx : m.instance? i p = some x)
    (hy : m'.instance? i p = some y) (hknown : 0 ≤ x.completionTimeUs) :
    y.completionTimeUs = x.completionTimeUs := by
  by_cases hc : x.state = .complete
  · exact (hadv.complete_times hx hc hy).2
  · obtain ⟨hstart, hlat, hsum⟩ := h.completions i p x hx hc hknown
    cases hadv.change hx hy with
    | same hxy => rw [hxy]
    | handled hset hg hphase hstate hmet hxy hm' =>
      next phase =>
      have hcomm : phase.isCompute = false → x.state ≠ .notStarted := by
        intro hcomm hs
        exact hlat.ne' (h.waiting i p phase x hphase hcomm hx hs)
      rw [hxy]
      exact (handlePhase_completion hlat hcomm).elim id fun hnew => hnew.trans hsum.symm
    | latency hok hxy => rw [hxy, (updateLatency_times ..).2]
    | times hset hphase hstate hmet hxy =>
      rw [hxy]
      exact (fillTimes_completion ..).resolve_right fun hneg => not_lt.mpr hknown hneg.1

theorem KnownCompletions.completions_advance {y : PhaseInstance} (hy : m'.instance? i p = some y)
    (hc : y.state ≠ .complete) (hknown : 0 ≤ y.completionTimeUs) :
    0 ≤ y.startTimeUs ∧ 0 < y.latencyUs ∧
      y.completionTimeUs = y.startTimeUs + y.latencyUs := by
  have hadv' : Advance nonNegative g m m' := hadv.mono nonNegative_of_steady
  obtain ⟨x, hx, hchange⟩ := hadv.instance_cases hy
  -- what is known of an instance stays, when completion and latency do
  have hkeep : x.state ≠ .complete → y.completionTimeUs = x.completionTimeUs →
      y.latencyUs = x.latencyUs → 0 ≤ y.startTimeUs ∧ 0 < y.latencyUs ∧
        y.completionTimeUs = y.startTimeUs + y.latencyUs := by
    intro hxc hcompl hlatency
    obtain ⟨hstart, hlat, hsum⟩ := h.completions i p x hx hxc (hcompl ▸ hknown)
    rw [h.start_eq hadv' hx hy hstart, hlatency, hcompl]
    exact ⟨hstart, hlat, hsum⟩
  cases hchange with
  | same hxy => exact hkeep (hxy ▸ hc) (by rw [hxy]) (by rw [hxy])
  | handled hset hg hphase hstate hmet hxy hm' =>
    obtain ⟨-, -, hmove⟩ := handlePhase_step m g i p _ x hstate
    rw [hxy] at hc hkeep ⊢
    cases hmove with
    | stay state start completion latency => exact hkeep hstate completion latency
    | begin was state start completion latency => exact hkeep hstate completion latency
    | finish was state => exact absurd state hc
    | pass was state => exact absurd state hc
  | latency hok hxy =>
    next newLatency =>
    obtain ⟨-, phase, x', -, -, hx', hrun, htotal⟩ := hok
    rw [hx, Option.some.injEq] at hx'
    subst hx'
    have hcompl : y.completionTimeUs = x.completionTimeUs := by
      rw [hxy, (updateLatency_times ..).2]
    have hxc : x.state ≠ .complete := by rw [hrun]; decide
    obtain ⟨-, hlat, -⟩ := h.completions i p x hx hxc (hcompl ▸ hknown)
    refine hkeep hxc hcompl ?_
    rw [hxy, PhaseInstance.updateLatency, if_neg hlat.ne', if_pos ⟨hlat, hrun⟩]
    exact htotal hlat
  | times hset hphase hstate hmet hxy =>
    next phase =>
    rw [hxy] at hkeep ⊢
    rcases fillTimes_completion x (m.calculatePhaseStartTime i p phase) with
      hcompl | ⟨-, hlat, hsum⟩
    · exact hkeep hstate hcompl (fillTimes_latency ..)
    · have hcalc : 0 ≤ m.calculatePhaseStartTime i p phase :=
        (h.inputTimes i hset).trans (startsAfter_calculated m i p phase).input
      exact ⟨(x.filled_fillTimes hcalc).1, by rw [fillTimes_latency]; exact hlat, hsum⟩

/-- **One step.** Every step that keeps the latencies keeps the completion times. -/
theorem KnownCompletions.advance : KnownCompletions g m' := by
  have hadv' : Advance nonNegative g m m' := hadv.mono nonNegative_of_steady
  refine ⟨h.toKnownStarts.advance hadv', h.waiting.advance ?_ hadv, ?_, ?_⟩
  · rintro i p newLatency ⟨-, phase, x, hp, hcomm, hx, hrun, -⟩
    exact ⟨phase, x, hp, hcomm, hx, hrun⟩
  · intro i p y hy hc hknown
    exact h.completions_advance hadv hy hc hknown
  · intro i l t ht
    -- recorded before the step, or by it
    have hold : 0 ≤ t ∧ ∃ p phase x, m.phases.get? p = some phase ∧ l ∈ phase.layerIndices ∧
        m.instance? i p = some x ∧ t ≤ x.completionTimeUs := by
      rcases hadv.layerRecords_eq with hrec | rfl
      · rw [hrec] at ht
        exact h.layers i l t ht
      · rcases completionTimeUs_sync_cases ht with ht | ⟨h0, p, phase, x, hp, hl, hx, hval⟩
        · exact h.layers i l t ht
        · exact ⟨h0, p, phase, x, hp, hl, hx, hval.ge⟩
    obtain ⟨h0, p, phase, x, hp, hl, hx, hle⟩ := hold
    obtain ⟨y, hy, -⟩ := hadv.instance_next h.toShape hx
    refine ⟨h0, p, phase, y, by rw [hadv.schedule]; exact hp, hl, hy, ?_⟩
    rw [h.completion_eq hadv hx hy (h0.trans hle)]
    exact hle

end

theorem Initial.knownCompletions (h : Initial m) (hN : 0 < m.numInputs)
    (h0 : 0 ≤ m.modelStartTimeUs) {n : ℕ} (hrec : Unsynced n m.layerRecords) (g : ℚ) :
    KnownCompletions g m where
  toKnownStarts := h.knownStarts hN h0 g
  waiting := h.waitsUntimed
  completions i p x hx _ hknown := by
    rw [(h.instances.fresh i p x hx).completion] at hknown
    exact absurd hknown (by norm_num)
  layers i l t ht := by
    obtain ⟨_, _, _, _, hr⟩ := hrec
    rw [hr] at ht
    exact absurd ht (by simp [LayerRecords.new, LayerRecords.get2?_byInput])

/-- The invariant over whole runs. -/
theorem Run.knownCompletions {m₀ m : MappedModel} {g₀ g : ℚ} (h₀ : KnownCompletions g₀ m₀)
    (hrun : Run steady g₀ m₀ g m) : KnownCompletions g m :=
  hrun.invariant (P := KnownCompletions) h₀
    (fun _ _ _ hg h => ⟨h.toKnownStarts.later hg, h.waiting, h.completions, h.layers⟩)
    fun _ _ _ h hstep => h.advance hstep

/-- **Completion times.** In every run in which no recorded latency changes the total of a
communication that has one: after `calculate_phase_timing` the completion time of a running
communication is its start plus its latency, and the completion recorded for a layer is at most
that of one of its phases. -/
theorem completions_of_steady (a : Args) (strategy : WeightLoadingStrategy)
    (chunks : List (ℕ × ℕ × ℕ × ChunkResult)) (source : TrafficSource) (m₀ m : MappedModel)
    (g₀ g : ℚ) (hL : 0 < a.numLayers) (hN : 0 < a.numInputs) (h0 : 0 ≤ a.modelStartTimeUs)
    (hm₀ : prepare a strategy chunks source = .ok m₀) (hrun : Run steady g₀ m₀ g m) :
    (∀ g' m' updated, m.calculatePhaseTiming g' = .ok (m', updated) →
      ∀ i p phase x, m'.phases.get? p = some phase → phase.isCompute = false →
        m'.instance? i p = some x → x.state = .running → 0 < x.latencyUs →
        x.completionTimeUs = x.startTimeUs + x.latencyUs) ∧
    (m.isComplete g = true → ∀ i l t, m.layerRecords.completionTimeUs.get2? i l = some t →
      ∃ p phase x, m.phases.get? p = some phase ∧ l ∈ phase.layerIndices ∧
        m.instance? i p = some x ∧ x.state = .complete ∧ t ≤ x.completionTimeUs) := by
  have hbuilt := prepare_builtFrom hm₀
  have hN₀ : 0 < m₀.numInputs := by
    rw [hbuilt.numInputs_eq]
    exact hN
  have h := Run.knownCompletions ((prepare_initial hL hm₀).knownCompletions hN₀
    (by rw [hbuilt.modelStart]; exact h0) (prepare_unsynced hm₀) g₀) hrun
  refine ⟨?_, ?_⟩
  · intro g' m' updated htime i p phase x hp _ hx hrunning hlat
    have hadv : Advances steady g m m' := calculatePhaseTiming_advances (g := g) htime
    have h' : KnownCompletions g m' := chain_invariant hadv h fun _ _ hs hstep => hs.advance hstep
    have hstate : x.state ≠ .complete := by rw [hrunning]; decide
    have hstarted : x.state ≠ .notStarted := by rw [hrunning]; decide
    -- the timing has filled in the completion
    have hi : i < m.numInputs := by
      rw [← hadv.schedule]
      exact ((h'.exist i p).mp ⟨x, hx⟩).1
    have hfilled : x.Filled := (h.upToDate htime hi).phases (h'.started i p x hx hstarted) p phase
      x hp hx hstate (h'.depsComplete hp hx hstarted)
    exact (h'.completions i p x hx hstate (hfilled.2 hlat)).2.2
  · intro hdone i l t ht
    have hset : m.modelCompletionTimeUs ≠ -1 := by
      intro hunset
      rw [isComplete, if_pos hunset] at hdone
      cases hdone
    obtain ⟨-, p, phase, x, hp, hl, hx, hle⟩ := h.layers i l t ht
    exact ⟨p, phase, x, hp, hl, hx, ((h.toRecorded.model_complete hset).1 i p x hx).1, hle⟩

/-! ## A revised latency -/

/-- The two-layer model with one input. -/
def oneInput : Args := { twoLayers with numInputs := 1 }

/-- A property of the state that some operations lead to. -/
def checkAfter (ops : List (ℚ × TickOp)) (check : MappedModel → Bool) : Bool :=
  ((prepare oneInput .justInTime twoLayersChunks twoLayersTraffic).toOption.bind
    fun m₀ => (m₀.tickAll ops).toOption).any check

theorem of_checkAfter {m₀ : MappedModel}
    (h₀ : prepare oneInput .justInTime twoLayersChunks twoLayersTraffic = .ok m₀)
    (ops : List (ℚ × TickOp)) (check : MappedModel → Bool) (h : checkAfter ops check = true) :
    ∃ m, m₀.tickAll ops = .ok m ∧ check m = true := by
  unfold checkAfter at h
  rw [h₀] at h
  obtain ⟨m, hm, hcheck⟩ := (Option.any_eq_true _ _).mp h
  exact ⟨m, toOption_eq_some.mp hm, hcheck⟩

theorem phaseTiming_of_tickAll (h : m.tickAll [(g, .phaseTiming)] = .ok m') :
    ∃ r, m.calculatePhaseTiming g = .ok r ∧ r.1 = m' := by
  obtain ⟨m₁, h₁, hnil⟩ := foldlM_cons_ok.mp h
  cases hnil
  obtain ⟨r, hr, hm'⟩ := bind_eq_ok.mp h₁
  exact ⟨r, hr, Except.ok.inj hm'⟩

/-- The first weight loading is to take `10` microseconds. -/
def loading : List (ℚ × TickOp) := [(0, .activePhases), (0, .updateLatency 0 3 10)]

/-- After one microsecond another simulation finds that a single one is left. -/
def revised : List (ℚ × TickOp) :=
  loading ++ [(0, .syncLayers), (0, .phaseTiming), (1, .activePhases), (1, .updateLatency 0 3 1),
    (1, .syncLayers)]

/-- The rest of the run, every other communication taking one microsecond. -/
def completed : List (ℚ × TickOp) :=
  [(1, .phaseTiming), (2, .activePhases), (2, .phaseTiming), (3, .activePhases), (3, .phaseTiming),
    (4, .activePhases), (4, .phaseTiming), (5, .activePhases), (5, .updateLatency 0 1 1),
    (5, .syncLayers), (5, .phaseTiming), (6, .activePhases), (6, .phaseTiming), (7, .activePhases),
    (7, .updateLatency 0 4 1), (7, .syncLayers), (7, .phaseTiming), (8, .activePhases),
    (8, .phaseTiming), (9, .activePhases), (9, .phaseTiming), (10, .activePhases),
    (10, .phaseTiming)]

/-- The weight loading of layer `0` for the only input runs and has the given latency. -/
def loadsFor (latency : ℚ) (m : MappedModel) : Bool :=
  (m.phases.get? 3).any (fun phase => !phase.isCompute) &&
    (m.instance? 0 3).any fun x => decide (x.state = .running ∧ x.latencyUs = latency)

theorem loadsFor_eq_true {latency : ℚ} (h : loadsFor latency m = true) :
    ∃ phase x, m.phases.get? 3 = some phase ∧ phase.isCompute = false ∧
      m.instance? 0 3 = some x ∧ x.state = .running ∧ x.latencyUs = latency := by
  unfold loadsFor at h
  rw [Bool.and_eq_true, Option.any_eq_true, Option.any_eq_true] at h
  obtain ⟨⟨phase, hp, hcomm⟩, x, hx, hstate⟩ := h
  obtain ⟨hrun, hlat⟩ := of_decide_eq_true hstate
  exact ⟨phase, x, hp, by simpa using hcomm, hx, hrun, hlat⟩

/-- The first latency of a communication is steady. -/
theorem completions_of_steady_first : ∃ m₀ m m' updated x,
    prepare oneInput .justInTime twoLayersChunks twoLayersTraffic = .ok m₀ ∧
    Run steady 0 m₀ 0 m ∧ m.calculatePhaseTiming 0 = .ok (m', updated) ∧
    m'.instance? 0 3 = some x ∧ x.latencyUs = 10 ∧
    x.completionTimeUs = x.startTimeUs + x.latencyUs := by
  obtain ⟨m₀, h₀⟩ : ∃ m₀, prepare oneInput .justInTime twoLayersChunks twoLayersTraffic = .ok m₀ :=
    ⟨_, rfl⟩
  obtain ⟨m₁, h₁, hloads₁⟩ := of_checkAfter h₀ [(0, .activePhases)] (loadsFor 0)
    (by decide +kernel)
  obtain ⟨m', h', hloads'⟩ := of_checkAfter h₀ (loading ++ [(0, .phaseTiming)]) (loadsFor 10)
    (by decide +kernel)
  obtain ⟨m, h, htime⟩ := tickAll_append.mp h'
  have hrun₁ : Run steady 0 m₀ 0 m₁ :=
    Run.tickAll .start (by decide +kernel) (by simp [steady]) h₁
  have hrun : Run steady 0 m₀ 0 m := by
    obtain ⟨m₁', h₁', hlast⟩ := foldlM_cons_ok.mp h
    obtain ⟨m₂, h₂, hnil⟩ := foldlM_cons_ok.mp hlast
    obtain ⟨m₁'', h₁'', hnil'⟩ := foldlM_cons_ok.mp h₁
    cases hnil
    cases hnil'
    rw [h₁''] at h₁'
    cases h₁'
    obtain ⟨phase, x, hp, hcomm, hx, hrunning, hlat⟩ := loadsFor_eq_true hloads₁
    have hfirst : steady 0 m₁ (.updateLatency 0 3 10) := by
      refine ⟨by norm_num, phase, x, hp, hcomm, hx, hrunning, fun hpos => ?_⟩
      rw [hlat] at hpos
      exact absurd hpos (lt_irrefl 0)
    exact hrun₁.step le_rfl hfirst h₂
  obtain ⟨⟨m'', updated⟩, hcalc, hm''⟩ := phaseTiming_of_tickAll htime
  subst hm''
  obtain ⟨phase, x, hp, hcomm, hx, hrunning, hlat⟩ := loadsFor_eq_true hloads'
  refine ⟨m₀, m, m'', updated, x, h₀, hrun, hcalc, hx, hlat, ?_⟩
  exact (completions_of_steady oneInput .justInTime twoLayersChunks twoLayersTraffic m₀ m 0 0
    (by decide) (by decide) (by decide) h₀ hrun).1 0 m'' updated hcalc 0 3 phase x hp hcomm hx
    hrunning (by rw [hlat]; norm_num)

/-- The weight loading runs from `0` with latency `2`, and its completion is still `10`. -/
def outdated (m : MappedModel) : Bool :=
  loadsFor 2 m && (m.instance? 0 3).any fun x =>
    decide (x.startTimeUs = 0 ∧ x.completionTimeUs = 10)

/-- The model is complete, the record of layer `0` says `10`, and its last phase completed by
`5`. -/
def overstated (m : MappedModel) : Bool :=
  m.isComplete 10 && decide (m.layerRecords.completionTimeUs.get2? 0 0 = some 10) &&
    (m.instancesOf 0 fun phase => 0 ∈ phase.layerIndices).all fun x =>
      decide (x.completionTimeUs ≤ 5)

/-- The completion time written first, `10`, survives the revision of the latency to `2`, and the
record of the layer keeps it although the last phase of the layer completes at `5`. -/
theorem completion_outdated : ∃ m₀ m₁ m₁' updated m₂ x,
    prepare oneInput .justInTime twoLayersChunks twoLayersTraffic = .ok m₀ ∧
    Run nonNegative 0 m₀ 1 m₁ ∧ m₁.calculatePhaseTiming 1 = .ok (m₁', updated) ∧
    m₁'.RunningComm 0 3 ∧ m₁'.instance? 0 3 = some x ∧ x.startTimeUs = 0 ∧ x.latencyUs = 2 ∧
    x.completionTimeUs = 10 ∧ Run nonNegative 1 m₁ 10 m₂ ∧ m₂.isComplete 10 = true ∧
    m₂.layerRecords.completionTimeUs.get2? 0 0 = some 10 ∧
    ∀ p phase y, m₂.phases.get? p = some phase → 0 ∈ phase.layerIndices →
      m₂.instance? 0 p = some y → y.completionTimeUs ≤ 5 := by
  obtain ⟨m₀, h₀⟩ : ∃ m₀, prepare oneInput .justInTime twoLayersChunks twoLayersTraffic = .ok m₀ :=
    ⟨_, rfl⟩
  obtain ⟨m₁', h₁', hout⟩ := of_checkAfter h₀ (revised ++ [(1, .phaseTiming)]) outdated
    (by decide +kernel)
  obtain ⟨m₂, h₂, hover⟩ := of_checkAfter h₀ (revised ++ completed) overstated (by decide +kernel)
  obtain ⟨m₁, h₁, htime⟩ := tickAll_append.mp h₁'
  obtain ⟨m, h, hrest⟩ := tickAll_append.mp h₂
  rw [h₁, Except.ok.injEq] at h
  subst h
  have hrun₁ : Run nonNegative 0 m₀ 1 m₁ :=
    Run.tickAll .start (by decide +kernel) (by simp [revised, loading, nonNegative]) h₁
  have hrun₂ : Run nonNegative 1 m₁ 10 m₂ :=
    Run.tickAll .start (by decide +kernel) (by simp [completed, nonNegative]) hrest
  obtain ⟨⟨m₁'', updated⟩, hcalc, hm₁''⟩ := phaseTiming_of_tickAll htime
  subst hm₁''
  unfold outdated at hout
  rw [Bool.and_eq_true, Option.any_eq_true] at hout
  obtain ⟨hloads, y, hy, hyt⟩ := hout
  obtain ⟨phase, x, hp, hcomm, hx, hrunning, hlat⟩ := loadsFor_eq_true hloads
  rw [hx, Option.some.injEq] at hy
  subst hy
  obtain ⟨hstart, hcompl⟩ := of_decide_eq_true hyt
  unfold overstated at hover
  rw [Bool.and_eq_true, Bool.and_eq_true, List.all_eq_true] at hover
  obtain ⟨⟨hdone, hrec⟩, hall⟩ := hover
  refine ⟨m₀, m₁, m₁'', updated, m₂, x, h₀, hrun₁, hcalc, ⟨phase, x, hp, hcomm, hx, hrunning⟩, hx,
    hstart, hlat, hcompl, hrun₂, hdone, of_decide_eq_true hrec, ?_⟩
  intro p phase' y hp' hl hy
  exact of_decide_eq_true (hall y (mem_instancesOf.mpr ⟨p, phase', hp', decide_eq_true hl, hy⟩))

end MappedModel

end ChipSim
