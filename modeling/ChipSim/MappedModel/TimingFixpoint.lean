import ChipSim.MappedModel.Liveness

/-!
# One pass of the timing is enough

`calculate_phase_timing` sets input starts, phase times and input completions that feed each
other. One pass in the order of the inputs reaches a fixed point: timing an input reads only that
input and the one before it, writes only that input, and leaves nothing to be done for it
(`UpToDate`). Unset times are negative, so the argument needs times that are not.
-/

namespace ChipSim

open Lib

/-- Timing the phase again changes nothing: its start is known, and with its latency also its
completion. -/
def PhaseInstance.Filled (x : PhaseInstance) : Prop :=
  0 ≤ x.startTimeUs ∧ (0 < x.latencyUs → 0 ≤ x.completionTimeUs)

theorem PhaseInstance.filled_fillTimes (x : PhaseInstance) {start : ℚ} (hstart : 0 ≤ start) :
    (x.fillTimes start).1.Filled := by
  unfold PhaseInstance.fillTimes Filled
  by_cases hs : x.startTimeUs < 0
  · rw [if_pos hs]
    dsimp only
    split
    · next hlat => exact ⟨hstart, fun _ => add_nonneg hstart hlat.1.le⟩
    · next hlat => exact ⟨hstart, fun hpos => not_lt.mp fun hneg => hlat ⟨hpos, hneg⟩⟩
  · rw [if_neg hs]
    dsimp only
    have hs' := not_lt.mp hs
    split
    · next hlat => exact ⟨hs', fun _ => add_nonneg hs' hlat.1.le⟩
    · next hlat => exact ⟨hs', fun hpos => not_lt.mp fun hneg => hlat ⟨hpos, hneg⟩⟩

theorem PhaseInstance.Filled.fillTimes_eq {x : PhaseInstance} (h : x.Filled) (start : ℚ) :
    x.fillTimes start = (x, false) := by
  have hs : ¬ x.startTimeUs < 0 := not_lt.mpr h.1
  have hc : ¬ (0 < x.latencyUs ∧ x.completionTimeUs < 0) := fun hc => not_lt.mpr (h.2 hc.1) hc.2
  simp [PhaseInstance.fillTimes, hs, hc]

namespace MappedModel

variable {m m' : MappedModel} {acc acc' : MappedModel × Bool} {g : ℚ}

/-! ## An input that is up to date -/

/-- Timing the input again changes nothing. -/
structure UpToDate (m : MappedModel) (i : ℕ) : Prop where
  start : 0 < i → m.inputStart i = -1 → m.nextInputStart i = none
  phases : m.inputStart i ≠ -1 → ∀ p phase x, m.phases.get? p = some phase →
    m.instance? i p = some x → x.state ≠ .complete → DepsComplete m i p phase → x.Filled
  completion : m.inputStart i ≠ -1 → m.allPhasesComplete i = true → m.inputCompletion i ≠ -1

theorem startInput_eq {i : ℕ} (b : Bool)
    (h : 0 < i → m.inputStart i = -1 → m.nextInputStart i = none) :
    startInput (m, b) i = (m, b) := by
  unfold MappedModel.startInput
  dsimp only
  split
  · next hi => rw [h hi.1 hi.2]
  · rfl

theorem UpToDate.timePhase {i p : ℕ} (h : UpToDate m i) (hs : Shape m)
    (hstart : m.inputStart i ≠ -1) (hp : p ∈ m.phaseExecutionOrder) (b : Bool) :
    MappedModel.timePhase i (m, b) p = .ok (m, b) := by
  unfold MappedModel.timePhase
  dsimp only
  split
  · rfl
  · next hc =>
    obtain ⟨x, hx, hstate⟩ := completeOrAbsent_eq_false (by simpa using hc)
    obtain ⟨phase, hphase⟩ := hs.getPhase hp
    obtain ⟨met, hmet, -⟩ := hs.dependenciesMet i (getItem_eq_ok.mp hphase)
    rw [hmet, ok_bind]
    cases met with
    | false => rfl
    | true =>
      have hdeps := depsComplete_of_met (getItem_eq_ok.mp hphase) hmet
      have hfilled := h.phases hstart p phase x (getItem_eq_ok.mp hphase) hx hstate hdeps
      rw [if_pos rfl, hphase, ok_bind, getInstance_eq_ok.mpr hx, ok_bind, hfilled.fillTimes_eq]
      dsimp only
      rw [setInstance, Dict.set2_eq_self hx, Bool.or_false]
      rfl

/-- Timing an input that is up to date does nothing. -/
theorem UpToDate.timeInput {i : ℕ} (h : UpToDate m i) (hs : Shape m) (b : Bool) :
    MappedModel.timeInput (m, b) i = .ok (m, b) := by
  unfold MappedModel.timeInput
  rw [startInput_eq b h.start]
  dsimp only
  split
  · rfl
  · next hstart =>
    rw [foldlM_fixed fun p hp => h.timePhase hs hstart hp b, ok_bind]
    unfold MappedModel.completeInput
    dsimp only
    rw [if_neg fun hc => h.completion hstart hc.1 hc.2]

/-! ## Timing one input leaves the others alone -/

/-- The two states agree on all inputs but one, and on the progress of that one. -/
structure OnlyInput (j : ℕ) (m m' : MappedModel) : Prop where
  schedule : m'.toPhaseSchedule = m.toPhaseSchedule
  progress : SameProgress m m'
  instances : ∀ i ≠ j, ∀ p, m'.instance? i p = m.instance? i p
  starts : ∀ i ≠ j, m'.inputStart i = m.inputStart i
  completions : ∀ i ≠ j, m'.inputCompletion i = m.inputCompletion i

theorem OnlyInput.refl (j : ℕ) (m : MappedModel) : OnlyInput j m m :=
  ⟨rfl, .refl m, fun _ _ _ => rfl, fun _ _ => rfl, fun _ _ => rfl⟩

theorem OnlyInput.trans {j : ℕ} {m m' m'' : MappedModel} (h : OnlyInput j m m')
    (h' : OnlyInput j m' m'') : OnlyInput j m m'' where
  schedule := h'.schedule.trans h.schedule
  progress := h.progress.trans h'.progress
  instances i hi p := (h'.instances i hi p).trans (h.instances i hi p)
  starts i hi := (h'.starts i hi).trans (h.starts i hi)
  completions i hi := (h'.completions i hi).trans (h.completions i hi)

theorem onlyInput_startInput (acc : MappedModel × Bool) (j : ℕ) :
    OnlyInput j acc.1 (startInput acc j).1 := by
  refine ⟨?_, startInput_same acc j, ?_, ?_, ?_⟩ <;> unfold MappedModel.startInput <;> dsimp only
  · split
    · split <;> rfl
    · rfl
  · intro i _ p
    split
    · split <;> rfl
    · rfl
  · intro i hij
    split
    · split
      · exact getD_set_ne _ _ _ hij
      · rfl
    · rfl
  · intro i _
    split
    · split <;> rfl
    · rfl

theorem onlyInput_timePhase {j p : ℕ} (h : timePhase j acc p = .ok acc') :
    OnlyInput j acc.1 acc'.1 := by
  have hsame := timePhase_same h
  rcases timePhase_cases h with ⟨rfl, -⟩ | ⟨phase, x, -, -, -, -, hacc'⟩
  · exact .refl j _
  · rw [hacc'] at hsame ⊢
    refine ⟨rfl, hsame, fun i hij q => ?_, fun _ _ => rfl, fun _ _ => rfl⟩
    rw [instance?_setInstance, if_neg fun hiq => hij hiq.1]

theorem onlyInput_completeInput {j : ℕ} (h : completeInput acc j = .ok acc') :
    OnlyInput j acc.1 acc'.1 := by
  have hsame := completeInput_same h
  unfold MappedModel.completeInput at h
  dsimp only at h
  split at h
  · obtain ⟨t, -, h⟩ := bind_eq_ok.mp h
    cases h
    exact ⟨rfl, hsame, fun _ _ _ => rfl, fun _ _ => rfl, fun i hij => getD_set_ne _ _ _ hij⟩
  · cases h
    exact .refl j _

theorem onlyInput_timeInput {j : ℕ} (h : timeInput acc j = .ok acc') :
    OnlyInput j acc.1 acc'.1 := by
  have hstart := onlyInput_startInput acc j
  unfold MappedModel.timeInput at h
  dsimp only at h
  split at h
  · cases h
    exact hstart
  · obtain ⟨acc₁, h₁, h⟩ := bind_eq_ok.mp h
    have hphases := foldlM_invariant (fun s : MappedModel × Bool => OnlyInput j acc.1 s.1) h₁
      hstart fun _ _ _ _ hs hstep => hs.trans (onlyInput_timePhase hstep)
    exact hphases.trans (onlyInput_completeInput h)

theorem SameProgress.depsComplete_iff (h : SameProgress m m')
    (hsched : m'.toPhaseSchedule = m.toPhaseSchedule) {i p : ℕ} {phase : Phase} :
    DepsComplete m' i p phase ↔ DepsComplete m i p phase := by
  constructor
  · rintro ⟨hd, hprev⟩
    simp only [h.completeOrAbsent, hsched] at hd hprev
    exact ⟨hd, hprev⟩
  · rintro ⟨hd, hprev⟩
    refine ⟨?_, ?_⟩ <;> simp only [h.completeOrAbsent, hsched]
    · exact hd
    · exact hprev

/-- When an input may start is read from the input before it. -/
theorem OnlyInput.nextInputStart {j : ℕ} (h : OnlyInput j m m') (hs : Shape m) (hs' : Shape m')
    {i : ℕ} (hij : i - 1 ≠ j) :
    m'.nextInputStart i = m.nextInputStart i := by
  have hlayer : m'.layerCompletion (i - 1) = m.layerCompletion (i - 1) := by
    funext l
    unfold layerCompletion
    simp only [h.schedule, h.instances (i - 1) hij]
  unfold MappedModel.nextInputStart firstLayerCompletion
  rw [h.schedule, hlayer, h.progress.allPhasesComplete hs hs', h.completions (i - 1) hij]

/-- An input stays up to date while later ones are timed. -/
theorem UpToDate.later {i j : ℕ} (h : UpToDate m i) (hij : i < j) (hs : Shape m) (hs' : Shape m')
    (honly : OnlyInput j m m') : UpToDate m' i := by
  have hne : i ≠ j := hij.ne
  refine ⟨?_, ?_, ?_⟩
  · intro hi hunset
    rw [honly.starts i hne] at hunset
    rw [honly.nextInputStart hs hs' (by omega)]
    exact h.start hi hunset
  · intro hstart p phase x hp hx hstate hdeps
    rw [honly.starts i hne] at hstart
    rw [honly.schedule] at hp
    rw [honly.instances i hne] at hx
    exact h.phases hstart p phase x hp hx hstate 
      ((honly.progress.depsComplete_iff honly.schedule).mp hdeps)
  · intro hstart hall
    rw [honly.starts i hne] at hstart
    rw [honly.progress.allPhasesComplete hs hs'] at hall
    rw [honly.completions i hne]
    exact h.completion hstart hall

/-! ## One pass brings every input up to date -/

theorem NonNegTimes.startInput_start {n : ℕ} {acc : MappedModel × Bool} (h : NonNegTimes g acc.1)
    (hn : n < acc.1.numInputs) (hunset : (startInput acc n).1.inputStart n = -1) :
    startInput acc n = acc ∧
      (0 < n → acc.1.nextInputStart n = none) := by
  unfold MappedModel.startInput at *
  dsimp only at *
  split at hunset
  · next h0 =>
    rw [if_pos h0]
    cases hnext : acc.1.nextInputStart n with
    | none => exact ⟨rfl, fun _ => rfl⟩
    | some t =>
      -- a start that is written is not negative
      rw [hnext] at hunset
      have hval : t = -1 :=
        ((getD_set (h.startLength ▸ hn) ..).trans (if_pos rfl)).symm.trans hunset
      have ht := h.nextInputStart hnext
      linarith
  · next h0 =>
    rw [if_neg h0]
    exact ⟨rfl, fun hpos => absurd ⟨hpos, hunset⟩ h0⟩

/-- Timing a phase of a started input skips it or fills in its times. -/
theorem NonNegTimes.timePhase {n q : ℕ} (h : NonNegTimes g acc.1) (hstart : acc.1.inputStart n ≠ -1)
    (hacc' : MappedModel.timePhase n acc q = .ok acc') :
    (acc' = acc ∧
      (acc.1.completeOrAbsent n q = true ∨ acc.1.dependenciesMet n q = .ok false)) ∨
    ∃ y : PhaseInstance, y.Filled ∧
      ∀ p, acc'.1.instance? n p = if p = q then some y else acc.1.instance? n p := by
  rcases timePhase_cases hacc' with hskip | ⟨phase, x, -, -, -, -, hset⟩
  · exact .inl hskip
  · have hcalc : 0 ≤ acc.1.calculatePhaseStartTime n q phase :=
      (h.inputTimes n hstart).trans (startsAfter_calculated acc.1 n q phase).input
    refine .inr ⟨_, x.filled_fillTimes hcalc, fun p => ?_⟩
    rw [hset, instance?_setInstance]
    simp only [true_and]

/-- After the loop over the phases of a started input, the times that can be known are known. -/
theorem NonNegTimes.timePhases {n : ℕ} (h : NonNegTimes g acc.1) (hstart : acc.1.inputStart n ≠ -1)
    (hacc' : acc.1.phaseExecutionOrder.foldlM (MappedModel.timePhase n) acc = .ok acc') {p : ℕ}
    {phase : Phase} {x : PhaseInstance} (hp : acc.1.phases.get? p = some phase)
    (hx : acc'.1.instance? n p = some x) (hstate : x.state ≠ .complete)
    (hdeps : DepsComplete acc.1 n p phase) : x.Filled := by
  have hmem : p ∈ acc.1.phaseExecutionOrder :=
    (h.wellFormed.mem_order p).mpr (Dict.mem_of_get? hp)
  refine foldlM_establish
    (fun s : MappedModel × Bool => NonNegTimes g s.1 ∧ s.1.inputStart n ≠ -1 ∧
      OnlyInput n acc.1 s.1)
    (fun s => ∀ x, s.1.instance? n p = some x → x.state ≠ .complete → x.Filled) hacc'
    ⟨h, hstart, .refl n _⟩ ?_ hmem ?_ x hx hstate
  · rintro q - s s' ⟨hs, hsstart, hsonly⟩ hstep
    obtain ⟨hadv, hkeep⟩ : Advances nonNegative g s.1 s'.1 ∧ s'.1.inputStart n = s.1.inputStart n :=
      timePhase_advances hsstart hstep
    refine ⟨⟨hs.advances hadv, hkeep ▸ hsstart, hsonly.trans (onlyInput_timePhase hstep)⟩, ?_⟩
    intro hfilled y hy hys
    rcases hs.timePhase hsstart hstep with ⟨rfl, -⟩ | ⟨z, hz, hget⟩
    · exact hfilled y hy hys
    · rw [hget] at hy
      split at hy
      · exact Option.some.inj hy ▸ hz
      · exact hfilled y hy hys
  · rintro s s' ⟨hs, hsstart, hsonly⟩ hstep y hy hys
    rcases hs.timePhase hsstart hstep with ⟨rfl, hc | hwait⟩ | ⟨z, hz, hget⟩
    · exact absurd (completeOrAbsent_eq_true.mp hc y hy) hys
    · -- a phase whose dependencies are complete does not wait
      have hps : s'.1.phases.get? p = some phase := by rw [hsonly.schedule, hp]
      obtain ⟨b, hb, htrue⟩ := hs.toShape.dependenciesMet n hps
      rw [hb, htrue ((hsonly.progress.depsComplete_iff hsonly.schedule).mpr hdeps)] at hwait
      cases hwait
    · rw [hget, if_pos rfl, Option.some.injEq] at hy
      exact hy ▸ hz

/-- Timing an input brings it up to date. -/
theorem NonNegTimes.timeInput {n : ℕ} (h : NonNegTimes g acc.1) (hn : n < acc.1.numInputs)
    (hacc' : MappedModel.timeInput acc n = .ok acc') : UpToDate acc'.1 n := by
  have hadv₀ : Advances nonNegative g acc.1 (startInput acc n).1 := startInput_advances hn
  unfold MappedModel.timeInput at hacc'
  dsimp only at hacc'
  split at hacc'
  · next hunset =>
    -- the input cannot start yet
    obtain ⟨hsame, hnext⟩ := h.startInput_start hn hunset
    cases hacc'
    rw [hsame] at hunset ⊢
    exact ⟨fun hi _ => hnext hi, fun hset => absurd hunset hset, fun hset => absurd hunset hset⟩
  · next hset =>
    obtain ⟨acc₁, hacc₁, hlast⟩ := bind_eq_ok.mp hacc'
    have hadv₁ : Advances nonNegative g (startInput acc n).1 acc₁.1 :=
      timePhases_advances hset hacc₁
    have h₀ := h.advances hadv₀
    have h₁ := h₀.advances hadv₁
    have hn₁ : n < acc₁.1.numInputs := by
      rw [hadv₁.schedule, hadv₀.schedule]
      exact hn
    have hadv₂ : Advances nonNegative g acc₁.1 acc'.1 := completeInput_advances hn₁ hlast
    have hsame₁ := foldlM_invariant
      (fun s : MappedModel × Bool => SameProgress (startInput acc n).1 s.1) hacc₁ (.refl _)
      fun _ _ _ _ hs hstep => hs.trans (timePhase_same hstep)
    have hsame₂ := completeInput_same hlast
    have hset' := hadv₂.inputStart_set h₁.toShape (hadv₁.inputStart_set h₀.toShape hset)
    refine ⟨fun _ hunset => absurd hunset hset', fun _ p phase x hp hx hstate hdeps => ?_,
      fun _ hall => ?_⟩
    · rw [hadv₂.schedule, hadv₁.schedule] at hp
      rw [completeInput_instances hlast] at hx
      refine h₀.timePhases hset hacc₁ hp hx hstate ?_
      refine ((hsame₁.trans hsame₂).depsComplete_iff ?_).mp hdeps
      rw [hadv₂.schedule, hadv₁.schedule]
    · rw [hsame₂.allPhasesComplete h₁.toShape (h₁.advances hadv₂).toShape] at hall
      exact h₁.completeInput hn₁ hall hlast

/-- The loop over the inputs brings all of them up to date. -/
theorem NonNegTimes.timeInputs (h : NonNegTimes g m) {n : ℕ} (hn : n ≤ m.numInputs)
    {acc : MappedModel × Bool}
    (hacc : (List.range n).foldlM MappedModel.timeInput (m, false) = .ok acc) :
    NonNegTimes g acc.1 ∧ acc.1.numInputs = m.numInputs ∧ ∀ i < n, UpToDate acc.1 i := by
  refine foldlM_range_invariant (fun k (acc : MappedModel × Bool) =>
    NonNegTimes g acc.1 ∧ acc.1.numInputs = m.numInputs ∧ ∀ i < k, UpToDate acc.1 i) hacc
    ⟨h, rfl, fun i hi => absurd hi (Nat.not_lt_zero i)⟩ ?_
  rintro k hk acc₁ acc₂ ⟨h₁, hnum, hdone⟩ hstep
  have hk' : k < acc₁.1.numInputs := by omega
  have hadv : Advances nonNegative g acc₁.1 acc₂.1 := timeInput_advances hk' hstep
  have h₂ := h₁.advances hadv
  refine ⟨h₂, by rw [hadv.schedule, hnum], fun i hi => ?_⟩
  rcases Nat.lt_succ_iff_lt_or_eq.mp hi with hi | rfl
  · exact (hdone i hi).later hi h₁.toShape h₂.toShape (onlyInput_timeInput hstep)
  · exact h₁.timeInput hk' hstep

/-- The completion time of the model is that of its last input, once all are known. -/
theorem completeModel_again (h : completeModel acc = .ok acc') (b : Bool) :
    completeModel (acc'.1, b) = .ok (acc'.1, b) := by
  unfold MappedModel.completeModel at *
  dsimp only at *
  split at h
  · next hall =>
    obtain ⟨last, hlast, h⟩ := bind_eq_ok.mp h
    split at h
    · cases h
      rw [if_pos hall, hlast, ok_bind, if_neg (not_not.mpr rfl)]
      rfl
    · next heq =>
      cases h
      rw [if_pos hall, hlast, ok_bind, if_neg heq]
      rfl
  · next hall =>
    cases h
    rw [if_neg hall]

theorem UpToDate.of_completeModel {i : ℕ} (h : UpToDate acc.1 i)
    (hlast : completeModel acc = .ok acc') : UpToDate acc'.1 i := by
  unfold MappedModel.completeModel at hlast
  dsimp only at hlast
  split at hlast
  · obtain ⟨last, -, hlast⟩ := bind_eq_ok.mp hlast
    split at hlast
    · cases hlast
      exact ⟨h.start, fun hs p phase x hp hx hstate hdeps =>
        h.phases hs p phase x hp hx hstate ⟨hdeps.deps, hdeps.previous⟩, h.completion⟩
    · cases hlast
      exact h
  · cases hlast
    exact h

/-- After `calculate_phase_timing` every input is up to date. -/
theorem NonNegTimes.upToDate {g g' : ℚ} {updated : Bool} (h : NonNegTimes g m)
    (hm' : m.calculatePhaseTiming g' = .ok (m', updated)) {i : ℕ} (hi : i < m.numInputs) :
    UpToDate m' i := by
  unfold MappedModel.calculatePhaseTiming at hm'
  obtain ⟨acc, hacc, hlast⟩ := bind_eq_ok.mp hm'
  obtain ⟨-, -, hdone⟩ := h.timeInputs le_rfl hacc
  exact (hdone i hi).of_completeModel hlast

/-- **Idempotence.** In every reachable state `calculate_phase_timing` succeeds, and calling it
once more, at any time, changes nothing and reports no update. -/
theorem calculatePhaseTiming_idempotent (a : Args) (strategy : WeightLoadingStrategy)
    (chunks : List (ℕ × ℕ × ℕ × ChunkResult)) (source : TrafficSource) (m₀ m : MappedModel) (g : ℚ)
    (hL : 0 < a.numLayers) (hN : 0 < a.numInputs) (h0 : 0 ≤ a.modelStartTimeUs)
    (hm₀ : prepare a strategy chunks source = .ok m₀) (hm : Reachable m₀ g m) (g₁ g₂ : ℚ) :
    ∃ m' updated, m.calculatePhaseTiming g₁ = .ok (m', updated) ∧
      m'.calculatePhaseTiming g₂ = .ok (m', false) := by
  have hbuilt := prepare_builtFrom hm₀
  have hinit := prepare_initial hL hm₀
  have hN₀ : 0 < m₀.numInputs := by
    rw [hbuilt.numInputs_eq]
    exact hN
  have h : NonNegTimes g m := hm.nonNegTimes hinit hN₀ (by rw [hbuilt.modelStart]; exact h0)
  have hnum : 0 < m.numInputs := by
    obtain ⟨g₀, hrun⟩ := hm
    rw [hrun.schedule]
    exact hN₀
  obtain ⟨⟨m', updated⟩, hm'⟩ := h.toShape.calculatePhaseTiming hnum g₁
  refine ⟨m', updated, hm', ?_⟩
  have hadv : Advances nonNegative g₁ m m' := calculatePhaseTiming_advances hm'
  have hfixed : ∀ i ∈ List.range m'.numInputs,
      MappedModel.timeInput (m', false) i = .ok (m', false) := by
    intro i hi
    rw [List.mem_range, hadv.schedule] at hi
    exact (h.upToDate hm' hi).timeInput (h.toShape.advances hadv) false
  unfold MappedModel.calculatePhaseTiming at hm' ⊢
  obtain ⟨acc, -, hlast⟩ := bind_eq_ok.mp hm'
  rw [foldlM_fixed hfixed, ok_bind]
  exact completeModel_again hlast false

/-- After the first tick of the two-layer model the first timing fills in times, and the second
changes nothing. -/
theorem calculatePhaseTiming_idempotent_twoLayers : ∃ m₀ r,
    prepare twoLayers .justInTime twoLayersChunks twoLayersTraffic = .ok m₀ ∧
    m₀.getActivePhases 0 = .ok r ∧ ∃ m' updated, r.1.calculatePhaseTiming 0 = .ok (m', updated) ∧
      m'.calculatePhaseTiming 1 = .ok (m', false) := by
  refine ⟨_, _, rfl, rfl, ?_⟩
  exact calculatePhaseTiming_idempotent twoLayers .justInTime twoLayersChunks twoLayersTraffic _ _ 0
    (by decide) (by decide) (by decide) rfl
    ((Reachable.init _ 0).step .activePhases le_rfl trivial rfl) 0 1

end MappedModel

end ChipSim
