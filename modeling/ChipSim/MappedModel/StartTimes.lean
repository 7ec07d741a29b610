import Mathlib.Tactic.Linarith
import ChipSim.MappedModel.Dependencies

/-!
# Times over whole runs

A phase starts no earlier than its input, its dependencies and (pipelined) the same phase of the
previous input, and it completes between its start and the current time. Start times are
calculated from completion times, so the invariant rests on one fact: what is complete keeps its
times.
-/

namespace ChipSim

open Lib

namespace MappedModel

variable {ok : Guard}

/-! ## The calculated start time -/

/-- A time no earlier than everything a phase waits for. -/
structure StartsAfter (m : MappedModel) (i p : ℕ) (phase : Phase) (t : ℚ) : Prop where
  input : m.inputStart i ≤ t
  deps : ∀ d ∈ phase.dependencies, ∀ y, m.instance? i d = some y → y.completionTimeUs ≤ t
  previous : m.communicationMethod = .pipelined → 0 < i → ∀ y, m.instance? (i - 1) p = some y →
    y.completionTimeUs ≤ t

theorem le_laterOf (t : ℚ) (x? : Option PhaseInstance) : t ≤ laterOf t x? := by
  unfold laterOf
  split
  · split
    · next h => exact h.le
    · exact le_rfl
  · exact le_rfl

theorem completion_le_laterOf (t : ℚ) (x : PhaseInstance) :
    x.completionTimeUs ≤ laterOf t (some x) := by
  unfold laterOf
  dsimp only
  split
  · exact le_rfl
  · next h => exact not_lt.mp h

theorem laterOf_le {t b : ℚ} {x? : Option PhaseInstance} (ht : t ≤ b)
    (hx : ∀ x, x? = some x → x.completionTimeUs ≤ b) : laterOf t x? ≤ b := by
  unfold laterOf
  split
  · next x =>
    split
    · exact hx x rfl
    · exact ht
  · exact ht

section

variable (m : MappedModel) (i p : ℕ)

theorem foldl_laterOf (ds : List ℕ) (t : ℚ) :
    t ≤ ds.foldl (fun t d => laterOf t (m.instance? i d)) t ∧
      ∀ d ∈ ds, ∀ y, m.instance? i d = some y →
        y.completionTimeUs ≤ ds.foldl (fun t d => laterOf t (m.instance? i d)) t := by
  induction ds generalizing t with
  | nil => simp
  | cons e ds ih =>
    obtain ⟨hle, hds⟩ := ih (laterOf t (m.instance? i e))
    refine ⟨(le_laterOf _ _).trans hle, ?_⟩
    intro d hd y hy
    rcases List.mem_cons.mp hd with rfl | hd
    · refine le_trans ?_ hle
      rw [hy]
      exact completion_le_laterOf t y
    · exact hds d hd y hy

/-- `_calculate_phase_start_time` is no earlier than everything the phase waits for. -/
theorem startsAfter_calculated (phase : Phase) :
    StartsAfter m i p phase (m.calculatePhaseStartTime i p phase) := by
  obtain ⟨hinput, hdeps⟩ := foldl_laterOf m i phase.dependencies (m.inputStart i)
  unfold calculatePhaseStartTime
  dsimp only
  split
  · refine ⟨hinput.trans (le_laterOf _ _),
      fun d hd y hy => (hdeps d hd y hy).trans (le_laterOf _ _), fun _ _ y hy => ?_⟩
    rw [hy]
    exact completion_le_laterOf _ y
  · next hprev => exact ⟨hinput, hdeps, fun hpipe hi => absurd ⟨hpipe, hi⟩ hprev⟩

end

variable {m m' : MappedModel} {g : ℚ} {i p : ℕ} {x : PhaseInstance} {phase : Phase}

/-- The calculated start time is the latest of what the phase waits for. -/
theorem calculatePhaseStartTime_le {b : ℚ} (hinput : m.inputStart i ≤ b)
    (hdeps : ∀ d ∈ phase.dependencies, ∀ y, m.instance? i d = some y → y.completionTimeUs ≤ b)
    (hprev : m.communicationMethod = .pipelined → 0 < i → ∀ y, m.instance? (i - 1) p = some y →
      y.completionTimeUs ≤ b) :
    m.calculatePhaseStartTime i p phase ≤ b := by
  have hfold : phase.dependencies.foldl (fun t d => laterOf t (m.instance? i d))
      (m.inputStart i) ≤ b :=
    List.foldlRecOn (motive := fun t : ℚ => t ≤ b) _ _ hinput
      fun t ht d hd => laterOf_le ht fun y hy => hdeps d hd y hy
  unfold calculatePhaseStartTime
  dsimp only
  split
  · next h => exact laterOf_le hfold fun y hy => hprev h.1 h.2 y hy
  · exact hfold

/-! ## What is complete keeps its times -/

theorem updateLatency_times (x : PhaseInstance) (newLatency g : ℚ) :
    (x.updateLatency newLatency g).startTimeUs = x.startTimeUs ∧
      (x.updateLatency newLatency g).completionTimeUs = x.completionTimeUs := by
  unfold PhaseInstance.updateLatency
  dsimp only
  split
  · exact ⟨rfl, rfl⟩
  · split <;> exact ⟨rfl, rfl⟩

theorem Advance.complete_times (h : Advance ok g m m') {x y : PhaseInstance}
    (hx : m.instance? i p = some x) (hc : x.state = .complete) (hy : m'.instance? i p = some y) :
    y.startTimeUs = x.startTimeUs ∧ y.completionTimeUs = x.completionTimeUs := by
  cases h.change hx hy with
  | same hy => rw [hy]; exact ⟨rfl, rfl⟩
  | handled hstart hg hphase hstate => exact absurd hc hstate
  | latency hnew hy => rw [hy]; exact updateLatency_times ..
  | times hstart hphase hstate => exact absurd hc hstate

/-- The completion times of complete instances are those before the step. -/
theorem Advance.completion_of_complete (h : Advance ok g m m') (hc : m.completeOrAbsent i p = true)
    {y : PhaseInstance} (hy : m'.instance? i p = some y) :
    ∃ x, m.instance? i p = some x ∧ y.completionTimeUs = x.completionTimeUs := by
  obtain ⟨x, hx, -⟩ := h.instance_cases hy
  exact ⟨x, hx, (h.complete_times hx (completeOrAbsent_eq_true.mp hc x hx) hy).2⟩

theorem StartsAfter.advance {t : ℚ} (h : StartsAfter m i p phase t) (hs : Shape m)
    (hstart : m.inputStart i ≠ -1) (hdeps : DepsComplete m i p phase) (hadv : Advance ok g m m') :
    StartsAfter m' i p phase t := by
  refine ⟨?_, ?_, ?_⟩
  · rw [hadv.inputStart_eq hs hstart]
    exact h.input
  · intro d hd y hy
    obtain ⟨x, hx, hxy⟩ := hadv.completion_of_complete (hdeps.deps d hd) hy
    rw [hxy]
    exact h.deps d hd x hx
  · intro hpipe hi y hy
    rw [hadv.schedule] at hpipe
    obtain ⟨x, hx, hxy⟩ := hadv.completion_of_complete (hdeps.previous hpipe hi) hy
    rw [hxy]
    exact h.previous hpipe hi x hx

theorem laterOf_advance (hs : Shape m) (hadv : Advance ok g m m') {i d : ℕ}
    (hc : m.completeOrAbsent i d = true) (t : ℚ) :
    laterOf t (m'.instance? i d) = laterOf t (m.instance? i d) := by
  cases hy : m'.instance? i d with
  | some y =>
    obtain ⟨x, hx, hxy⟩ := hadv.completion_of_complete hc hy
    rw [hx]
    simp only [laterOf, hxy]
  | none =>
    cases hx : m.instance? i d with
    | none => rfl
    | some x =>
      obtain ⟨y, hy', -⟩ := hadv.instance_next hs hx
      rw [hy] at hy'
      cases hy'

/-- Once everything a phase waits for is complete, its calculated start time is fixed. -/
theorem calculatePhaseStartTime_advance (hs : Shape m) (hadv : Advance ok g m m')
    (hdeps : DepsComplete m i p phase) (hstart : m.inputStart i ≠ -1) :
    m'.calculatePhaseStartTime i p phase = m.calculatePhaseStartTime i p phase := by
  have hfold : ∀ (ds : List ℕ) (t : ℚ), (∀ d ∈ ds, m.completeOrAbsent i d = true) →
      ds.foldl (fun t d => laterOf t (m'.instance? i d)) t =
        ds.foldl (fun t d => laterOf t (m.instance? i d)) t := by
    intro ds
    induction ds with
    | nil => exact fun _ _ => rfl
    | cons d ds ih =>
      intro t hds
      rw [List.foldl_cons, List.foldl_cons, laterOf_advance hs hadv (hds d List.mem_cons_self)]
      exact ih _ fun e he => hds e (List.mem_cons_of_mem d he)
  unfold calculatePhaseStartTime
  dsimp only
  rw [hfold _ _ hdeps.deps, hadv.inputStart_eq hs hstart, hadv.schedule]
  by_cases hprev : m.communicationMethod = .pipelined ∧ 0 < i
  · rw [if_pos hprev, if_pos hprev, laterOf_advance hs hadv (hdeps.previous hprev.1 hprev.2)]
  · rw [if_neg hprev, if_neg hprev]

/-! ## Phase instances -/

/-- The times of the phase instances at the current time `g`. -/
structure PhaseTimes (g : ℚ) (m : MappedModel) : Prop extends Consistent m where
  latency : ∀ i p x, m.instance? i p = some x → x.state ≠ .complete → 0 ≤ x.latencyUs
  startsAfter : ∀ i p phase x, m.phases.get? p = some phase → m.instance? i p = some x →
    x.state ≠ .notStarted → StartsAfter m i p phase x.startTimeUs
  running : ∀ i p x, m.instance? i p = some x → x.state = .running → x.startTimeUs ≤ g
  complete : ∀ i p x, m.instance? i p = some x → x.state = .complete →
    x.startTimeUs ≤ x.completionTimeUs ∧ x.completionTimeUs ≤ g

theorem Initial.phaseTimes (h : Initial m) (g : ℚ) : PhaseTimes g m := by
  have hfresh : ∀ i p x, m.instance? i p = some x → x.state = .notStarted :=
    fun i p x hx => (h.instances.fresh i p x hx).state
  refine ⟨h.consistent, ?_, ?_, ?_, ?_⟩
  · intro i p x hx _
    exact (h.instances.fresh i p x hx).latency_nonneg
  · intro i p phase x _ hx hs
    exact absurd (hfresh i p x hx) hs
  · intro i p x hx hs
    rw [hfresh i p x hx] at hs
    cases hs
  · intro i p x hx hs
    rw [hfresh i p x hx] at hs
    cases hs

theorem PhaseTimes.later {g g' : ℚ} (hg : g ≤ g') (h : PhaseTimes g m) :
    PhaseTimes g' m := by
  refine ⟨h.toConsistent, h.latency, h.startsAfter, ?_, ?_⟩
  · intro i p x hx hs
    exact (h.running i p x hx hs).trans hg
  · intro i p x hx hs
    obtain ⟨h₁, h₂⟩ := h.complete i p x hx hs
    exact ⟨h₁, h₂.trans hg⟩

theorem Consistent.depsComplete (h : Consistent m) (hp : m.phases.get? p = some phase)
    (hx : m.instance? i p = some x) (hs : x.state ≠ .notStarted) : DepsComplete m i p phase := by
  refine ⟨h.deps i p phase x hp hx hs, fun hpipe hi => ?_⟩
  obtain ⟨k, rfl⟩ : ∃ k, i = k + 1 := ⟨i - 1, by omega⟩
  exact h.previous hpipe k p x hx hs

/-- A phase whose dependencies are complete can have started by now. -/
theorem PhaseTimes.calculated_le (h : PhaseTimes g m) (hdeps : DepsComplete m i p phase)
    (hinput : m.inputStart i ≤ g) :
    m.calculatePhaseStartTime i p phase ≤ g := by
  have hle : ∀ j q, m.completeOrAbsent j q = true → ∀ y, m.instance? j q = some y →
      y.completionTimeUs ≤ g := fun j q hc y hy =>
    (h.complete j q y hy (completeOrAbsent_eq_true.mp hc y hy)).2
  exact calculatePhaseStartTime_le hinput (fun d hd => hle i d (hdeps.deps d hd))
    fun hpipe hi => hle (i - 1) p (hdeps.previous hpipe hi)

theorem fillTimes_latency (x : PhaseInstance) (start : ℚ) :
    (x.fillTimes start).1.latencyUs = x.latencyUs := by
  unfold PhaseInstance.fillTimes
  dsimp only
  split <;> split <;> rfl

theorem fillTimes_start (x : PhaseInstance) (start : ℚ) :
    (x.fillTimes start).1.startTimeUs = x.startTimeUs ∨
      (x.fillTimes start).1.startTimeUs = start := by
  unfold PhaseInstance.fillTimes
  dsimp only
  split <;> split
  · exact .inr rfl
  · exact .inr rfl
  · exact .inl rfl
  · exact .inl rfl

/-- The times of one instance and of what it waits for, as far as they are known. -/
structure InstanceTimes (g : ℚ) (m : MappedModel) (i p : ℕ) (phase : Phase) (y : PhaseInstance) :
    Prop where
  latency : y.state ≠ .complete → 0 ≤ y.latencyUs
  started : y.state ≠ .notStarted → m.inputStart i ≠ -1 ∧ DepsComplete m i p phase ∧
    StartsAfter m i p phase y.startTimeUs ∧ y.startTimeUs ≤ g
  complete : y.state = .complete → y.startTimeUs ≤ y.completionTimeUs ∧ y.completionTimeUs ≤ g

theorem PhaseTimes.instanceTimes (h : PhaseTimes g m) (hp : m.phases.get? p = some phase)
    (hx : m.instance? i p = some x) : InstanceTimes g m i p phase x := by
  refine ⟨h.latency i p x hx, fun hs => ?_, h.complete i p x hx⟩
  refine ⟨h.started i p x hx hs, h.depsComplete hp hx hs, h.startsAfter i p phase x hp hx hs, ?_⟩
  cases hstate : x.state with
  | notStarted => exact absurd hstate hs
  | running => exact h.running i p x hx hstate
  | complete =>
    obtain ⟨h₁, h₂⟩ := h.complete i p x hx hstate
    exact h₁.trans h₂

/-- Handling a phase gives its instance a start after all it waits for, and a completion between
the start and now. -/
theorem PhaseTimes.handled (h : PhaseTimes g m) (hp : m.phases.get? p = some phase)
    (hx : m.instance? i p = some x) (hstate : x.state ≠ .complete) (hstart : m.inputStart i ≠ -1)
    (hg : m.inputStart i ≤ g) (hdeps : DepsComplete m i p phase) :
    InstanceTimes g m i p phase (m.handlePhase g i p phase x).inst := by
  have hold := h.instanceTimes hp hx
  have hcalc := h.calculated_le hdeps hg
  have hafter := startsAfter_calculated m i p phase
  obtain ⟨-, -, hmove⟩ := handlePhase_step m g i p phase x hstate
  cases hmove with
  | stay state start completion latency =>
    refine ⟨?_, ?_, ?_⟩
    · rw [state, latency]
      exact hold.latency
    · rw [state, start]
      exact hold.started
    · rw [state]
      exact fun hc => absurd hc hstate
  | begin was state start completion latency =>
    refine ⟨?_, ?_, ?_⟩
    · rw [latency]
      exact fun _ => hold.latency hstate
    · rw [start]
      exact fun _ => ⟨hstart, hdeps, hafter, hcalc⟩
    · rw [state]
      exact fun hc => by cases hc
  | finish was state start completion =>
    have hrun : x.state ≠ .notStarted := by rw [was]; decide
    have hlat := hold.latency hstate
    obtain ⟨-, -, hsa, hle⟩ := hold.started hrun
    refine ⟨fun hc => absurd state hc, fun _ => ?_, fun _ => ?_⟩
    · rw [start]
      exact ⟨hstart, hdeps, hsa, hle⟩
    · rw [start]
      rcases completion with hcompl | ⟨hcompl, hnow⟩ <;> rw [hcompl]
      · exact ⟨le_rfl, hle⟩
      · exact ⟨by linarith, hnow⟩
  | pass was state start completion =>
    refine ⟨fun hc => absurd state hc, fun _ => ⟨hstart, hdeps, ?_⟩, fun _ => ?_⟩
    · rcases start with hs | hs <;> rw [hs]
      · exact ⟨hafter, hcalc⟩
      · -- completed at once at the current time
        exact ⟨⟨hg, fun d hd y hy => (hafter.deps d hd y hy).trans hcalc,
          fun hpipe hi y hy => (hafter.previous hpipe hi y hy).trans hcalc⟩, le_rfl⟩
    · rw [completion]
      rcases start with hs | hs <;> rw [hs]
      · exact ⟨le_rfl, hcalc⟩
      · exact ⟨le_rfl, le_rfl⟩

theorem updateLatency_nonneg {newLatency g : ℚ} (hnew : 0 ≤ newLatency) (hlat : 0 ≤ x.latencyUs)
    (hrun : x.state = .running → x.startTimeUs ≤ g) :
    0 ≤ (x.updateLatency newLatency g).latencyUs := by
  unfold PhaseInstance.updateLatency
  dsimp only
  split
  · exact hnew
  · split
    · next h =>
      have hle := hrun h.2
      show 0 ≤ g - x.startTimeUs + newLatency
      linarith
    · exact hlat

/-- The times of an instance after a step, relative to the state before it. -/
theorem PhaseTimes.instance_advance (h : PhaseTimes g m) (hadv : Advance nonNegative g m m')
    {y : PhaseInstance} (hp : m.phases.get? p = some phase) (hy : m'.instance? i p = some y) :
    InstanceTimes g m i p phase y := by
  obtain ⟨x, hx, hchange⟩ := hadv.instance_cases hy
  have hold := h.instanceTimes hp hx
  cases hchange with
  | same hy => rw [hy]; exact hold
  | handled hstart hg hphase hstate hdeps hy hm' =>
    rw [hp, Option.some.injEq] at hphase
    subst hphase
    rw [hy]
    exact h.handled hp hx hstate hstart hg (depsComplete_of_met hp hdeps)
  | latency hnew hy =>
    rw [hy]
    obtain ⟨hstart, hcompl⟩ := updateLatency_times x _ g
    refine ⟨?_, ?_, ?_⟩
    · rw [updateLatency_state]
      exact fun hs => updateLatency_nonneg hnew (hold.latency hs) (h.running i p x hx)
    · rw [updateLatency_state, hstart]
      exact hold.started
    · rw [updateLatency_state, hstart, hcompl]
      exact hold.complete
  | times hstart hphase hstate hdeps hy =>
    rw [hp, Option.some.injEq] at hphase
    subst hphase
    rw [hy]
    have hdeps' := depsComplete_of_met hp hdeps
    refine ⟨?_, ?_, ?_⟩
    · rw [fillTimes_state, fillTimes_latency]
      exact hold.latency
    · rw [fillTimes_state]
      intro hs
      obtain ⟨h₁, h₂, h₃, h₄⟩ := hold.started hs
      refine ⟨h₁, h₂, ?_⟩
      rcases fillTimes_start x (m.calculatePhaseStartTime i p phase) with hf | hf <;> rw [hf]
      · exact ⟨h₃, h₄⟩
      · exact ⟨startsAfter_calculated m i p phase,
          h.calculated_le hdeps' (h₃.input.trans h₄)⟩
    · rw [fillTimes_state]
      exact fun hc => absurd hc hstate

/-- **One step.** Every elementary step preserves the order of the phase times. -/
theorem PhaseTimes.advance (h : PhaseTimes g m) (hadv : Advance nonNegative g m m') :
    PhaseTimes g m' := by
  have hsched := hadv.schedule
  have hphase : ∀ {i p : ℕ} {y : PhaseInstance}, m'.instance? i p = some y →
      ∃ phase, m.phases.get? p = some phase ∧ InstanceTimes g m i p phase y := by
    intro i p y hy
    obtain ⟨x, hx, -⟩ := hadv.instance_cases hy
    obtain ⟨-, phase, hp, -⟩ := (h.exist i p).mp ⟨x, hx⟩
    exact ⟨phase, hp, h.instance_advance hadv hp hy⟩
  refine ⟨h.toConsistent.advance hadv, ?_, ?_, ?_, ?_⟩
  · intro i p y hy hs
    obtain ⟨phase, -, hnew⟩ := hphase hy
    exact hnew.latency hs
  · intro i p phase y hp hy hs
    rw [hsched] at hp
    obtain ⟨hstart, hdeps, hafter, -⟩ := (h.instance_advance hadv hp hy).started hs
    exact hafter.advance h.toShape hstart hdeps hadv
  · intro i p y hy hs
    obtain ⟨phase, -, hnew⟩ := hphase hy
    exact (hnew.started (by rw [hs]; decide)).2.2.2
  · intro i p y hy hs
    obtain ⟨phase, -, hnew⟩ := hphase hy
    exact hnew.complete hs

/-! ## Inputs and the model -/

/-- A time that is the latest completion among the instances of an input. -/
structure LatestOf (m : MappedModel) (i : ℕ) (t : ℚ) : Prop where
  bound : ∀ p x, m.instance? i p = some x → x.completionTimeUs ≤ t
  attained : ∃ p x, m.instance? i p = some x ∧ x.completionTimeUs = t

/-- The recorded completion times of the inputs and of the model. -/
structure Recorded (m : MappedModel) : Prop extends Consistent m where
  inputDone : ∀ i, m.inputCompletion i ≠ -1 →
    (∀ p, m.completeOrAbsent i p = true) ∧ LatestOf m i (m.inputCompletion i)
  inputNext : m.communicationMethod = .nonPipelined → ∀ i, m.inputStart (i + 1) ≠ -1 →
    m.inputCompletion i ≠ -1 ∧ m.inputStart (i + 1) = m.inputCompletion i
  modelDone : m.modelCompletionTimeUs ≠ -1 →
    (∀ i < m.numInputs, m.inputCompletion i ≠ -1 ∧
      m.inputCompletion i ≤ m.modelCompletionTimeUs) ∧
    ∃ i < m.numInputs, m.inputCompletion i = m.modelCompletionTimeUs

theorem Initial.recorded (h : Initial m) : Recorded m :=
  ⟨h.consistent, fun i hi => absurd (h.inputCompletion i) hi,
    fun _ i hi => absurd (h.inputStart_pos (i + 1) (Nat.succ_pos i)) hi,
    fun hm => absurd h.modelCompletion hm⟩

/-- The completion time of an input changes only once, to the latest completion of its phases. -/
theorem Advance.inputCompletion_change (hs : Shape m) (h : Advance ok g m m') (i : ℕ) :
    m'.inputCompletion i = m.inputCompletion i ∨
      (m.inputCompletion i = -1 ∧ m.allPhasesComplete i = true ∧
        m'.phaseInstances = m.phaseInstances ∧
        maxOf ((m.existingInstances i).map (·.completionTimeUs)) = .ok (m'.inputCompletion i)) := by
  cases h with
  | phase => exact .inl (applyOutcome_inputCompletion ..)
  | latency => exact .inl rfl
  | times => exact .inl rfl
  | startInput => exact .inl rfl
  | completeInput hiN hunset hall hmax =>
    next i' t =>
    have hset : inputCompletion
        { m with inputCompletionTimeUs := m.inputCompletionTimeUs.set i' t } i =
        if i = i' then t else m.inputCompletion i := getD_set (hs.completionLength ▸ hiN) ..
    rw [hset]
    by_cases hj : i = i'
    · subst hj
      rw [if_pos rfl]
      exact .inr ⟨hunset, hall, rfl, hmax⟩
    · rw [if_neg hj]
      exact .inl rfl
  | completeModel => exact .inl rfl
  | records => exact .inl rfl
  | coActive => exact .inl rfl

/-- The completion time of the model changes only to the latest completion of its inputs. -/
theorem Advance.modelCompletion_change (h : Advance ok g m m') :
    m'.modelCompletionTimeUs = m.modelCompletionTimeUs ∨
      ((∀ c ∈ m.inputCompletionTimeUs, c ≠ -1) ∧
        m'.inputCompletionTimeUs = m.inputCompletionTimeUs ∧
        maxOf m.inputCompletionTimeUs = .ok m'.modelCompletionTimeUs) := by
  cases h with
  | phase => exact .inl (applyOutcome_modelCompletionTimeUs ..)
  | latency => exact .inl rfl
  | times => exact .inl rfl
  | startInput => exact .inl rfl
  | completeInput => exact .inl rfl
  | completeModel hall hmax => exact .inr ⟨hall, rfl, hmax⟩
  | records => exact .inl rfl
  | coActive => exact .inl rfl

theorem LatestOf.advance {i : ℕ} {t : ℚ} (h : LatestOf m i t) (hs : Shape m)
    (hall : ∀ p, m.completeOrAbsent i p = true) (hadv : Advance ok g m m') :
    LatestOf m' i t := by
  refine ⟨?_, ?_⟩
  · intro p y hy
    obtain ⟨x, hx, hxy⟩ := hadv.completion_of_complete (hall p) hy
    rw [hxy]
    exact h.bound p x hx
  · obtain ⟨p, x, hx, ht⟩ := h.attained
    obtain ⟨y, hy, -⟩ := hadv.instance_next hs hx
    obtain ⟨x', hx', hxy⟩ := hadv.completion_of_complete (hall p) hy
    rw [hx, Option.some.injEq] at hx'
    exact ⟨p, y, hy, by rw [hxy, ← hx', ht]⟩

theorem latestOf_maxOf (hs : Shape m) {i : ℕ} {t : ℚ}
    (h : maxOf ((m.existingInstances i).map (·.completionTimeUs)) = .ok t) : LatestOf m i t := by
  obtain ⟨hmem, hbound⟩ := maxOf_spec h
  refine ⟨?_, ?_⟩
  · intro p x hx
    exact hbound _ (List.mem_map_of_mem
      (List.mem_filterMap.mpr ⟨p, hs.mem_order_of_instance hx, hx⟩))
  · obtain ⟨x, hx, ht⟩ := List.mem_map.mp hmem
    obtain ⟨p, -, hp⟩ := List.mem_filterMap.mp hx
    exact ⟨p, x, hp, ht⟩

theorem LatestOf.of_instances {i : ℕ} {t : ℚ} (h : LatestOf m i t)
    (hinst : m'.phaseInstances = m.phaseInstances) : LatestOf m' i t := by
  have hget : ∀ p, m'.instance? i p = m.instance? i p := fun p => by
    unfold instance?
    rw [hinst]
  refine ⟨fun p x hx => h.bound p x (by rw [← hget, hx]), ?_⟩
  obtain ⟨p, x, hx, ht⟩ := h.attained
  exact ⟨p, x, by rw [hget, hx], ht⟩

theorem mem_inputCompletion (hs : Shape m) {c : ℚ} :
    c ∈ m.inputCompletionTimeUs ↔ ∃ i < m.numInputs, m.inputCompletion i = c := by
  rw [← hs.completionLength, List.mem_iff_getElem]
  constructor
  · rintro ⟨i, hi, rfl⟩
    exact ⟨i, hi, List.getD_eq_getElem _ _ hi⟩
  · rintro ⟨i, hi, rfl⟩
    exact ⟨i, hi, (List.getD_eq_getElem _ _ hi).symm⟩

/-- **One step.** Every elementary step preserves the recorded times. -/
theorem Recorded.advance (h : Recorded m) (hadv : Advance ok g m m') :
    Recorded m' := by
  have hsched := hadv.schedule
  have hkeep : ∀ i, m.inputCompletion i ≠ -1 → m'.inputCompletion i = m.inputCompletion i :=
    fun i hi => (hadv.inputCompletion_change h.toShape i).resolve_right fun hr => hi hr.1
  refine ⟨h.toConsistent.advance hadv, ?_, ?_, ?_⟩
  · intro i hi
    rcases hadv.inputCompletion_change h.toShape i with heq | ⟨-, hall, hinst, hmax⟩
    · rw [heq] at hi ⊢
      obtain ⟨hcompl, hlatest⟩ := h.inputDone i hi
      exact ⟨fun p => hadv.completeOrAbsent (hcompl p), hlatest.advance h.toShape hcompl hadv⟩
    · have hcompl := (h.toShape.allPhasesComplete_iff i).mp hall
      exact ⟨fun p => hadv.completeOrAbsent (hcompl p),
        (latestOf_maxOf h.toShape hmax).of_instances hinst⟩
  · intro hseq i hi
    rw [hsched] at hseq
    rcases hadv.inputStart_change h.toShape (i + 1) with heq | ⟨-, -, hnext, -, hcompl⟩
    · rw [heq] at hi ⊢
      obtain ⟨hset, hval⟩ := h.inputNext hseq i hi
      rw [hkeep i hset]
      exact ⟨hset, hval⟩
    · -- the input starts when its predecessor has completed
      have hkept : m'.inputCompletion i = m.inputCompletion i := by
        unfold inputCompletion
        rw [hcompl]
      unfold nextInputStart at hnext
      rw [hseq] at hnext
      dsimp only at hnext
      split at hnext
      · next hc =>
        rw [hkept]
        exact ⟨hc.2, (Option.some.inj hnext).symm⟩
      · cases hnext
  · intro hm
    rw [hsched]
    rcases hadv.modelCompletion_change with heq | ⟨hall, hcompl, hmax⟩
    · rw [heq] at hm ⊢
      obtain ⟨hbound, i, hi, hattained⟩ := h.modelDone hm
      refine ⟨fun j hj => ?_, i, hi, ?_⟩
      · rw [hkeep j (hbound j hj).1]
        exact hbound j hj
      · rw [hkeep i (hbound i hi).1, hattained]
    · have hkept : ∀ i, m'.inputCompletion i = m.inputCompletion i := fun i => by
        unfold inputCompletion
        rw [hcompl]
      obtain ⟨hmem, hle⟩ := maxOf_spec hmax
      refine ⟨fun j hj => ?_, ?_⟩
      · rw [hkept j]
        have hj' := (mem_inputCompletion h.toShape).mpr ⟨j, hj, rfl⟩
        exact ⟨hall _ hj', hle _ hj'⟩
      · obtain ⟨i, hi, hval⟩ := (mem_inputCompletion h.toShape).mp hmem
        exact ⟨i, hi, by rw [hkept, hval]⟩

theorem Run.recorded {m₀ m : MappedModel} {g₀ g : ℚ} (hinit : Initial m₀)
    (h : Run ok g₀ m₀ g m) : Recorded m :=
  h.invariant (P := fun _ m => Recorded m) hinit.recorded (fun _ _ _ _ h => h)
    fun _ _ _ hs hstep => hs.advance hstep

/-- A model with a completion time has completed every phase of every input, the last of them
at that time. -/
theorem Recorded.model_complete (h : Recorded m) (hm : m.modelCompletionTimeUs ≠ -1) :
    (∀ i p x, m.instance? i p = some x →
      x.state = .complete ∧ x.completionTimeUs ≤ m.modelCompletionTimeUs) ∧
    ∃ i p x, m.instance? i p = some x ∧ x.completionTimeUs = m.modelCompletionTimeUs := by
  obtain ⟨hbound, i, hi, hattained⟩ := h.modelDone hm
  refine ⟨fun j p x hx => ?_, ?_⟩
  · obtain ⟨hj, -⟩ := (h.exist j p).mp ⟨x, hx⟩
    obtain ⟨hset, hle⟩ := hbound j hj
    obtain ⟨hall, hlatest⟩ := h.inputDone j hset
    exact ⟨completeOrAbsent_eq_true.mp (hall p) x hx, (hlatest.bound p x hx).trans hle⟩
  · obtain ⟨p, x, hx, hval⟩ := (h.inputDone i (hbound i hi).1).2.attained
    exact ⟨i, p, x, hx, hval.trans hattained⟩

/-- The times of the phases, and the recorded times of the inputs and of the model. -/
structure Timed (g : ℚ) (m : MappedModel) : Prop extends PhaseTimes g m, Recorded m

theorem Reachable.timed {m₀ m : MappedModel} (hinit : Initial m₀) (h : Reachable m₀ g m) :
    Timed g m := by
  obtain ⟨g₀, hrun⟩ := h
  have htimes : PhaseTimes g m :=
    hrun.invariant (P := fun g m => PhaseTimes g m) (hinit.phaseTimes g₀)
      (fun _ _ _ hg h => h.later hg) fun _ _ _ hs hstep => hs.advance hstep
  have hrec := hrun.recorded hinit
  exact ⟨htimes, hrec.inputDone, hrec.inputNext, hrec.modelDone⟩

/-! ## When an input starts -/

/-- An input that starts after a layer starts when one of the phases of that layer completes. -/
theorem layerCompletion_attained {i l : ℕ} {t : ℚ} (ht : m.layerCompletion i l = some t) :
    ∃ p x, m.instance? i p = some x ∧ x.state = .complete ∧ x.completionTimeUs = t := by
  unfold layerCompletion at ht
  obtain ⟨c, -, ht⟩ := Option.bind_eq_some_iff.mp ht
  obtain ⟨x, hx, ht⟩ := Option.bind_eq_some_iff.mp ht
  split at ht
  · next a _ =>
    obtain ⟨y, hy, ht⟩ := Option.bind_eq_some_iff.mp ht
    split at ht
    · next hc =>
      rw [Option.some.injEq] at ht
      rcases max_choice x.completionTimeUs y.completionTimeUs with hmax | hmax
      · exact ⟨c, x, hx, hc.1, hmax.symm.trans ht⟩
      · exact ⟨a, y, hy, hc.2, hmax.symm.trans ht⟩
    · cases ht
  · split at ht
    · next hc =>
      rw [Option.some.injEq] at ht
      exact ⟨c, x, hx, hc, ht⟩
    · cases ht

/-- An input starts when a phase of the previous one completes. -/
theorem Recorded.nextInputStart_attained (h : Recorded m) {i : ℕ} {t : ℚ}
    (ht : m.nextInputStart i = some t) :
    ∃ p x, m.instance? (i - 1) p = some x ∧ x.state = .complete ∧ x.completionTimeUs = t := by
  unfold nextInputStart at ht
  split at ht
  · obtain ⟨l, -, hl⟩ := List.exists_of_findSome?_eq_some ht
    exact layerCompletion_attained hl
  · split at ht
    · next hc =>
      rw [Option.some.injEq] at ht
      obtain ⟨hall, hlatest⟩ := h.inputDone (i - 1) hc.2
      obtain ⟨p, x, hx, hval⟩ := hlatest.attained
      exact ⟨p, x, hx, completeOrAbsent_eq_true.mp (hall p) x hx, hval.trans ht⟩
    · cases ht

/-! ## Times that are not negative -/

/-- The times of a model none of whose inputs starts at a negative time. -/
structure NonNegTimes (g : ℚ) (m : MappedModel) : Prop extends Timed g m where
  inputTimes : ∀ i, m.inputStart i ≠ -1 → 0 ≤ m.inputStart i

theorem Initial.nonNegTimes (h : Initial m) (hN : 0 < m.numInputs) (h0 : 0 ≤ m.modelStartTimeUs)
    (g : ℚ) : NonNegTimes g m where
  toTimed := (Reachable.init m g).timed h
  inputTimes i hi := by
    rcases Nat.eq_zero_or_pos i with rfl | hpos
    · rw [h.inputStart_zero hN]
      exact h0
    · exact absurd (h.inputStart_pos i hpos) hi

theorem NonNegTimes.completion (h : NonNegTimes g m) (hx : m.instance? i p = some x)
    (hc : x.state = .complete) :
    0 ≤ x.completionTimeUs := by
  obtain ⟨-, phase, hp, -⟩ := (h.exist i p).mp ⟨x, hx⟩
  have hstarted : x.state ≠ .notStarted := by rw [hc]; decide
  calc 0 ≤ m.inputStart i := h.inputTimes i (h.started i p x hx hstarted)
    _ ≤ x.startTimeUs := (h.startsAfter i p phase x hp hx hstarted).input
    _ ≤ x.completionTimeUs := (h.complete i p x hx hc).1

theorem NonNegTimes.nextInputStart (h : NonNegTimes g m) {i : ℕ} {t : ℚ}
    (ht : m.nextInputStart i = some t) : 0 ≤ t := by
  obtain ⟨p, x, hx, hc, rfl⟩ := h.nextInputStart_attained ht
  exact h.completion hx hc

theorem NonNegTimes.advance (h : NonNegTimes g m) (hadv : Advance nonNegative g m m') :
    NonNegTimes g m' := by
  have hrec := h.toRecorded.advance hadv
  refine ⟨⟨h.toPhaseTimes.advance hadv, hrec.inputDone, hrec.inputNext, hrec.modelDone⟩, ?_⟩
  intro i hi
  rcases hadv.inputStart_change h.toShape i with heq | ⟨-, -, hnext, -, -⟩
  · rw [heq] at hi ⊢
    exact h.inputTimes i hi
  · exact h.nextInputStart hnext

theorem NonNegTimes.advances (h : NonNegTimes g m) (hadv : Advances nonNegative g m m') :
    NonNegTimes g m' :=
  chain_invariant hadv h fun _ _ hs hstep => hs.advance hstep

theorem NonNegTimes.later {g g' : ℚ} (hg : g ≤ g') (h : NonNegTimes g m) :
    NonNegTimes g' m :=
  ⟨⟨h.toPhaseTimes.later hg, h.inputDone, h.inputNext, h.modelDone⟩, h.inputTimes⟩

theorem Reachable.nonNegTimes {m₀ m : MappedModel} (hinit : Initial m₀) (hN : 0 < m₀.numInputs)
    (h0 : 0 ≤ m₀.modelStartTimeUs) (h : Reachable m₀ g m) :
    NonNegTimes g m := by
  obtain ⟨g₀, hrun⟩ := h
  exact hrun.invariant (P := fun g m => NonNegTimes g m) (hinit.nonNegTimes hN h0 g₀)
    (fun _ _ _ hg h => h.later hg) fun _ _ _ hs hstep => hs.advance hstep

/-- A complete input has its completion recorded. -/
theorem NonNegTimes.completeInput {n : ℕ} {acc acc' : MappedModel × Bool} (h : NonNegTimes g acc.1)
    (hn : n < acc.1.numInputs) (hall : acc.1.allPhasesComplete n = true)
    (hacc' : MappedModel.completeInput acc n = .ok acc') :
    acc'.1.inputCompletion n ≠ -1 := by
  unfold MappedModel.completeInput at hacc'
  dsimp only at hacc'
  by_cases hset : acc.1.inputCompletion n = -1
  · rw [if_pos ⟨hall, hset⟩] at hacc'
    obtain ⟨last, hlast, hacc'⟩ := bind_eq_ok.mp hacc'
    cases hacc'
    have hval : inputCompletion { acc.1 with
        inputCompletionTimeUs := acc.1.inputCompletionTimeUs.set n last } n = last :=
      (getD_set (h.completionLength ▸ hn) ..).trans (if_pos rfl)
    obtain ⟨p, x, hx, hxlast⟩ := (latestOf_maxOf h.toShape hlast).attained
    have hc := completeOrAbsent_eq_true.mp ((h.toShape.allPhasesComplete_iff n).mp hall p) x hx
    have hnonneg := h.completion hx hc
    rw [hval, ← hxlast]
    linarith
  · rw [if_neg fun hc => hset hc.2] at hacc'
    cases hacc'
    exact hset

/-! ## The order of the inputs -/

/-- A phase has an instance for the next input, or it loads the weights of a computation that
has one. -/
theorem Shape.next_or_used (h : Shape m) (hx : m.instance? i p = some x) (hi : i + 1 < m.numInputs)
    :
    (∃ y, m.instance? (i + 1) p = some y) ∨
      ∃ c phase x' y', m.phases.get? c = some phase ∧ p ∈ phase.dependencies ∧
        m.instance? i c = some x' ∧ m.instance? (i + 1) c = some y' := by
  obtain ⟨-, phase, hp, -⟩ := (h.exist i p).mp ⟨x, hx⟩
  cases hw : phase.isWeightLoading with
  | false =>
    exact .inl ((h.exist (i + 1) p).mpr ⟨hi, phase, hp, skipsInstance_of_not_weight hw⟩)
  | true =>
    obtain ⟨c, cphase, l, hc, hk, hdep⟩ := h.wellFormed.weight_used p phase hp hw
    have hskip : ∀ j, skipsInstance m.toPhaseSchedule j cphase = false := fun j =>
      skipsInstance_of_not_weight (isWeightLoading_of_compute hk)
    obtain ⟨x', hx'⟩ := (h.exist i c).mpr ⟨by omega, cphase, hc, hskip i⟩
    obtain ⟨y', hy'⟩ := (h.exist (i + 1) c).mpr ⟨hi, cphase, hc, hskip (i + 1)⟩
    exact .inr ⟨c, cphase, x', y', hc, hdep, hx', hy'⟩

/-- When an input is complete, so is the one before it. -/
theorem Consistent.complete_before (h : Consistent m) {i : ℕ} (hi : i + 1 < m.numInputs)
    (hall : ∀ p, m.completeOrAbsent (i + 1) p = true) (p : ℕ) :
    m.completeOrAbsent i p = true := by
  have hprev : ∀ {q : ℕ} {x y : PhaseInstance}, m.instance? i q = some x →
      m.instance? (i + 1) q = some y → x.state = .complete := by
    intro q x y hx hy
    have hc := completeOrAbsent_eq_true.mp (hall q) y hy
    obtain ⟨z, hz, hzc⟩ := h.previous_complete hy (by rw [hc]; decide)
    rw [hx, Option.some.injEq] at hz
    rw [hz, hzc]
  rw [completeOrAbsent_eq_true]
  intro x hx
  rcases h.next_or_used hx hi with ⟨y, hy⟩ | ⟨c, phase, x', y', hc, hdep, hx', hy'⟩
  · exact hprev hx hy
  · have hstarted : x'.state ≠ .notStarted := by rw [hprev hx' hy']; decide
    exact completeOrAbsent_eq_true.mp (h.deps i c phase x' hc hx' hstarted p hdep) x hx

/-- Every instance of an input completes no later than some instance of the next one. -/
theorem Timed.completes_before (h : Timed g m) (hi : i + 1 < m.numInputs)
    (hall : ∀ q, m.completeOrAbsent (i + 1) q = true) (hx : m.instance? i p = some x) :
    ∃ q y, m.instance? (i + 1) q = some y ∧ x.completionTimeUs ≤ y.completionTimeUs := by
  have hcomplete : ∀ {q y}, m.instance? (i + 1) q = some y → y.state = .complete := fun hy =>
    completeOrAbsent_eq_true.mp (hall _) _ hy
  have hafter : ∀ {j q phase y}, m.phases.get? q = some phase → m.instance? j q = some y →
      y.state = .complete → StartsAfter m j q phase y.startTimeUs ∧
        y.startTimeUs ≤ y.completionTimeUs := fun hq hy hc =>
    ⟨h.startsAfter _ _ _ _ hq hy (by rw [hc]; decide), (h.complete _ _ _ hy hc).1⟩
  cases hmethod : m.communicationMethod with
  | pipelined =>
    rcases h.next_or_used hx hi with ⟨y, hy⟩ | ⟨c, phase, x', y', hc, hdep, hx', hy'⟩
    · obtain ⟨-, phase, hp, -⟩ := (h.exist i p).mp ⟨x, hx⟩
      obtain ⟨hsa, hle⟩ := hafter hp hy (hcomplete hy)
      exact ⟨p, y, hy, (hsa.previous hmethod (Nat.succ_pos i) x hx).trans hle⟩
    · -- weights, then the computation of this input, then that of the next one
      have hx'c := completeOrAbsent_eq_true.mp (h.complete_before hi hall c) x' hx'
      obtain ⟨hsa, hle⟩ := hafter hc hx' hx'c
      obtain ⟨hsa', hle'⟩ := hafter hc hy' (hcomplete hy')
      refine ⟨c, y', hy', ?_⟩
      calc x.completionTimeUs ≤ x'.startTimeUs := hsa.deps p hdep x hx
        _ ≤ x'.completionTimeUs := hle
        _ ≤ y'.startTimeUs := hsa'.previous hmethod (Nat.succ_pos i) x' hx'
        _ ≤ y'.completionTimeUs := hle'
  | nonPipelined =>
    obtain ⟨q, y, -, hy⟩ := h.exists_instance hi
    obtain ⟨-, phase, hq, -⟩ := (h.exist (i + 1) q).mp ⟨y, hy⟩
    obtain ⟨hsa, hle⟩ := hafter hq hy (hcomplete hy)
    have hstart := h.started (i + 1) q y hy (by rw [hcomplete hy]; decide)
    obtain ⟨hset, hval⟩ := h.inputNext hmethod i hstart
    refine ⟨q, y, hy, ?_⟩
    calc x.completionTimeUs ≤ m.inputCompletion i := (h.inputDone i hset).2.bound p x hx
      _ = m.inputStart (i + 1) := hval.symm
      _ ≤ y.startTimeUs := hsa.input
      _ ≤ y.completionTimeUs := hle

theorem Timed.completes_by (h : Timed g m) {i k p : ℕ} (hi : i + k < m.numInputs)
    (hall : ∀ q, m.completeOrAbsent (i + k) q = true) (hx : m.instance? i p = some x) :
    ∃ q y, m.instance? (i + k) q = some y ∧ x.completionTimeUs ≤ y.completionTimeUs := by
  induction k with
  | zero => exact ⟨p, x, hx, le_rfl⟩
  | succ k ih =>
    have hbefore := fun q => h.complete_before (i := i + k) hi hall q
    obtain ⟨q, y, hy, hle⟩ := ih (by omega) hbefore
    obtain ⟨q', y', hy', hle'⟩ := h.completes_before (i := i + k) hi hall hy
    exact ⟨q', y', hy', hle.trans hle'⟩

/-- Recorded completion times do not decrease with the input. -/
theorem Timed.inputCompletion_mono (h : Timed g m) {i j : ℕ} (hij : i ≤ j)
    (hi : m.inputCompletion i ≠ -1) (hj : m.inputCompletion j ≠ -1) :
    m.inputCompletion i ≤ m.inputCompletion j := by
  obtain ⟨k, rfl⟩ := Nat.exists_eq_add_of_le hij
  have hlt : i + k < m.numInputs := by
    by_contra hge
    refine hj (List.getD_eq_default _ _ ?_)
    rw [h.completionLength]
    exact not_lt.mp hge
  obtain ⟨p, x, hx, hval⟩ := (h.inputDone i hi).2.attained
  obtain ⟨hall, hlatest⟩ := h.inputDone (i + k) hj
  obtain ⟨q, y, hy, hle⟩ := h.completes_by hlt hall hx
  calc m.inputCompletion i = x.completionTimeUs := hval.symm
    _ ≤ y.completionTimeUs := hle
    _ ≤ m.inputCompletion (i + k) := hlatest.bound q y hy

end MappedModel

end ChipSim
