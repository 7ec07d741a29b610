import ChipSim.MappedModel.Run

/-!
# Dependencies over whole runs

In every reachable state a phase that has started has all its dependencies complete, the weights
of a layer that computes are loaded, and no phase runs for two inputs at once. Later inputs have
no weight phases of their own in stationary mode: they are protected by the order of the inputs,
which the invariant `Consistent` records for both communication methods.
-/

namespace ChipSim

open Lib

namespace MappedModel

variable {ok : Guard} {m m' : MappedModel} {g : ℚ} {i p : ℕ} {x : PhaseInstance} {phase : Phase}

/-! ## What an elementary step changes -/

theorem updateLatency_state (x : PhaseInstance) (newLatency g : ℚ) :
    (x.updateLatency newLatency g).state = x.state := by
  unfold PhaseInstance.updateLatency
  dsimp only
  split
  · rfl
  · split <;> rfl

theorem fillTimes_state (x : PhaseInstance) (start : ℚ) :
    (x.fillTimes start).1.state = x.state := by
  unfold PhaseInstance.fillTimes
  dsimp only
  split <;> split <;> rfl

/-- How one instance can differ before and after an elementary step. -/
inductive InstanceChange (ok : Guard) (g : ℚ) (m m' : MappedModel) (i p : ℕ)
    (x y : PhaseInstance) : Prop
  | same (hy : y = x)
  | handled {phase : Phase} (hstart : m.inputStart i ≠ -1) (hg : m.inputStart i ≤ g)
      (hphase : m.phases.get? p = some phase) (hstate : x.state ≠ .complete)
      (hdeps : m.dependenciesMet i p = .ok true)
      (hy : y = (m.handlePhase g i p phase x).inst)
      (hm' : m' = m.applyOutcome i p phase (m.handlePhase g i p phase x))
  | latency {newLatency : ℚ} (hok : ok g m (.updateLatency i p newLatency))
      (hy : y = x.updateLatency newLatency g)
  | times {phase : Phase} (hstart : m.inputStart i ≠ -1) (hphase : m.phases.get? p = some phase)
      (hstate : x.state ≠ .complete) (hdeps : m.dependenciesMet i p = .ok true)
      (hy : y = (x.fillTimes (m.calculatePhaseStartTime i p phase)).1)

theorem instance?_write {i p j q : ℕ} {x y z : PhaseInstance} (hx : m.instance? j q = some x)
    (hz : (if i = j ∧ p = q then some y else m.instance? i p) = some z) :
    (i = j ∧ p = q ∧ m.instance? i p = some x ∧ z = y) ∨ m.instance? i p = some z := by
  by_cases hip : i = j ∧ p = q
  · rw [if_pos hip, Option.some.injEq] at hz
    exact .inl ⟨hip.1, hip.2, by rw [hip.1, hip.2, hx], hz.symm⟩
  · rw [if_neg hip] at hz
    exact .inr hz

/-- Every instance after an elementary step comes from the same instance before it. -/
theorem Advance.instance_cases (h : Advance ok g m m') {y : PhaseInstance}
    (hy : m'.instance? i p = some y) :
    ∃ x, m.instance? i p = some x ∧ InstanceChange ok g m m' i p x y := by
  cases h with
  | phase hstart hg hphase hx hstate hdeps =>
    rw [instance?_applyOutcome] at hy
    rcases instance?_write hx hy with ⟨rfl, rfl, hx', rfl⟩ | hy
    · exact ⟨_, hx', .handled hstart hg hphase hstate hdeps rfl rfl⟩
    · exact ⟨y, hy, .same rfl⟩
  | latency hnew hx =>
    rw [instance?_setInstance] at hy
    rcases instance?_write hx hy with ⟨rfl, rfl, hx', rfl⟩ | hy
    · exact ⟨_, hx', .latency hnew rfl⟩
    · exact ⟨y, hy, .same rfl⟩
  | times hstart hphase hx hstate hdeps =>
    rw [instance?_setInstance] at hy
    rcases instance?_write hx hy with ⟨rfl, rfl, hx', rfl⟩ | hy
    · exact ⟨_, hx', .times hstart hphase hstate hdeps rfl⟩
    · exact ⟨y, hy, .same rfl⟩
  | startInput => exact ⟨y, hy, .same rfl⟩
  | completeInput => exact ⟨y, hy, .same rfl⟩
  | completeModel => exact ⟨y, hy, .same rfl⟩
  | records => exact ⟨y, hy, .same rfl⟩
  | coActive => exact ⟨y, hy, .same rfl⟩

/-- How an instance that is known before and after an elementary step differs. -/
theorem Advance.change (h : Advance ok g m m') {x y : PhaseInstance} (hx : m.instance? i p = some x)
    (hy : m'.instance? i p = some y) :
    InstanceChange ok g m m' i p x y := by
  obtain ⟨x', hx', hchange⟩ := h.instance_cases hy
  rw [hx, Option.some.injEq] at hx'
  exact hx' ▸ hchange

/-- An elementary step keeps the instances. -/
theorem Advance.instance_next (hs : Shape m) (h : Advance ok g m m') (hx : m.instance? i p = some x)
    :
    ∃ y, m'.instance? i p = some y ∧ InstanceChange ok g m m' i p x y := by
  have hexists : HasInstance m'.toPhaseSchedule i p := by
    rw [h.schedule]
    exact (hs.exist i p).mp ⟨x, hx⟩
  obtain ⟨y, hy⟩ := ((hs.advance h).exist i p).mpr hexists
  exact ⟨y, hy, h.change hx hy⟩

/-- The state of an instance changes only while it is incomplete, its input has started and its
dependencies are complete. -/
theorem Advance.state_change (h : Advance ok g m m') {y : PhaseInstance}
    (hy : m'.instance? i p = some y) :
    ∃ x, m.instance? i p = some x ∧ (y.state = x.state ∨
      x.state ≠ .complete ∧ m.inputStart i ≠ -1 ∧
        ∀ phase, m.phases.get? p = some phase → DepsComplete m i p phase) := by
  obtain ⟨x, hx, hchange⟩ := h.instance_cases hy
  refine ⟨x, hx, ?_⟩
  cases hchange with
  | same hy => exact .inl (by rw [hy])
  | handled hstart hg hphase hstate hdeps hy hm' =>
    exact .inr ⟨hstate, hstart, fun phase' hphase' => depsComplete_of_met hphase' hdeps⟩
  | latency hnew hy => exact .inl (by rw [hy, updateLatency_state])
  | times hstart hphase hstate hdeps hy => exact .inl (by rw [hy, fillTimes_state])

/-- A complete instance stays complete. -/
theorem Advance.completeOrAbsent (h : Advance ok g m m') (hc : m.completeOrAbsent i p = true) :
    m'.completeOrAbsent i p = true := by
  rw [completeOrAbsent_eq_true] at *
  intro y hy
  obtain ⟨x, hx, hstate | ⟨hne, -⟩⟩ := h.state_change hy
  · exact hstate.trans (hc x hx)
  · exact absurd (hc x hx) hne

/-- The start time of an input changes only once, to the time `calculate_phase_timing` finds. -/
theorem Advance.inputStart_change (hs : Shape m) (h : Advance ok g m m') (i : ℕ) :
    m'.inputStart i = m.inputStart i ∨
      (0 < i ∧ m.inputStart i = -1 ∧ m.nextInputStart i = some (m'.inputStart i) ∧
        m'.phaseInstances = m.phaseInstances ∧
        m'.inputCompletionTimeUs = m.inputCompletionTimeUs) := by
  cases h with
  | phase => exact .inl (applyOutcome_inputStart ..)
  | latency => exact .inl rfl
  | times => exact .inl rfl
  | startInput hi hiN hunset hnext =>
    next i' t =>
    have hset : inputStart { m with inputStartTimeUs := m.inputStartTimeUs.set i' t } i =
        if i = i' then t else m.inputStart i := getD_set (hs.startLength ▸ hiN) ..
    rw [hset]
    by_cases hj : i = i'
    · subst hj
      rw [if_pos rfl]
      exact .inr ⟨hi, hunset, hnext, rfl, rfl⟩
    · rw [if_neg hj]
      exact .inl rfl
  | completeInput => exact .inl rfl
  | completeModel => exact .inl rfl
  | records => exact .inl rfl
  | coActive => exact .inl rfl

/-- A started input keeps its start time. -/
theorem Advance.inputStart_eq (hs : Shape m) (h : Advance ok g m m') {i : ℕ}
    (hi : m.inputStart i ≠ -1) : m'.inputStart i = m.inputStart i :=
  (h.inputStart_change hs i).resolve_right fun hr => hi hr.2.1

/-- Loaded weights stay loaded. -/
theorem Advance.weightsLoaded (h : Advance ok g m m') {l : ℕ}
    (hl : m.weightsLoaded.get? l = some true) : m'.weightsLoaded.get? l = some true := by
  cases h with
  | phase =>
    rw [weightsLoaded_applyOutcome]
    split
    · rfl
    · exact hl
  | latency => exact hl
  | times => exact hl
  | startInput => exact hl
  | completeInput => exact hl
  | completeModel => exact hl
  | records => exact hl
  | coActive => exact hl

/-- A weight phase that becomes complete has its layers loaded. -/
theorem Advance.weight_complete (h : Advance ok g m m') {i w : ℕ} {y : PhaseInstance}
    (hw : m.phases.get? w = some phase) (hweight : phase.isWeightLoading = true)
    (hy : m'.instance? i w = some y) (hyc : y.state = .complete)
    (hold : ∀ x, m.instance? i w = some x → x.state = .complete → ∀ l ∈ phase.layersToLoad,
      m.weightsLoaded.get? l = some true) :
    ∀ l ∈ phase.layersToLoad, m'.weightsLoaded.get? l = some true := by
  obtain ⟨x, hx, hchange⟩ := h.instance_cases hy
  have hkeep : x.state = .complete → ∀ l ∈ phase.layersToLoad,
      m'.weightsLoaded.get? l = some true := fun hxc l hl => h.weightsLoaded (hold x hx hxc l hl)
  cases hchange with
  | same hy => exact hkeep (hy ▸ hyc)
  | latency hnew hy => exact hkeep (by rw [← hyc, hy, updateLatency_state])
  | times hstart hphase hstate hdeps hy => exact hkeep (by rw [← hyc, hy, fillTimes_state])
  | handled hstart hg hphase hstate hdeps hy hm' =>
    intro l hl
    rw [hw, Option.some.injEq] at hphase
    subst hphase
    rw [hy] at hyc
    rcases handlePhase_complete_weight hstate hweight hyc with hdone | hall
    · rw [hm', weightsLoaded_applyOutcome, if_pos ⟨hdone, hl⟩]
    · -- all layers were loaded before
      apply h.weightsLoaded
      simp only [allWeightsLoaded, Bool.and_eq_true, List.all_eq_true] at hall
      have hl' := hall.2 l hl
      unfold Dict.getD at hl'
      cases hget : m.weightsLoaded.get? l with
      | none => rw [hget] at hl'; cases hl'
      | some b => rw [hget] at hl'; exact congrArg some hl'

/-! ## The invariant -/

/-- The order in which phases and inputs have been executed. -/
structure Consistent (m : MappedModel) : Prop extends Shape m where
  deps : ∀ i p phase x, m.phases.get? p = some phase → m.instance? i p = some x →
    x.state ≠ .notStarted → ∀ d ∈ phase.dependencies, m.completeOrAbsent i d = true
  previous : m.communicationMethod = .pipelined → ∀ i p x, m.instance? (i + 1) p = some x →
    x.state ≠ .notStarted → m.completeOrAbsent i p = true
  started : ∀ i p x, m.instance? i p = some x → x.state ≠ .notStarted → m.inputStart i ≠ -1
  sequential : m.communicationMethod = .nonPipelined → ∀ i, m.inputStart (i + 1) ≠ -1 →
    ∀ p, m.completeOrAbsent i p = true
  weights : ∀ i w phase x, m.phases.get? w = some phase → phase.isWeightLoading = true →
    m.instance? i w = some x → x.state = .complete →
    ∀ l ∈ phase.layersToLoad, m.weightsLoaded.get? l = some true

theorem Initial.consistent (h : Initial m) : Consistent m := by
  have hfresh : ∀ i p x, m.instance? i p = some x → x.state = .notStarted :=
    fun i p x hx => (h.instances.fresh i p x hx).state
  refine ⟨h.shape, ?_, ?_, ?_, ?_, ?_⟩
  · intro i p phase x _ hx hs
    exact absurd (hfresh i p x hx) hs
  · intro _ i p x hx hs
    exact absurd (hfresh (i + 1) p x hx) hs
  · intro i p x hx hs
    exact absurd (hfresh i p x hx) hs
  · intro _ i hi
    exact absurd (h.inputStart_pos (i + 1) (Nat.succ_pos i)) hi
  · intro i w phase x _ _ hx hs
    rw [hfresh i w x hx] at hs
    cases hs

theorem Shape.mem_order_of_instance (h : Shape m) (hx : m.instance? i p = some x) :
    p ∈ m.phaseExecutionOrder := by
  obtain ⟨-, phase, hp, -⟩ := (h.exist i p).mp ⟨x, hx⟩
  exact (h.wellFormed.mem_order p).mpr (Dict.mem_of_get? hp)

theorem Shape.allPhasesComplete_iff (h : Shape m) (i : ℕ) :
    m.allPhasesComplete i = true ↔ ∀ p, m.completeOrAbsent i p = true := by
  simp only [allPhasesComplete, existingInstances, List.all_eq_true, List.mem_filterMap,
    decide_eq_true_eq, completeOrAbsent_eq_true]
  constructor
  · intro hall p x hx
    exact hall x ⟨p, h.mem_order_of_instance hx, hx⟩
  · rintro hall x ⟨p, -, hx⟩
    exact hall p x hx

/-- **One step.** Every elementary step preserves the order of execution. -/
theorem Consistent.advance (h : Consistent m) (hadv : Advance ok g m m') : Consistent m' := by
  have hsched := hadv.schedule
  refine ⟨h.toShape.advance hadv, ?_, ?_, ?_, ?_, ?_⟩
  · intro i p phase y hp hy hs d hd
    rw [hsched] at hp
    apply hadv.completeOrAbsent
    obtain ⟨x, hx, hstate | ⟨-, -, hdeps⟩⟩ := hadv.state_change hy
    · exact h.deps i p phase x hp hx (hstate ▸ hs) d hd
    · exact (hdeps phase hp).deps d hd
  · intro hpipe i p y hy hs
    rw [hsched] at hpipe
    apply hadv.completeOrAbsent
    obtain ⟨x, hx, hstate | ⟨-, -, hdeps⟩⟩ := hadv.state_change hy
    · exact h.previous hpipe i p x hx (hstate ▸ hs)
    · obtain ⟨-, phase, hphase, -⟩ := (h.exist (i + 1) p).mp ⟨x, hx⟩
      exact (hdeps phase hphase).previous hpipe (Nat.succ_pos i)
  · intro i p y hy hs
    obtain ⟨x, hx, hstate | ⟨-, hstart, -⟩⟩ := hadv.state_change hy
    · have hold := h.started i p x hx (hstate ▸ hs)
      rw [hadv.inputStart_eq h.toShape hold]
      exact hold
    · rw [hadv.inputStart_eq h.toShape hstart]
      exact hstart
  · intro hseq i hi p
    rw [hsched] at hseq
    apply hadv.completeOrAbsent
    rcases hadv.inputStart_change h.toShape (i + 1) with heq | ⟨-, -, hnext, -⟩
    · exact h.sequential hseq i (heq ▸ hi) p
    · -- the input starts now: its predecessor was found complete
      unfold nextInputStart at hnext
      rw [hseq] at hnext
      dsimp only at hnext
      split at hnext
      · next hall => exact (h.toShape.allPhasesComplete_iff i).mp hall.1 p
      · cases hnext
  · intro i w phase y hp hweight hy hyc
    rw [hsched] at hp
    exact hadv.weight_complete hp hweight hy hyc fun x hx hxc =>
      h.weights i w phase x hp hweight hx hxc

theorem Run.consistent {m₀ m : MappedModel} {g₀ g : ℚ} (hinit : Initial m₀)
    (h : Run ok g₀ m₀ g m) : Consistent m :=
  h.invariant (P := fun _ m => Consistent m) hinit.consistent (fun _ _ _ _ h => h)
    fun _ _ _ hs hstep => hs.advance hstep

/-! ## Consequences -/

theorem skipsInstance_of_not_weight {s : PhaseSchedule} {i : ℕ}
    (h : phase.isWeightLoading = false) :
    skipsInstance s i phase = false := by
  rw [skipsInstance, h]
  rfl

theorem isWeightLoading_of_compute {l : ℕ} (h : phase.kind = .compute l) :
    phase.isWeightLoading = false := by
  rw [Phase.isWeightLoading, h]

/-- An input that has an instance of a phase has it for all earlier inputs as well. -/
theorem Shape.exists_previous (h : Shape m) (hx : m.instance? (i + 1) p = some x) :
    ∃ y, m.instance? i p = some y := by
  obtain ⟨hi, phase, hp, hskip⟩ := (h.exist (i + 1) p).mp ⟨x, hx⟩
  refine (h.exist i p).mpr ⟨by omega, phase, hp, ?_⟩
  unfold skipsInstance at *
  cases hw : phase.isWeightLoading && m.weightStationary with
  | false => rfl
  | true => rw [hw] at hskip; simp at hskip

/-- A phase that has started for an input is complete for the input before it. -/
theorem Consistent.previous_complete (h : Consistent m) (hx : m.instance? (i + 1) p = some x)
    (hs : x.state ≠ .notStarted) :
    ∃ y, m.instance? i p = some y ∧ y.state = .complete := by
  obtain ⟨y, hy⟩ := h.exists_previous hx
  refine ⟨y, hy, ?_⟩
  cases hmethod : m.communicationMethod with
  | pipelined => exact completeOrAbsent_eq_true.mp (h.previous hmethod i p x hx hs) y hy
  | nonPipelined =>
    have hstart := h.started (i + 1) p x hx hs
    exact completeOrAbsent_eq_true.mp (h.sequential hmethod i hstart p) y hy

theorem Consistent.earlier_complete (h : Consistent m) (k : ℕ)
    (hx : m.instance? (i + k + 1) p = some x) (hs : x.state ≠ .notStarted) :
    ∃ y, m.instance? i p = some y ∧ y.state = .complete := by
  induction k generalizing x with
  | zero => exact h.previous_complete hx hs
  | succ k ih =>
    obtain ⟨y, hy, hc⟩ := h.previous_complete hx hs
    exact ih hy (by rw [hc]; decide)

/-- Each phase runs for at most one input. -/
theorem Consistent.running_unique (h : Consistent m) {p i j : ℕ} {x y : PhaseInstance}
    (hx : m.instance? i p = some x) (hy : m.instance? j p = some y) (hxr : x.state = .running)
    (hyr : y.state = .running) : i = j := by
  have key : ∀ {i j : ℕ} {x y : PhaseInstance}, i < j → m.instance? i p = some x →
      m.instance? j p = some y → x.state = .running → y.state = .running → False := by
    intro i j x y hij hx hy hxr hyr
    obtain ⟨k, rfl⟩ : ∃ k, j = i + k + 1 := ⟨j - i - 1, by omega⟩
    obtain ⟨z, hz, hc⟩ := h.earlier_complete k hy (by rw [hyr]; decide)
    rw [hx, Option.some.injEq] at hz
    rw [← hz, hxr] at hc
    cases hc
  rcases lt_trichotomy i j with hlt | heq | hgt
  · exact (key hlt hx hy hxr hyr).elim
  · exact heq
  · exact (key hgt hy hx hyr hxr).elim

/-- The weights of a layer that has started to compute are loaded. -/
theorem Consistent.weights_loaded (h : Consistent m) {i p l : ℕ} (hp : m.phases.get? p = some phase)
    (hk : phase.kind = .compute l) (hx : m.instance? i p = some x) (hs : x.state ≠ .notStarted) :
    if m.weightStationary then m.weightsLoaded.get? l = some true
    else ∃ w y, m.layerToWeightCommPhase.get? l = some w ∧ m.instance? i w = some y ∧
      y.state = .complete := by
  obtain ⟨w, wphase, htab, hdep, hw, hweight, hl⟩ := h.wellFormed.weight_dep p phase l hp hk
  obtain ⟨hi, -⟩ := (h.exist i p).mp ⟨x, hx⟩
  -- the weight phase of the input, when it exists, is complete
  have hcomplete : ∀ {i : ℕ} {x : PhaseInstance}, m.instance? i p = some x →
      x.state ≠ .notStarted → skipsInstance m.toPhaseSchedule i wphase = false →
      ∃ y, m.instance? i w = some y ∧ y.state = .complete := by
    intro i x hx hs hskip
    obtain ⟨hi, -⟩ := (h.exist i p).mp ⟨x, hx⟩
    obtain ⟨y, hy⟩ := (h.exist i w).mpr ⟨hi, wphase, hw, hskip⟩
    exact ⟨y, hy, completeOrAbsent_eq_true.mp (h.deps i p phase x hp hx hs w hdep) y hy⟩
  by_cases hstat : m.weightStationary = true
  · rw [if_pos hstat]
    -- the phase has started for the first input, which loaded the weights
    have hfirst : ∃ z, m.instance? 0 p = some z ∧ z.state ≠ .notStarted := by
      cases i with
      | zero => exact ⟨x, hx, hs⟩
      | succ i =>
        obtain ⟨z, hz, hc⟩ := h.earlier_complete (i := 0) i (by rwa [Nat.zero_add]) hs
        exact ⟨z, hz, by rw [hc]; decide⟩
    obtain ⟨z, hz, hzs⟩ := hfirst
    have hskip : skipsInstance m.toPhaseSchedule 0 wphase = false := by simp [skipsInstance]
    obtain ⟨y, hy, hc⟩ := hcomplete hz hzs hskip
    exact h.weights 0 w wphase y hw hweight hy hc l hl
  · rw [if_neg hstat]
    have hskip : skipsInstance m.toPhaseSchedule i wphase = false := by simp [skipsInstance, hstat]
    obtain ⟨y, hy, hc⟩ := hcomplete hx hs hskip
    exact ⟨w, y, htab, hy, hc⟩

/-- **Dependencies over runs.** In every state a model reaches by ticks at non-decreasing times:
every phase that has started has its existing dependencies complete; a layer has started to
compute only with its weights loaded; a phase runs for at most one input; and no tick raises, in
particular not the configuration error of `_dependencies_met`. -/
theorem dependencies_of_reachable (a : Args) (strategy : WeightLoadingStrategy)
    (chunks : List (ℕ × ℕ × ℕ × ChunkResult)) (source : TrafficSource) (m₀ m : MappedModel) (g : ℚ)
    (hL : 0 < a.numLayers) (hN : 0 < a.numInputs)
    (hm₀ : prepare a strategy chunks source = .ok m₀) (hm : Reachable m₀ g m) :
    (∀ i p phase x, m.phases.get? p = some phase → m.instance? i p = some x →
      (x.state = .running ∨ x.state = .complete) →
      ∀ d ∈ phase.dependencies, ∀ y, m.instance? i d = some y → y.state = .complete) ∧
    (∀ i p l phase x, m.phases.get? p = some phase → phase.kind = .compute l →
      m.instance? i p = some x → (x.state = .running ∨ x.state = .complete) →
      if m.weightStationary then m.weightsLoaded.get? l = some true
      else ∃ w y, m.layerToWeightCommPhase.get? l = some w ∧ m.instance? i w = some y ∧
        y.state = .complete) ∧
    (∀ i j p x y, m.instance? i p = some x → m.instance? j p = some y →
      x.state = .running → y.state = .running → i = j) ∧
    (∀ i p message, m.dependenciesMet i p ≠ .error (.runtimeError message)) ∧
    (∀ g', (∃ r, m.getActivePhases g' = .ok r) ∧ ∃ r, m.calculatePhaseTiming g' = .ok r) := by
  have hinit := prepare_initial hL hm₀
  obtain ⟨g₀, hrun⟩ := hm
  have h := hrun.consistent hinit
  have hnum : 0 < m.numInputs := by
    rw [hrun.schedule, (prepare_builtFrom hm₀).numInputs_eq]
    exact hN
  have hstarted : ∀ {x : PhaseInstance}, x.state = .running ∨ x.state = .complete →
      x.state ≠ .notStarted := by
    rintro x (hx | hx) <;> rw [hx] <;> decide
  refine ⟨?_, ?_, ?_, ?_, ?_⟩
  · intro i p phase x hp hx hs d hd
    exact completeOrAbsent_eq_true.mp (h.deps i p phase x hp hx (hstarted hs) d hd)
  · intro i p l phase x hp hk hx hs
    exact h.weights_loaded hp hk hx (hstarted hs)
  · intro i j p x y hx hy hxr hyr
    exact h.running_unique hx hy hxr hyr
  · intro i p message herr
    by_cases hp : p ∈ m.phases
    · obtain ⟨phase, hphase⟩ := Dict.mem_iff.mp hp
      obtain ⟨b, hb, -⟩ := h.dependenciesMet i hphase
      rw [hb] at herr
      cases herr
    · unfold MappedModel.dependenciesMet getItem at herr
      rw [Dict.get?_eq_none_iff.mpr hp] at herr
      cases herr
  · intro g'
    exact ⟨h.getActivePhases g', h.calculatePhaseTiming hnum g'⟩

/-- In the two-layer model the first tick starts the loading of the weights of layer `0`. -/
theorem dependencies_of_twoLayers : ∃ m₀ r,
    prepare twoLayers .justInTime twoLayersChunks twoLayersTraffic = .ok m₀ ∧
    m₀.getActivePhases 0 = .ok r ∧ (r.1.instance? 0 3).map (·.state) = some .running ∧
    ∀ i p message, r.1.dependenciesMet i p ≠ .error (.runtimeError message) := by
  refine ⟨_, _, rfl, rfl, rfl, ?_⟩
  exact (dependencies_of_reachable twoLayers .justInTime twoLayersChunks twoLayersTraffic _ _ 0
    (by decide) (by decide) rfl
    ((Reachable.init _ 0).step .activePhases le_rfl trivial rfl)).2.2.2.1

end MappedModel

end ChipSim
