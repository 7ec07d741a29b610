import ChipSim.MappedModel.Initial

/-!
# Steps of a phase instance

Handling the current phase of an input is one of four moves of its instance (`PhaseMove`). In a
model of the right `Shape` the search for the current phase never raises.
-/

namespace ChipSim

open Lib

namespace MappedModel

/-! ## Reading back a write -/

section

variable (m : MappedModel) (i p : ℕ) (x : PhaseInstance)

theorem instance?_setInstance (j q : ℕ) :
    (m.setInstance i p x).instance? j q = if j = i ∧ q = p then some x else m.instance? j q :=
  Dict.get2?_set2 _ _ _ _ _ _

@[simp] theorem setInstance_weightsLoaded :
    (m.setInstance i p x).weightsLoaded = m.weightsLoaded := rfl

variable (phase : Phase) (o : PhaseOutcome)

theorem instance?_applyOutcome (j q : ℕ) :
    (m.applyOutcome i p phase o).instance? j q =
      if j = i ∧ q = p then some o.inst else m.instance? j q := by
  unfold applyOutcome
  cases o.weightsDone <;> exact instance?_setInstance m i p o.inst j q

@[simp] theorem applyOutcome_schedule :
    (m.applyOutcome i p phase o).toPhaseSchedule = m.toPhaseSchedule := by
  unfold applyOutcome
  cases o.weightsDone <;> rfl

@[simp] theorem applyOutcome_inputStartTimeUs :
    (m.applyOutcome i p phase o).inputStartTimeUs = m.inputStartTimeUs := by
  unfold applyOutcome
  cases o.weightsDone <;> rfl

@[simp] theorem applyOutcome_inputCompletionTimeUs :
    (m.applyOutcome i p phase o).inputCompletionTimeUs = m.inputCompletionTimeUs := by
  unfold applyOutcome
  cases o.weightsDone <;> rfl

@[simp] theorem applyOutcome_modelCompletionTimeUs :
    (m.applyOutcome i p phase o).modelCompletionTimeUs = m.modelCompletionTimeUs := by
  unfold applyOutcome
  cases o.weightsDone <;> rfl

@[simp] theorem applyOutcome_layerRecords :
    (m.applyOutcome i p phase o).layerRecords = m.layerRecords := by
  unfold applyOutcome
  cases o.weightsDone <;> rfl

@[simp] theorem applyOutcome_inputStart (j : ℕ) :
    (m.applyOutcome i p phase o).inputStart j = m.inputStart j := by
  unfold inputStart
  rw [applyOutcome_inputStartTimeUs]

@[simp] theorem applyOutcome_inputCompletion (j : ℕ) :
    (m.applyOutcome i p phase o).inputCompletion j = m.inputCompletion j := by
  unfold inputCompletion
  rw [applyOutcome_inputCompletionTimeUs]

theorem phaseInstances_applyOutcome :
    (m.applyOutcome i p phase o).phaseInstances = m.phaseInstances.set2 i p o.inst := by
  unfold applyOutcome
  cases o.weightsDone <;> rfl

theorem weightsLoaded_applyOutcome (l : ℕ) :
    (m.applyOutcome i p phase o).weightsLoaded.get? l =
      if o.weightsDone ∧ l ∈ phase.layersToLoad then some true else m.weightsLoaded.get? l := by
  unfold applyOutcome
  cases o.weightsDone with
  | false => simp
  | true =>
    show (phase.layersToLoad.foldl (fun d l => d.set l true) m.weightsLoaded).get? l = _
    rw [Dict.get?_foldl_set]
    simp

end

variable {m : MappedModel} {i p : ℕ} {phase : Phase}

/-! ## Steps of a phase instance -/

/-- What handling a phase can do to its instance, with `start` its calculated start time. -/
inductive PhaseMove (g start : ℚ) (x : PhaseInstance) (o : PhaseOutcome) : Prop
  | stay (state : o.inst.state = x.state) (start : o.inst.startTimeUs = x.startTimeUs)
      (completion : o.inst.completionTimeUs = x.completionTimeUs)
      (latency : o.inst.latencyUs = x.latencyUs) (done : o.weightsDone = false)
  | begin (was : x.state = .notStarted) (state : o.inst.state = .running)
      (start : o.inst.startTimeUs = start)
      (completion : o.inst.completionTimeUs = x.completionTimeUs)
      (latency : o.inst.latencyUs = x.latencyUs) (done : o.weightsDone = false)
  | finish (was : x.state = .running) (state : o.inst.state = .complete)
      (start : o.inst.startTimeUs = x.startTimeUs)
      (completion : o.inst.completionTimeUs = x.startTimeUs ∨
        o.inst.completionTimeUs = x.startTimeUs + x.latencyUs ∧
          x.startTimeUs + x.latencyUs ≤ g)
      (latency : o.inst.latencyUs = x.latencyUs ∨ o.inst.latencyUs = -1)
  | pass (was : x.state = .notStarted) (state : o.inst.state = .complete)
      (start : o.inst.startTimeUs = start ∨ o.inst.startTimeUs = g)
      (completion : o.inst.completionTimeUs = o.inst.startTimeUs)

/-- A step of a phase instance: a move that keeps the instance's identity. -/
structure PhaseStep (g start : ℚ) (x : PhaseInstance) (o : PhaseOutcome) : Prop where
  phaseId : o.inst.phaseId = x.phaseId
  inputIdx : o.inst.inputIdx = x.inputIdx
  move : PhaseMove g start x o

/-- Everything that handling a phase can do to its instance, with the outcome. -/
inductive PhaseHandling (m : MappedModel) (g start : ℚ) (phase : Phase) (x : PhaseInstance) :
    PhaseOutcome → Prop
  | computeBegins (hk : phase.isCompute = true) (hs : x.state = .notStarted) :
      PhaseHandling m g start phase x
        { inst := { x with state := .running, startTimeUs := start, isActive := true }
          active := true }
  | computeGoesOn (hk : phase.isCompute = true) (hs : x.state = .running)
      (he : g - x.startTimeUs < x.latencyUs) :
      PhaseHandling m g start phase x
        { inst := { x with
            percentComplete :=
              if 0 < x.latencyUs then (g - x.startTimeUs) / x.latencyUs else 0
            isActive := true }
          active := true }
  | computeEnds (hk : phase.isCompute = true) (hs : x.state = .running)
      (he : x.latencyUs ≤ g - x.startTimeUs) :
      PhaseHandling m g start phase x
        { inst := { x with
            state := .complete
            isActive := false
            completionTimeUs := x.startTimeUs + x.latencyUs } }
  | commBegins (hk : phase.isCompute = false) (hs : x.state = .notStarted) (hl : x.latencyUs = 0)
      (ht : hasNonzeroTraffic (getPhaseTraffic phase.traffic 1) = true) :
      PhaseHandling m g start phase x
        { inst := { x with
            scaledTraffic := some (getPhaseTraffic phase.traffic 1)
            state := .running
            startTimeUs := start
            isActive := true
            percentComplete := 0 }
          active := true }
  | commEmpty (hk : phase.isCompute = false) (hs : x.state = .notStarted) (hl : x.latencyUs = 0)
      (ht : ¬ hasNonzeroTraffic (getPhaseTraffic phase.traffic 1) = true) :
      PhaseHandling m g start phase x
        { inst := { x with
            scaledTraffic := some (getPhaseTraffic phase.traffic 1)
            state := .complete
            startTimeUs := start
            latencyUs := -1
            completionTimeUs := start
            isActive := false
            percentComplete := 1 }
          weightsDone := true }
  | commGoesOn (hk : phase.isCompute = false) (hs : x.state = .running) (hl : 0 < x.latencyUs)
      (he : g - x.startTimeUs < x.latencyUs) :
      PhaseHandling m g start phase x
        { inst := { x with
            percentComplete := min 1 ((g - x.startTimeUs) / x.latencyUs)
            scaledTraffic := some (getPhaseTraffic phase.traffic
              (1 - min 1 ((g - x.startTimeUs) / x.latencyUs))) }
          active := hasNonzeroTraffic (getPhaseTraffic phase.traffic
            (1 - min 1 ((g - x.startTimeUs) / x.latencyUs))) }
  | commEnds (hk : phase.isCompute = false) (hs : x.state = .running) (hl : 0 < x.latencyUs)
      (he : x.latencyUs ≤ g - x.startTimeUs) :
      PhaseHandling m g start phase x
        { inst := { x with
            state := .complete
            isActive := false
            completionTimeUs := x.startTimeUs + x.latencyUs }
          weightsDone := true }
  | commWaits (hk : phase.isCompute = false) (hs : x.state = .running) (hl : x.latencyUs ≤ 0)
      (ht : hasNonzeroTraffic (getPhaseTraffic phase.traffic 1) = true) :
      PhaseHandling m g start phase x
        { inst := { x with scaledTraffic := some (getPhaseTraffic phase.traffic 1) }
          active := true }
  | commDrops (hk : phase.isCompute = false) (hs : x.state = .running) (hl : x.latencyUs ≤ 0)
      (ht : ¬ hasNonzeroTraffic (getPhaseTraffic phase.traffic 1) = true) :
      PhaseHandling m g start phase x
        { inst := { x with
            scaledTraffic := some (getPhaseTraffic phase.traffic 1)
            state := .complete
            isActive := false
            completionTimeUs := x.startTimeUs
            latencyUs := -1
            percentComplete := 1 }
          weightsDone := true }
  | skipped (hw : phase.isWeightLoading = true)
      (hall : m.allWeightsLoaded phase.layersToLoad = true) (hs : x.state = .notStarted) :
      PhaseHandling m g start phase x
        { inst := { x with
            state := .complete
            latencyUs := 0
            startTimeUs := g
            completionTimeUs := g
            isActive := false } }
  | loaded (hw : phase.isWeightLoading = true)
      (hall : m.allWeightsLoaded phase.layersToLoad = true) (hs : x.state ≠ .notStarted) :
      PhaseHandling m g start phase x { inst := x }
  | timed (hk : phase.isCompute = false) (hs : x.state = .notStarted) (hl : x.latencyUs ≠ 0) :
      PhaseHandling m g start phase x { inst := x }
  | done (hs : x.state = .complete) : PhaseHandling m g start phase x { inst := x }

section Handling

variable {m : MappedModel} {g start : ℚ} {phase : Phase} {x : PhaseInstance}

theorem advanceCompute_handling (hk : phase.isCompute = true) :
    PhaseHandling m g start phase x (advanceCompute g start x) := by
  unfold advanceCompute
  split
  · next hs => exact .computeBegins hk hs
  · next hs =>
    dsimp only
    split
    · next he => exact .computeGoesOn hk hs he
    · next he => exact .computeEnds hk hs (not_lt.mp he)
  · next hs => exact .done hs

theorem advanceComm_handling (hk : phase.isCompute = false) :
    PhaseHandling m g start phase x (advanceComm g start phase.traffic x) := by
  unfold advanceComm
  split
  · next hnew =>
    unfold startComm
    dsimp only
    split
    · next ht => exact .commBegins hk hnew.2 hnew.1 ht
    · next ht => exact .commEmpty hk hnew.2 hnew.1 ht
  · next hnew =>
    split
    · next hs =>
      unfold continueComm
      split
      · next hl =>
        dsimp only
        split
        · next he => exact .commGoesOn hk hs hl he
        · next he => exact .commEnds hk hs hl (not_lt.mp he)
      · next hl =>
        dsimp only
        split
        · next ht => exact .commWaits hk hs (not_lt.mp hl) ht
        · next ht => exact .commDrops hk hs (not_lt.mp hl) ht
    · next hrun =>
      cases hs : x.state with
      | notStarted => exact .timed hk hs fun hl => hnew ⟨hl, hs⟩
      | running => exact absurd hs hrun
      | complete => exact .done hs

end Handling

/-- One of these is what handling does. -/
theorem handlePhase_handling (m : MappedModel) (g : ℚ) (i p : ℕ) (phase : Phase)
    (x : PhaseInstance) :
    PhaseHandling m g (m.calculatePhaseStartTime i p phase) phase x
      (m.handlePhase g i p phase x) := by
  unfold handlePhase
  cases hk : phase.kind with
  | compute l => exact advanceCompute_handling (by rw [Phase.isCompute, hk])
  | activationComm l t =>
    have ht : phase.traffic = t := by rw [Phase.traffic, hk]
    exact ht ▸ advanceComm_handling (by rw [Phase.isCompute, hk])
  | weightLoading ls t =>
    have ht : phase.traffic = t := by rw [Phase.traffic, hk]
    have hl : phase.layersToLoad = ls := by rw [Phase.layersToLoad, hk]
    have hw : phase.isWeightLoading = true := by rw [Phase.isWeightLoading, hk]
    dsimp only
    split
    · next hall =>
      unfold skipWeightLoading
      split
      · next hs => exact .skipped hw (hl ▸ hall) hs
      · next hs => exact .loaded hw (hl ▸ hall) hs
    · exact ht ▸ advanceComm_handling (by rw [Phase.isCompute, hk])

theorem isCompute_of_isWeightLoading (hw : phase.isWeightLoading = true) :
    phase.isCompute = false := by
  unfold Phase.isWeightLoading at hw
  unfold Phase.isCompute
  split at hw
  · next hk => rw [hk]
  · cases hw

/-- Handling a phase is one of four moves of its instance. -/
theorem handlePhase_step (m : MappedModel) (g : ℚ) (i p : ℕ) (phase : Phase) (x : PhaseInstance)
    (hx : x.state ≠ .complete) :
    PhaseStep g (m.calculatePhaseStartTime i p phase) x (m.handlePhase g i p phase x) := by
  have hh := handlePhase_handling m g i p phase x
  generalize m.handlePhase g i p phase x = o at hh ⊢
  cases hh with
  | computeBegins hk hs => exact ⟨rfl, rfl, .begin hs rfl rfl rfl rfl rfl⟩
  | computeGoesOn hk hs he => exact ⟨rfl, rfl, .stay rfl rfl rfl rfl rfl⟩
  | computeEnds hk hs he =>
    exact ⟨rfl, rfl, .finish hs rfl rfl (.inr ⟨rfl, by linarith⟩) (.inl rfl)⟩
  | commBegins hk hs hl ht => exact ⟨rfl, rfl, .begin hs rfl rfl rfl rfl rfl⟩
  | commEmpty hk hs hl ht => exact ⟨rfl, rfl, .pass hs rfl (.inl rfl) rfl⟩
  | commGoesOn hk hs hl he => exact ⟨rfl, rfl, .stay rfl rfl rfl rfl rfl⟩
  | commEnds hk hs hl he =>
    exact ⟨rfl, rfl, .finish hs rfl rfl (.inr ⟨rfl, by linarith⟩) (.inl rfl)⟩
  | commWaits hk hs hl ht => exact ⟨rfl, rfl, .stay rfl rfl rfl rfl rfl⟩
  | commDrops hk hs hl ht => exact ⟨rfl, rfl, .finish hs rfl rfl (.inl rfl) (.inr rfl)⟩
  | skipped hw hall hs => exact ⟨rfl, rfl, .pass hs rfl (.inr rfl) rfl⟩
  | loaded hw hall hs => exact ⟨rfl, rfl, .stay rfl rfl rfl rfl rfl⟩
  | timed hk hs hl => exact ⟨rfl, rfl, .stay rfl rfl rfl rfl rfl⟩
  | done hs => exact absurd hs hx

/-- A weight phase becomes complete only by loading its layers, or when all are loaded. -/
theorem handlePhase_complete_weight {g : ℚ} {x : PhaseInstance} (hx : x.state ≠ .complete)
    (hw : phase.isWeightLoading = true) (h : (m.handlePhase g i p phase x).inst.state = .complete) :
    (m.handlePhase g i p phase x).weightsDone = true ∨
      m.allWeightsLoaded phase.layersToLoad = true := by
  have hcomm : phase.isCompute = false := isCompute_of_isWeightLoading hw
  have hh := handlePhase_handling m g i p phase x
  generalize m.handlePhase g i p phase x = o at hh h ⊢
  cases hh with
  | computeBegins hk hs => cases h
  | computeGoesOn hk hs he => exact absurd h hx
  | computeEnds hk hs he => cases hk.symm.trans hcomm
  | commBegins hk hs hl ht => cases h
  | commEmpty hk hs hl ht => exact .inl rfl
  | commGoesOn hk hs hl he => exact absurd h hx
  | commEnds hk hs hl he => exact .inl rfl
  | commWaits hk hs hl ht => exact absurd h hx
  | commDrops hk hs hl ht => exact .inl rfl
  | skipped hw hall hs => exact .inr hall
  | loaded hw hall hs => exact .inr hall
  | timed hk hs hl => exact absurd h hx
  | done hs => exact absurd hs hx

/-! ## Dependencies -/

/-- What `_dependencies_met` checks before it validates the weights. -/
structure DepsComplete (m : MappedModel) (i p : ℕ) (phase : Phase) : Prop where
  deps : ∀ d ∈ phase.dependencies, m.completeOrAbsent i d = true
  previous : m.communicationMethod = .pipelined → 0 < i → m.completeOrAbsent (i - 1) p = true

theorem depsComplete_of_met (hp : m.phases.get? p = some phase)
    (h : m.dependenciesMet i p = .ok true) :
    DepsComplete m i p phase := by
  unfold dependenciesMet at h
  rw [getItem_eq_ok.mpr hp, ok_bind] at h
  split at h
  · cases h
  · next hdeps =>
    split at h
    · cases h
    · next hprev =>
      refine ⟨?_, fun hpipe hi => ?_⟩
      · simpa using hdeps
      · by_contra hnot
        exact hprev ⟨hpipe, hi, by simpa using hnot⟩

/-- The parts of a model that no tick changes: the schedule is well-formed and exactly the
expected instances exist. -/
structure Shape (m : MappedModel) : Prop where
  wellFormed : m.toPhaseSchedule.WellFormed
  exist : ∀ i p, (∃ x, m.instance? i p = some x) ↔ HasInstance m.toPhaseSchedule i p
  ids : ∀ i p x, m.instance? i p = some x → x.phaseId = p ∧ x.inputIdx = i
  inputs : ∀ i, i < m.numInputs ↔ i ∈ m.phaseInstances
  loaded : ∀ l < m.numLayers, l ∈ m.weightsLoaded
  startLength : m.inputStartTimeUs.length = m.numInputs
  completionLength : m.inputCompletionTimeUs.length = m.numInputs

theorem Initial.shape (h : Initial m) : Shape m where
  wellFormed := h.wellFormed
  exist := h.instances.exist
  ids i p x hx := ⟨(h.instances.fresh i p x hx).phaseId, (h.instances.fresh i p x hx).inputIdx⟩
  inputs := h.inputs
  loaded l hl := Dict.mem_iff.mpr ⟨false, by rw [h.weightsLoaded, if_pos hl]⟩
  startLength := h.inputStart_length
  completionLength := h.inputCompletion_length

/-- The weights of a compute phase are never found misconfigured: the phase depends on them. -/
theorem Shape.validateWeights (h : Shape m) {i p l : ℕ} (hp : m.phases.get? p = some phase)
    (hk : phase.kind = .compute l) :
    m.validateWeights i p phase l = .ok () := by
  obtain ⟨w, -, hw, hdep, -⟩ := h.wellFormed.weight_dep p phase l hp hk
  obtain ⟨b, hb⟩ := Dict.mem_iff.mp (h.loaded l (h.wellFormed.compute_layer p phase l hp hk).1)
  unfold MappedModel.validateWeights
  simp only [hw]
  have hloaded : ∃ b, m.weightsAlreadyLoaded l = .ok b := by
    unfold weightsAlreadyLoaded
    by_cases hs : m.weightStationary = true
    · rw [if_pos hs]
      exact ⟨b, getItem_eq_ok.mpr hb⟩
    · rw [if_neg hs]
      exact ⟨false, rfl⟩
  obtain ⟨b', hb'⟩ := hloaded
  rw [hb', ok_bind, if_pos hdep]
  split
  · rfl
  · split <;> rfl

/-- `_dependencies_met` never raises. -/
theorem Shape.dependenciesMet (h : Shape m) {p : ℕ} (i : ℕ) (hp : m.phases.get? p = some phase) :
    ∃ b, m.dependenciesMet i p = .ok b ∧ (DepsComplete m i p phase → b = true) := by
  unfold MappedModel.dependenciesMet
  rw [getItem_eq_ok.mpr hp, ok_bind]
  split
  · next hdeps =>
    refine ⟨false, rfl, fun hd => ?_⟩
    exact absurd (List.all_eq_true.mpr hd.deps) (by simpa using hdeps)
  · split
    · next hprev =>
      refine ⟨false, rfl, fun hd => ?_⟩
      exact absurd (hd.previous hprev.1 hprev.2.1) hprev.2.2
    · split
      · next l hk =>
        rw [h.validateWeights hp hk]
        exact ⟨true, rfl, fun _ => rfl⟩
      · exact ⟨true, rfl, fun _ => rfl⟩

theorem completeOrAbsent_eq_false (h : m.completeOrAbsent i p = false) :
    ∃ x, m.instance? i p = some x ∧ x.state ≠ .complete := by
  unfold completeOrAbsent at h
  cases hx : m.instance? i p with
  | none => rw [hx] at h; cases h
  | some x =>
    rw [hx] at h
    exact ⟨x, rfl, by simpa using h⟩

theorem completeOrAbsent_eq_true :
    m.completeOrAbsent i p = true ↔ ∀ x, m.instance? i p = some x → x.state = .complete := by
  unfold completeOrAbsent
  cases m.instance? i p <;> simp

/-- The phase `_find_current_phase` returns is incomplete and can run. -/
theorem findCurrentPhaseIn_some {ps : List ℕ} (h : m.findCurrentPhaseIn i ps = .ok (some p)) :
    p ∈ ps ∧ m.completeOrAbsent i p = false ∧ m.dependenciesMet i p = .ok true := by
  induction ps with
  | nil => cases h
  | cons q ps ih =>
    unfold findCurrentPhaseIn at h
    by_cases hc : m.completeOrAbsent i q = true
    · rw [if_pos hc] at h
      obtain ⟨hmem, hrest⟩ := ih h
      exact ⟨List.mem_cons_of_mem _ hmem, hrest⟩
    · rw [if_neg hc] at h
      obtain ⟨b, hb, h⟩ := bind_eq_ok.mp h
      cases b with
      | true =>
        simp only [if_true, pure_eq_ok, Except.ok.injEq, Option.some.injEq] at h
        subst h
        exact ⟨List.mem_cons_self, by simpa using hc, hb⟩
      | false =>
        obtain ⟨hmem, hrest⟩ := ih h
        exact ⟨List.mem_cons_of_mem _ hmem, hrest⟩

theorem findCurrentPhaseIn_none {i : ℕ} {ps : List ℕ} (h : m.findCurrentPhaseIn i ps = .ok none) :
    ∀ p ∈ ps, m.completeOrAbsent i p = true ∨ m.dependenciesMet i p = .ok false := by
  induction ps with
  | nil => simp
  | cons q ps ih =>
    unfold findCurrentPhaseIn at h
    by_cases hc : m.completeOrAbsent i q = true
    · rw [if_pos hc] at h
      intro p hp
      rcases List.mem_cons.mp hp with rfl | hp
      · exact .inl hc
      · exact ih h p hp
    · rw [if_neg hc] at h
      obtain ⟨b, hb, h⟩ := bind_eq_ok.mp h
      cases b with
      | true => simp at h
      | false =>
        intro p hp
        rcases List.mem_cons.mp hp with rfl | hp
        · exact .inr hb
        · exact ih h p hp

theorem Shape.findCurrentPhaseIn (h : Shape m) (i : ℕ) {ps : List ℕ}
    (hps : ∀ p ∈ ps, p ∈ m.phases) :
    ∃ r, m.findCurrentPhaseIn i ps = .ok r := by
  induction ps with
  | nil => exact ⟨none, rfl⟩
  | cons q ps ih =>
    unfold MappedModel.findCurrentPhaseIn
    have hrest := ih fun p hp => hps p (List.mem_cons_of_mem _ hp)
    by_cases hc : m.completeOrAbsent i q = true
    · rw [if_pos hc]
      exact hrest
    · rw [if_neg hc]
      obtain ⟨phase, hphase⟩ := Dict.mem_iff.mp (hps q List.mem_cons_self)
      obtain ⟨b, hb, -⟩ := h.dependenciesMet i hphase
      rw [hb, ok_bind]
      cases b with
      | true => exact ⟨some q, rfl⟩
      | false => exact hrest

theorem Shape.findCurrentPhase (h : Shape m) (i : ℕ) :
    ∃ r, m.findCurrentPhase i = .ok r :=
  h.findCurrentPhaseIn i fun p hp => (h.wellFormed.mem_order p).mp hp

end MappedModel

end ChipSim
