import ChipSim.MappedModel.ActivePhases
import ChipSim.MappedModel.StartTimes

/-!
# A model never gets stuck

When latencies are only recorded for running communications, and are positive, two things cannot
happen that would stop a model for good: a communication that has not started has no latency, and
the layers of a weight phase are not marked as loaded before it is complete. Then the first
unfinished input has started and has a phase that can run.
-/

namespace ChipSim

open Lib

namespace MappedModel

variable {m m' : MappedModel} {acc acc' : MappedModel × Bool} {g : ℚ} {i p : ℕ}

/-! ## The invariant -/

/-- Latencies are recorded for running communications only, and are positive. -/
def simulated : Guard
  | _, m, .updateLatency i p newLatency => 0 < newLatency ∧ m.RunningComm i p
  | _, _, _ => True

theorem nonNegative_of_simulated (g : ℚ) (m : MappedModel) (op : TickOp) (h : simulated g m op) :
    nonNegative g m op :=
  nonNegative_of_updates simulated (fun _ _ _ _ _ h => h.1.le) g m op h

/-- With stationary weights, the layers of a weight phase are not marked as loaded before it is
complete. -/
def LoadsOnce (m : MappedModel) : Prop :=
  m.weightStationary = true → ∀ i w phase x, m.phases.get? w = some phase →
    phase.isWeightLoading = true → m.instance? i w = some x → x.state ≠ .complete →
    ∀ l ∈ phase.layersToLoad, m.weightsLoaded.get? l ≠ some true

/-- So a weight phase that is not complete is not skipped. -/
theorem LoadsOnce.not_allWeightsLoaded (h : LoadsOnce m) (hwf : m.toPhaseSchedule.WellFormed)
    {i w : ℕ} {phase : Phase} {x : PhaseInstance} (hw : m.phases.get? w = some phase)
    (hweight : phase.isWeightLoading = true) (hx : m.instance? i w = some x)
    (hs : x.state ≠ .complete) :
    m.allWeightsLoaded phase.layersToLoad = false := by
  rw [Bool.eq_false_iff]
  intro hall
  unfold allWeightsLoaded at hall
  rw [Bool.and_eq_true, List.all_eq_true] at hall
  obtain ⟨l, hl⟩ := List.exists_mem_of_ne_nil _ (hwf.weight_layers w phase hw hweight).1
  refine h hall.1 i w phase x hw hweight hx hs l hl ?_
  have hloaded := hall.2 l hl
  unfold Dict.getD at hloaded
  cases hget : m.weightsLoaded.get? l with
  | none => rw [hget] at hloaded; cases hloaded
  | some b => rw [hget] at hloaded; exact congrArg some hloaded

theorem Initial.loadsOnce (h : Initial m) : LoadsOnce m := by
  intro _ _ _ _ _ _ _ _ _ l _ hl
  rw [h.weightsLoaded] at hl
  split at hl <;> cases hl

/-- A communication that has not started has no latency. -/
def WaitsUntimed (m : MappedModel) : Prop :=
  ∀ i p phase x, m.phases.get? p = some phase → phase.isCompute = false →
    m.instance? i p = some x → x.state = .notStarted → x.latencyUs = 0

theorem Initial.waitsUntimed (h : Initial m) : WaitsUntimed m :=
  fun i p phase x hp hcomm hx _ => (h.instances.fresh i p x hx).latency_comm phase hp hcomm

/-- A model that can go on: inputs start in the past, a communication that has not started has no
latency, and weights are loaded only by the phase that loads them. -/
structure Live (g : ℚ) (m : MappedModel) : Prop extends Timed g m where
  numInputs_pos : 0 < m.numInputs
  first : m.inputStart 0 ≠ -1
  inputTimes : ∀ i, m.inputStart i ≠ -1 → 0 ≤ m.inputStart i ∧ m.inputStart i ≤ g
  waiting : WaitsUntimed m
  loading : LoadsOnce m

theorem Initial.live (h : Initial m) (hN : 0 < m.numInputs) (h0 : 0 ≤ m.modelStartTimeUs)
    (hg : m.modelStartTimeUs ≤ g) : Live g m where
  toTimed := (Reachable.init m g).timed h
  numInputs_pos := hN
  first := by
    rw [h.inputStart_zero hN]
    linarith
  inputTimes i hi := by
    rcases Nat.eq_zero_or_pos i with rfl | hpos
    · rw [h.inputStart_zero hN]
      exact ⟨h0, hg⟩
    · exact absurd (h.inputStart_pos i hpos) hi
  waiting := h.waitsUntimed
  loading := h.loadsOnce

theorem Live.later {g g' : ℚ} (h : Live g m) (hg : g ≤ g') : Live g' m where
  toTimed := ⟨h.toPhaseTimes.later hg, h.inputDone, h.inputNext, h.modelDone⟩
  numInputs_pos := h.numInputs_pos
  first := h.first
  inputTimes i hi := ⟨(h.inputTimes i hi).1, (h.inputTimes i hi).2.trans hg⟩
  waiting := h.waiting
  loading := h.loading

theorem Live.nonNegTimes (h : Live g m) : NonNegTimes g m :=
  ⟨h.toTimed, fun i hi => (h.inputTimes i hi).1⟩

/-- The completion time of a complete instance is a time in the past. -/
theorem Live.completion (h : Live g m) {x : PhaseInstance} (hx : m.instance? i p = some x)
    (hc : x.state = .complete) :
    0 ≤ x.completionTimeUs ∧ x.completionTimeUs ≤ g :=
  ⟨h.nonNegTimes.completion hx hc, (h.complete i p x hx hc).2⟩

/-- An input starts at a time in the past. -/
theorem Live.nextInputStart_mem (h : Live g m) {i : ℕ} {t : ℚ} (ht : m.nextInputStart i = some t) :
    0 ≤ t ∧ t ≤ g := by
  obtain ⟨p, x, hx, hc, rfl⟩ := h.nextInputStart_attained ht
  exact h.completion hx hc

theorem handlePhase_weightsDone {phase : Phase} {x : PhaseInstance}
    (h : (m.handlePhase g i p phase x).weightsDone = true) :
    (m.handlePhase g i p phase x).inst.state = .complete := by
  have hh := handlePhase_handling m g i p phase x
  generalize m.handlePhase g i p phase x = o at hh h ⊢
  cases hh with
  | commEmpty hk hs hl ht => rfl
  | commEnds hk hs hl he => rfl
  | commDrops hk hs hl ht => rfl
  | _ => cases h

/-- Weights become loaded only by a phase that loads them and is then complete. -/
theorem Advance.weightsLoaded_new {ok : Guard} (h : Advance ok g m m') {l : ℕ}
    (hl : m'.weightsLoaded.get? l = some true) :
    m.weightsLoaded.get? l = some true ∨
      ∃ i w phase y, m.phases.get? w = some phase ∧ l ∈ phase.layersToLoad ∧
        m'.instance? i w = some y ∧ y.state = .complete := by
  cases h with
  | phase hstart hg hphase hx hstate hdeps =>
    next i w phase x =>
    rw [weightsLoaded_applyOutcome] at hl
    split at hl
    · next hdone =>
      refine .inr ⟨i, w, phase, _, hphase, hdone.2, ?_, handlePhase_weightsDone hdone.1⟩
      rw [instance?_applyOutcome, if_pos ⟨rfl, rfl⟩]
    · exact .inl hl
  | latency => exact .inl hl
  | times => exact .inl hl
  | startInput => exact .inl hl
  | completeInput => exact .inl hl
  | completeModel => exact .inl hl
  | records => exact .inl hl
  | coActive => exact .inl hl

/-- With stationary weights, a layer is loaded by one instance only. -/
theorem Shape.loader_unique (h : Shape m) (hstat : m.weightStationary = true) {i j w w' l : ℕ}
    {phase phase' : Phase} {x y : PhaseInstance} (hw : m.phases.get? w = some phase)
    (hweight : phase.isWeightLoading = true) (hl : l ∈ phase.layersToLoad)
    (hw' : m.phases.get? w' = some phase') (hl' : l ∈ phase'.layersToLoad)
    (hx : m.instance? i w = some x) (hy : m.instance? j w' = some y) : i = j ∧ w = w' := by
  have hweight' : phase'.isWeightLoading = true := by
    unfold Phase.layersToLoad at hl'
    unfold Phase.isWeightLoading
    cases hk : phase'.kind <;> rw [hk] at hl' <;> first | rfl | cases hl'
  have hww' : w = w' := Option.some.inj
    (((h.wellFormed.weight_layers w phase hw hweight).2 l hl).symm.trans
      ((h.wellFormed.weight_layers w' phase' hw' hweight').2 l hl'))
  have hzero : ∀ {i w phase x}, m.phases.get? w = some phase → phase.isWeightLoading = true →
      m.instance? i w = some x → i = 0 := by
    intro i w phase x hw hweight hx
    obtain ⟨-, phase', hw', hskip⟩ := (h.exist i w).mp ⟨x, hx⟩
    rw [hw, Option.some.injEq] at hw'
    rw [← hw', skipsInstance, hweight, hstat] at hskip
    simpa using hskip
  exact ⟨(hzero hw hweight hx).trans (hzero hw' hweight' hy).symm, hww'⟩

/-- An instance that is not complete after a step was not complete before. -/
theorem Advance.not_complete {ok : Guard} (h : Advance ok g m m') {y : PhaseInstance}
    (hy : m'.instance? i p = some y) (hs : y.state ≠ .complete) :
    ∃ x, m.instance? i p = some x ∧ x.state ≠ .complete := by
  obtain ⟨x, hx, hsame | hchange⟩ := h.state_change hy
  · exact ⟨x, hx, hsame ▸ hs⟩
  · exact ⟨x, hx, hchange.1⟩

theorem LoadsOnce.advance {ok : Guard} (h : LoadsOnce m) (hs : Shape m) (hadv : Advance ok g m m') :
    LoadsOnce m' := by
  intro hstat i w phase y hw hweight hy hys l hl hloaded
  have hsched := hadv.schedule
  obtain ⟨x, hx, hxs⟩ := hadv.not_complete hy hys
  rcases hadv.weightsLoaded_new hloaded with hold | ⟨j, w', phase', z, hw', hl', hz, hzc⟩
  · rw [hsched] at hstat hw
    exact h hstat i w phase x hw hweight hx hxs l hl hold
  · -- the instance that has loaded the layer is this one
    rw [← hsched] at hw'
    obtain ⟨rfl, rfl⟩ := (hs.advance hadv).loader_unique hstat hw hweight hl hw' hl' hy hz
    rw [hy, Option.some.injEq] at hz
    exact hys (hz ▸ hzc)

/-- When latencies are recorded for running communications only, those that have not started
have none. -/
theorem WaitsUntimed.advance {ok : Guard} (h : WaitsUntimed m)
    (hok : ∀ i p newLatency, ok g m (.updateLatency i p newLatency) → m.RunningComm i p)
    (hadv : Advance ok g m m') : WaitsUntimed m' := by
  intro i p phase y hp hcomm hy hs
  rw [hadv.schedule] at hp
  obtain ⟨x, hx, hchange⟩ := hadv.instance_cases hy
  have hold : x.state = .notStarted → x.latencyUs = 0 := h i p phase x hp hcomm hx
  cases hchange with
  | same hxy => rw [hxy]; exact hold (hxy ▸ hs)
  | handled hstart hg hphase hstate hdeps hxy hm' =>
    rw [hxy] at hs ⊢
    next phase' =>
    obtain ⟨-, -, hmove⟩ := handlePhase_step m g i p phase' x hstate
    cases hmove with
    | stay state start completion latency => rw [latency]; exact hold (state ▸ hs)
    | begin was state => rw [state] at hs; cases hs
    | finish was state => rw [state] at hs; cases hs
    | pass was state => rw [state] at hs; cases hs
  | latency hallowed hxy =>
    obtain ⟨phase', x', -, -, hx', hrunning⟩ := hok i p _ hallowed
    rw [hx, Option.some.injEq] at hx'
    rw [hxy, updateLatency_state, hx', hrunning] at hs
    cases hs
  | times hstart hphase hstate hdeps hxy =>
    rw [hxy, fillTimes_state] at hs
    rw [hxy, fillTimes_latency]
    exact hold hs

/-- **One step.** A model that can go on can go on after every step. -/
theorem Live.advance (h : Live g m) (hadv : Advance simulated g m m') :
    Live g m' := by
  have hsched := hadv.schedule
  have hrec := h.toRecorded.advance hadv
  have htimes := h.toPhaseTimes.advance (hadv.mono nonNegative_of_simulated)
  refine ⟨⟨htimes, hrec.inputDone, hrec.inputNext, hrec.modelDone⟩, ?_, ?_, ?_, ?_, ?_⟩
  · rw [hsched]
    exact h.numInputs_pos
  · rw [hadv.inputStart_eq h.toShape h.first]
    exact h.first
  · intro i hi
    rcases hadv.inputStart_change h.toShape i with heq | ⟨-, -, hnext, -, -⟩
    · rw [heq] at hi ⊢
      exact h.inputTimes i hi
    · exact h.nextInputStart_mem hnext
  · exact h.waiting.advance (fun _ _ _ hok => hok.2) hadv
  · exact h.loading.advance h.toShape hadv

theorem Live.run (h : Live g m) (hrun : Run simulated g m g m') :
    Live g m' := by
  have hlive := hrun.invariant (P := fun g' m => Live g' m) h (fun _ _ _ hg h => h.later hg)
    fun _ _ _ hs hstep => hs.advance hstep
  exact hlive

/-! ## The first unfinished input -/

/-- The first unfinished input has started. -/
structure FirstUnfinished (m : MappedModel) (i : ℕ) : Prop where
  lt : i < m.numInputs
  started : m.inputStart i ≠ -1
  before : ∀ j < i, m.allPhasesComplete j = true
  unfinished : m.allPhasesComplete i = false

/-- An input whose predecessors are complete has a phase that can run. -/
theorem Consistent.current_phase (h : Consistent m) {i : ℕ}
    (hbefore : ∀ j < i, m.allPhasesComplete j = true) (hunfinished : m.allPhasesComplete i = false)
    :
    ∃ p, m.findCurrentPhase i = .ok (some p) := by
  obtain ⟨r, hr⟩ := h.toShape.findCurrentPhase i
  cases r with
  | some p => exact ⟨p, hr⟩
  | none =>
    exfalso
    have hnone := findCurrentPhaseIn_none hr
    obtain ⟨rank, hrank⟩ := h.wellFormed.ranked
    -- by induction on the rank, every phase would be complete
    have hall : ∀ n p, p ∈ m.phaseExecutionOrder → rank p = n → m.completeOrAbsent i p = true := by
      intro n
      induction n using Nat.strong_induction_on with
      | _ n ih =>
        intro p hp hn
        refine (hnone p hp).resolve_right fun hmet => ?_
        obtain ⟨phase, hphase⟩ := Dict.mem_iff.mp ((h.wellFormed.mem_order p).mp hp)
        obtain ⟨b, hb, htrue⟩ := h.toShape.dependenciesMet i hphase
        have hdeps : DepsComplete m i p phase := by
          refine ⟨fun d hd => ?_, fun _ hi => ?_⟩
          · obtain ⟨hmem, hlt⟩ := hrank p phase hphase d hd
            exact ih (rank d) (hn ▸ hlt) d ((h.wellFormed.mem_order d).mpr hmem) rfl
          · exact (h.toShape.allPhasesComplete_iff (i - 1)).mp (hbefore (i - 1) (by omega)) p
        rw [hb, htrue hdeps] at hmet
        cases hmet
    have hcomplete : m.allPhasesComplete i = true := by
      rw [h.toShape.allPhasesComplete_iff]
      intro p
      by_cases hp : p ∈ m.phaseExecutionOrder
      · exact hall _ p hp rfl
      · rw [completeOrAbsent_eq_true]
        intro x hx
        exact absurd (h.toShape.mem_order_of_instance hx) hp
    rw [hcomplete] at hunfinished
    cases hunfinished

/-- A model of which no tick has been made yet is ready for its first input. -/
theorem Initial.firstUnfinished (h : Initial m) (hN : 0 < m.numInputs)
    (h0 : 0 ≤ m.modelStartTimeUs) :
    FirstUnfinished m 0 := by
  refine ⟨hN, ?_, fun j hj => absurd hj (Nat.not_lt_zero j), ?_⟩
  · rw [h.inputStart_zero hN]
    linarith
  · obtain ⟨p, x, -, hx⟩ := h.shape.exists_instance hN
    rw [Bool.eq_false_iff]
    intro hall
    have hc := completeOrAbsent_eq_true.mp ((h.shape.allPhasesComplete_iff 0).mp hall p) x hx
    rw [(h.instances.fresh 0 p x hx).state] at hc
    cases hc

/-- When an input is complete, the next one may start. -/
theorem Shape.nextInputStart (h : Shape m) {i : ℕ} (hi : i < m.numInputs)
    (hall : m.allPhasesComplete i = true) (hcompl : m.inputCompletion i ≠ -1) :
    ∃ t, m.nextInputStart (i + 1) = some t := by
  unfold MappedModel.nextInputStart
  rw [Nat.add_sub_cancel]
  cases m.communicationMethod with
  | nonPipelined => exact ⟨_, if_pos ⟨hall, hcompl⟩⟩
  | pipelined =>
    have hcomplete := (h.allPhasesComplete_iff i).mp hall
    obtain ⟨c, phase, htab, hc, hk⟩ := h.wellFormed.compute_phase 0 h.wellFormed.pos
    have hskip := skipsInstance_of_not_weight (s := m.toPhaseSchedule) (i := i)
      (isWeightLoading_of_compute hk)
    obtain ⟨x, hx⟩ := (h.exist i c).mpr ⟨hi, phase, hc, hskip⟩
    have hxc := completeOrAbsent_eq_true.mp (hcomplete c) x hx
    have hlayer : (m.layerCompletion i 0).isSome = true := by
      unfold layerCompletion
      rw [htab]
      dsimp only [Option.bind_eq_bind, Option.bind_some]
      rw [hx, Option.bind_some]
      cases ha : m.layerToActivationCommPhase.get? 0 with
      | none => simp [hxc]
      | some a =>
        obtain ⟨aphase, hap, hw⟩ := h.wellFormed.activation 0 a ha
        obtain ⟨y, hy⟩ := (h.exist i a).mpr
          ⟨hi, aphase, hap, skipsInstance_of_not_weight hw⟩
        have hyc := completeOrAbsent_eq_true.mp (hcomplete a) y hy
        simp [hy, hxc, hyc]
    have hmem : 0 ∈ m.layerToComputePhase.keys.insertionSort (· ≤ ·) :=
      (List.mem_insertionSort _).mpr (Dict.mem_of_get? htab)
    refine Option.isSome_iff_exists.mp ?_
    unfold firstLayerCompletion
    rw [List.findSome?_isSome_iff]
    exact ⟨0, hmem, hlayer⟩

/-! ## After `calculate_phase_timing` -/

/-- The same instances in the same states, with the same latencies. -/
def SameProgress (m m' : MappedModel) : Prop :=
  ∀ i p, (m'.instance? i p).map (fun x => (x.state, x.latencyUs)) =
    (m.instance? i p).map fun x => (x.state, x.latencyUs)

theorem SameProgress.refl (m : MappedModel) : SameProgress m m := fun _ _ => rfl

theorem SameProgress.trans {m m' m'' : MappedModel} (h : SameProgress m m')
    (h' : SameProgress m' m'') : SameProgress m m'' := fun i p => (h' i p).trans (h i p)

theorem SameProgress.completeOrAbsent (h : SameProgress m m') (i p : ℕ) :
    m'.completeOrAbsent i p = m.completeOrAbsent i p := by
  have hip := h i p
  unfold MappedModel.completeOrAbsent
  cases hy : m'.instance? i p with
  | none =>
    cases hx : m.instance? i p with
    | none => rfl
    | some x => rw [hx, hy] at hip; cases hip
  | some y =>
    cases hx : m.instance? i p with
    | none => rw [hx, hy] at hip; cases hip
    | some x =>
      rw [hx, hy, Option.map_some, Option.map_some, Option.some.injEq, Prod.mk.injEq] at hip
      dsimp only
      rw [hip.1]

theorem timePhase_same (h : timePhase i acc p = .ok acc') : SameProgress acc.1 acc'.1 := by
  rcases timePhase_cases h with ⟨rfl, -⟩ | ⟨phase, x, -, hx, -, -, hacc'⟩
  · exact .refl _
  · intro j q
    rw [hacc', instance?_setInstance]
    by_cases hjq : j = i ∧ q = p
    · rw [if_pos hjq, hjq.1, hjq.2, hx]
      simp [fillTimes_state, fillTimes_latency]
    · rw [if_neg hjq]

theorem startInput_same (acc : MappedModel × Bool) (i : ℕ) :
    SameProgress acc.1 (startInput acc i).1 := by
  unfold MappedModel.startInput
  dsimp only
  split
  · split <;> exact .refl _
  · exact .refl _

theorem completeInput_instances {i : ℕ} (h : completeInput acc i = .ok acc') (j p : ℕ) :
    acc'.1.instance? j p = acc.1.instance? j p := by
  unfold MappedModel.completeInput at h
  dsimp only at h
  split at h
  · obtain ⟨t, -, h⟩ := bind_eq_ok.mp h
    cases h
    rfl
  · cases h; rfl

theorem completeInput_same {i : ℕ} (h : completeInput acc i = .ok acc') :
    SameProgress acc.1 acc'.1 := fun j p => by
  rw [completeInput_instances h]

theorem timeInput_same {i : ℕ} (h : timeInput acc i = .ok acc') : SameProgress acc.1 acc'.1 := by
  unfold timeInput at h
  dsimp only at h
  split at h
  · cases h; exact startInput_same acc i
  · obtain ⟨acc₁, h₁, h⟩ := bind_eq_ok.mp h
    have hphases := foldlM_invariant
      (fun s : MappedModel × Bool => SameProgress acc.1 s.1) h₁ (startInput_same acc i)
      fun _ _ _ _ hs hstep => hs.trans (timePhase_same hstep)
    exact hphases.trans (completeInput_same h)

theorem completeModel_same (h : completeModel acc = .ok acc') : SameProgress acc.1 acc'.1 := by
  unfold MappedModel.completeModel at h
  dsimp only at h
  split at h
  · obtain ⟨t, -, h⟩ := bind_eq_ok.mp h
    split at h <;> cases h <;> exact .refl _
  · cases h; exact .refl _

theorem Live.advances (h : Live g m) (hadv : Advances simulated g m m') : Live g m' :=
  chain_invariant hadv h fun _ _ hs hstep => hs.advance hstep

theorem Advances.inputStart_set {ok : Guard} (hs : Shape m) (h : Advances ok g m m') {i : ℕ}
    (hi : m.inputStart i ≠ -1) : m'.inputStart i ≠ -1 :=
  (chain_invariant (P := fun m => Shape m ∧ m.inputStart i ≠ -1) h ⟨hs, hi⟩
    fun _ _ ih hstep => ⟨ih.1.advance hstep, by rw [hstep.inputStart_eq ih.1 ih.2]; exact ih.2⟩).2

theorem Advances.inputCompletion_set {ok : Guard} (hs : Shape m) (h : Advances ok g m m') {i : ℕ}
    (hi : m.inputCompletion i ≠ -1) :
    m'.inputCompletion i ≠ -1 := by
  refine (chain_invariant (P := fun m => Shape m ∧ m.inputCompletion i ≠ -1) h ⟨hs, hi⟩ ?_).2
  intro m m' ih hstep
  refine ⟨ih.1.advance hstep, ?_⟩
  rw [(hstep.inputCompletion_change ih.1 i).resolve_right fun hr => ih.2 hr.1]
  exact ih.2

theorem SameProgress.allPhasesComplete (h : SameProgress m m') (hs : Shape m) (hs' : Shape m')
    (i : ℕ) : m'.allPhasesComplete i = m.allPhasesComplete i := by
  rw [Bool.eq_iff_iff, hs.allPhasesComplete_iff, hs'.allPhasesComplete_iff]
  simp only [h.completeOrAbsent]

/-- The first inputs have been taken care of: one whose predecessors are complete has started, and
if it is complete itself, its completion is recorded. -/
def Settled (n : ℕ) (m : MappedModel) : Prop :=
  ∀ i < n, (∀ j < i, m.allPhasesComplete j = true) →
    m.inputStart i ≠ -1 ∧ (m.allPhasesComplete i = true → m.inputCompletion i ≠ -1)

theorem Settled.advances {ok : Guard} {n : ℕ} (h : Settled n m) (hs : Shape m)
    (hadv : Advances ok g m m') (hsame : SameProgress m m') : Settled n m' := by
  have hcomplete := hsame.allPhasesComplete hs (hs.advances hadv)
  intro i hi hbefore
  simp only [hcomplete] at hbefore ⊢
  obtain ⟨hstart, hdone⟩ := h i hi hbefore
  exact ⟨hadv.inputStart_set hs hstart, fun hc => hadv.inputCompletion_set hs (hdone hc)⟩

/-- The next input starts when its predecessors are complete. -/
theorem Live.startInput_set {n : ℕ} {acc : MappedModel × Bool} (h : Live g acc.1)
    (hn : n < acc.1.numInputs) (hsettled : Settled n acc.1)
    (hbefore : ∀ j < n, acc.1.allPhasesComplete j = true) :
    (startInput acc n).1.inputStart n ≠ -1 := by
  by_cases hset : acc.1.inputStart n = -1
  · cases n with
    | zero => exact absurd hset h.first
    | succ k =>
      have hk := (hsettled k (Nat.lt_succ_self k) fun j hj => hbefore j (by omega)).2
        (hbefore k (Nat.lt_succ_self k))
      obtain ⟨t, ht⟩ := h.toShape.nextInputStart (by omega) (hbefore k (Nat.lt_succ_self k)) hk
      have hval : (startInput acc (k + 1)).1.inputStart (k + 1) = t := by
        unfold MappedModel.startInput
        dsimp only
        rw [if_pos ⟨Nat.succ_pos k, hset⟩, ht]
        exact (getD_set (h.startLength ▸ hn) ..).trans (if_pos rfl)
      rw [hval]
      have := (h.nextInputStart_mem ht).1
      linarith
  · have hadv : Advances simulated g acc.1 (startInput acc n).1 := startInput_advances hn
    exact hadv.inputStart_set h.toShape hset

/-- One pass of the loop settles one more input. -/
theorem Settled.timeInput {n : ℕ} (h : Live g acc.1) (hn : n < acc.1.numInputs)
    (hsettled : Settled n acc.1) (hacc' : timeInput acc n = .ok acc') :
    Settled (n + 1) acc'.1 := by
  have hadv : Advances simulated g acc.1 acc'.1 := timeInput_advances hn hacc'
  have hsame := timeInput_same hacc'
  have hcomplete := hsame.allPhasesComplete h.toShape (h.advances hadv).toShape
  intro i hi hbefore
  rcases Nat.lt_succ_iff_lt_or_eq.mp hi with hi | rfl
  · exact hsettled.advances h.toShape hadv hsame i hi hbefore
  · simp only [hcomplete] at hbefore
    have hstart := h.startInput_set hn hsettled hbefore
    have hadv₀ : Advances simulated g acc.1 (startInput acc i).1 := startInput_advances hn
    unfold MappedModel.timeInput at hacc'
    dsimp only at hacc'
    rw [if_neg hstart] at hacc'
    obtain ⟨acc₁, hacc₁, hlast⟩ := bind_eq_ok.mp hacc'
    have hadv₁ : Advances simulated g (startInput acc i).1 acc₁.1 :=
      timePhases_advances hstart hacc₁
    have hlive₁ := (h.advances hadv₀).advances hadv₁
    have hn₁ : i < acc₁.1.numInputs := by
      rw [hadv₁.schedule, hadv₀.schedule]
      exact hn
    have hadv₂ : Advances simulated g acc₁.1 acc'.1 := completeInput_advances hn₁ hlast
    have hstart₁ := hadv₁.inputStart_set (h.advances hadv₀).toShape hstart
    refine ⟨hadv₂.inputStart_set hlive₁.toShape hstart₁, fun hall => ?_⟩
    have hsame₂ := completeInput_same hlast
    rw [hsame₂.allPhasesComplete hlive₁.toShape (hlive₁.advances hadv₂).toShape] at hall
    exact hlive₁.nonNegTimes.completeInput hn₁ hall hlast

theorem Live.timeInputs (h : Live g m) {n : ℕ} (hn : n ≤ m.numInputs) {acc : MappedModel × Bool}
    (hacc : (List.range n).foldlM timeInput (m, false) = .ok acc) :
    Live g acc.1 ∧ acc.1.numInputs = m.numInputs ∧ Settled n acc.1 := by
  refine foldlM_range_invariant (fun k (acc : MappedModel × Bool) =>
    Live g acc.1 ∧ acc.1.numInputs = m.numInputs ∧ Settled k acc.1) hacc
    ⟨h, rfl, fun i hi => absurd hi (Nat.not_lt_zero i)⟩ ?_
  rintro k hk acc₁ acc₂ ⟨hlive, hnum, hsettled⟩ hstep
  have hk' : k < acc₁.1.numInputs := by omega
  have hadv : Advances simulated g acc₁.1 acc₂.1 := timeInput_advances hk' hstep
  refine ⟨hlive.advances hadv, ?_, hsettled.timeInput hlive hk' hstep⟩
  rw [hadv.schedule, hnum]

/-- A model all of whose inputs are complete has its completion recorded. -/
theorem Live.completeModel_set (h : Live g acc.1)
    (hall : ∀ i < acc.1.numInputs, acc.1.inputCompletion i ≠ -1)
    (hacc' : completeModel acc = .ok acc') : acc'.1.modelCompletionTimeUs ≠ -1 := by
  have hset : ∀ c ∈ acc.1.inputCompletionTimeUs, c ≠ -1 := by
    intro c hc
    obtain ⟨i, hi, rfl⟩ := (mem_inputCompletion h.toShape).mp hc
    exact hall i hi
  unfold MappedModel.completeModel at hacc'
  dsimp only at hacc'
  rw [if_pos (by simpa using hset)] at hacc'
  obtain ⟨last, hlast, hacc'⟩ := bind_eq_ok.mp hacc'
  have hne := hset last (maxOf_spec hlast).1
  split at hacc'
  · cases hacc'
    exact hne
  · next heq =>
    cases hacc'
    rw [not_not.mp heq]
    exact hne

/-- **Settled.** After `calculate_phase_timing`, a model that is not complete at the current time
has a first unfinished input, and that input has started. -/
theorem Live.firstUnfinished {updated : Bool} (h : Live g m)
    (htime : m.calculatePhaseTiming g = .ok (m', updated)) (hrunning : m'.isComplete g = false) :
    ∃ i, FirstUnfinished m' i := by
  have hadv : Advances simulated g m m' := calculatePhaseTiming_advances htime
  have hlive := h.advances hadv
  have hnum : m'.numInputs = m.numInputs := by rw [hadv.schedule]
  unfold calculatePhaseTiming at htime
  obtain ⟨acc, hacc, hlast⟩ := bind_eq_ok.mp htime
  obtain ⟨hlive₁, hnum₁, hsettled₁⟩ := h.timeInputs le_rfl hacc
  have hadv₁ : Advances simulated g acc.1 m' := completeModel_advances hlast
  have hsame₁ := completeModel_same hlast
  have hsettled := hsettled₁.advances hlive₁.toShape hadv₁ hsame₁
  by_cases hall : ∀ i < m'.numInputs, m'.allPhasesComplete i = true
  · -- all inputs are complete, hence the model is
    exfalso
    have hcompl : ∀ i < acc.1.numInputs, acc.1.inputCompletion i ≠ -1 := by
      intro i hi
      have hcomplete := hsame₁.allPhasesComplete hlive₁.toShape hlive.toShape
      simp only [hcomplete] at hall
      exact (hsettled₁ i (by omega) fun j hj => hall j (by omega)).2 (hall i (by omega))
    have hset : m'.modelCompletionTimeUs ≠ -1 := hlive₁.completeModel_set hcompl hlast
    obtain ⟨hstates, i, p, x, hx, hval⟩ := hlive.toRecorded.model_complete hset
    have hle := (hlive.completion hx (hstates i p x hx).1).2
    unfold isComplete at hrunning
    rw [if_neg hset, ← hval] at hrunning
    exact of_decide_eq_false hrunning hle
  · simp only [not_forall] at hall
    have hex : ∃ i, i < m'.numInputs ∧ ¬ m'.allPhasesComplete i = true := by
      obtain ⟨i, hi, hne⟩ := hall
      exact ⟨i, hi, hne⟩
    classical
    obtain ⟨hlt, hne⟩ := Nat.find_spec hex
    have hbefore : ∀ j < Nat.find hex, m'.allPhasesComplete j = true := by
      intro j hj
      by_contra hnot
      exact Nat.find_min hex hj ⟨by omega, hnot⟩
    exact ⟨Nat.find hex, hlt, (hsettled _ (by omega) hbefore).1, hbefore, by simpa using hne⟩

end MappedModel

end ChipSim
