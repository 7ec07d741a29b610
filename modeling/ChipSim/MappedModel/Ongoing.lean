import ChipSim.MappedModel.ActivePhases
import ChipSim.MappedModel.RemainingTraffic

/-!
# Communications that go on

The latency of a communication counts from its start, which may lie before the tick that notices
it. So a communication simulated at time `g` may be over before `g`. It is not when its first
latency reaches to the time it is recorded at; later latencies only add to the time that has passed.
-/

namespace ChipSim

open Lib

namespace MappedModel

/-! ## One instance -/

/-- A communication that was going on at time `g₀`: it had started by then and does not end
before. -/
structure GoingOn (g₀ : ℚ) (x : PhaseInstance) : Prop where
  started : x.state ≠ .notStarted
  start : x.startTimeUs ≤ g₀
  running : x.state = .running → x.latencyUs ≠ 0 → g₀ ≤ x.startTimeUs + x.latencyUs
  complete : x.state = .complete → g₀ ≤ x.completionTimeUs

section

variable {g₀ g start : ℚ} {x : PhaseInstance} {traffic : Option TrafficMatrixDict}

theorem getPhaseTraffic_one (traffic : Option TrafficMatrixDict) :
    getPhaseTraffic traffic 1 = traffic.getD .empty := by
  cases traffic with
  | none => rfl
  | some t =>
    unfold getPhaseTraffic
    exact if_pos le_rfl

/-- Handling a communication that has something to send does not end it early. -/
theorem GoingOn.handlePhase (h : GoingOn g₀ x) {phase : Phase}
    (hcomm : phase.isCompute = false)
    (ht : hasNonzeroTraffic (phase.traffic.getD .empty) = true) (m : MappedModel) (i p : ℕ) :
    GoingOn g₀ (m.handlePhase g i p phase x).inst := by
  have hh := MappedModel.handlePhase_handling m g i p phase x
  generalize m.handlePhase g i p phase x = o at hh ⊢
  rw [← getPhaseTraffic_one] at ht
  cases hh with
  | computeBegins hk hs => exact absurd hs h.started
  | computeGoesOn hk hs he => exact ⟨h.started, h.start, h.running, h.complete⟩
  | computeEnds hk hs he => cases hk.symm.trans hcomm
  | commBegins hk hs hl ht => exact absurd hs h.started
  | commEmpty hk hs hl ht => exact absurd hs h.started
  | commGoesOn hk hs hl he => exact ⟨h.started, h.start, h.running, h.complete⟩
  | commEnds hk hs hl he => exact ⟨by simp, h.start, by simp, fun _ => h.running hs hl.ne'⟩
  | commWaits hk hs hl ht => exact ⟨h.started, h.start, h.running, h.complete⟩
  | commDrops hk hs hl hnone => exact absurd ht hnone
  | skipped hw hall hs => exact absurd hs h.started
  | loaded hw hall hs => exact h
  | timed hk hs hl => exact h
  | done hs => exact h

/-- A first latency has to reach to the current time; a later one adds to the time passed. -/
theorem GoingOn.updateLatency (h : GoingOn g₀ x) (hg : g₀ ≤ g) {newLatency : ℚ}
    (hnew : 0 ≤ newLatency)
    (hfirst : x.state = .running → x.latencyUs = 0 → g ≤ x.startTimeUs + newLatency) :
    GoingOn g₀ (x.updateLatency newLatency g) := by
  unfold PhaseInstance.updateLatency
  dsimp only
  split
  · next hzero => exact ⟨h.started, h.start, fun hs _ => hg.trans (hfirst hs hzero), h.complete⟩
  · split
    · refine ⟨h.started, h.start, fun _ _ => ?_, h.complete⟩
      show g₀ ≤ x.startTimeUs + (g - x.startTimeUs + newLatency)
      linarith
    · exact ⟨h.started, h.start, h.running, h.complete⟩

theorem GoingOn.fillTimes (h : GoingOn g₀ x) (hx : x.state = .running)
    (hstart : x.startTimeUs = start) : GoingOn g₀ (x.fillTimes start).1 := by
  have hsame : (x.fillTimes start).1.startTimeUs = x.startTimeUs := by
    rcases fillTimes_start x start with hf | hf <;> rw [hf]
    exact hstart.symm
  refine ⟨?_, ?_, ?_, ?_⟩
  · rw [fillTimes_state]
    exact h.started
  · rw [hsame]
    exact h.start
  · rw [fillTimes_state, fillTimes_latency, hsame]
    exact h.running
  · rw [fillTimes_state, hx]
    exact fun hc => by cases hc

end

variable {m m' : MappedModel} {g : ℚ} {i p : ℕ}

/-! ## Runs -/

/-- The first latency of a running communication reaches to the time it is recorded at. -/
def reachesNow : Guard
  | g, m, .updateLatency i p newLatency => 0 ≤ newLatency ∧
      ∀ phase x, m.phases.get? p = some phase → phase.isCompute = false →
        m.instance? i p = some x → x.state = .running → x.latencyUs = 0 →
        g ≤ x.startTimeUs + newLatency
  | _, _, _ => True

instance (g : ℚ) (m : MappedModel) (op : TickOp) : Decidable (reachesNow g m op) :=
  match op with
  | .updateLatency i p newLatency =>
    decidable_of_iff (0 ≤ newLatency ∧ ∀ phase ∈ m.phases.get? p, phase.isCompute = false →
        ∀ x ∈ m.instance? i p, x.state = .running → x.latencyUs = 0 →
        g ≤ x.startTimeUs + newLatency)
      ⟨fun h => ⟨h.1, fun phase x hphase hcomm hx => h.2 phase hphase hcomm x hx⟩,
        fun h => ⟨h.1, fun phase hphase hcomm x hx => h.2 phase x hphase hcomm hx⟩⟩
  | .activePhases => .isTrue trivial
  | .phaseTiming => .isTrue trivial
  | .syncLayers => .isTrue trivial
  | .coActiveTraffic _ _ => .isTrue trivial

theorem nonNegative_of_reachesNow (g : ℚ) (m : MappedModel) (op : TickOp)
    (h : reachesNow g m op) : nonNegative g m op :=
  nonNegative_of_updates reachesNow (fun _ _ _ _ _ h => h.1) g m op h

/-- Communication `p` of input `i` has something to send and was going on at time `g₀`. -/
structure Outlasts (g₀ : ℚ) (i p : ℕ) (m : MappedModel) : Prop where
  comm : ∃ phase, m.phases.get? p = some phase ∧ phase.isCompute = false ∧
    hasNonzeroTraffic (phase.traffic.getD .empty) = true
  going : ∃ x, m.instance? i p = some x ∧ GoingOn g₀ x

theorem FixedStarts.later {g g' : ℚ} (hg : g ≤ g') (h : FixedStarts g m) :
    FixedStarts g' m :=
  ⟨h.toPhaseTimes.later hg, h.fixed⟩

theorem Initial.fixedStarts (h : Initial m) (g : ℚ) : FixedStarts g m := by
  refine ⟨h.phaseTimes g, fun i p phase x _ hx hs => ?_⟩
  rw [(h.instances.fresh i p x hx).state] at hs
  cases hs

section

variable {g₀ g g' : ℚ} {i p : ℕ} {m m' : MappedModel}

/-- **One step.** What was going on at an earlier time does not end before it. -/
theorem Outlasts.advance (h : Outlasts g₀ i p m) (hfixed : FixedStarts g m) (hg : g₀ ≤ g)
    (hadv : Advance reachesNow g m m') : Outlasts g₀ i p m' := by
  obtain ⟨⟨phase, hphase, hcomm, ht⟩, x, hx, hgoing⟩ := h
  refine ⟨⟨phase, by rw [hadv.schedule]; exact hphase, hcomm, ht⟩, ?_⟩
  obtain ⟨y, hy, hchange⟩ := hadv.instance_next hfixed.toShape hx
  refine ⟨y, hy, ?_⟩
  have hrunning : x.state ≠ .complete → x.state = .running := fun hstate => by
    cases hs : x.state with
    | notStarted => exact absurd hs hgoing.started
    | running => rfl
    | complete => exact absurd hs hstate
  cases hchange with
  | same hxy => exact hxy ▸ hgoing
  | handled hstart hg' hphase' hstate hmet hxy hm' =>
    rw [hphase, Option.some.injEq] at hphase'
    subst hphase'
    exact hxy ▸ hgoing.handlePhase hcomm ht m i p
  | latency hok hxy =>
    exact hxy ▸ hgoing.updateLatency hg hok.1 (hok.2 phase x hphase hcomm hx)
  | times hstart hphase' hstate hmet hxy =>
    rw [hphase, Option.some.injEq] at hphase'
    subst hphase'
    exact hxy ▸ hgoing.fillTimes (hrunning hstate)
      (hfixed.fixed i p phase x hphase hx (hrunning hstate))

theorem FixedStarts.run (h : FixedStarts g m) (hrun : Run reachesNow g m g' m') :
    FixedStarts g' m' :=
  hrun.invariant (P := FixedStarts) h (fun _ _ _ hle h => h.later hle)
    fun _ _ _ hs hstep => hs.advance (hstep.mono nonNegative_of_reachesNow)

/-- **Runs.** A communication that was going on does not end before. -/
theorem Outlasts.run (h : Outlasts g₀ i p m) (hfixed : FixedStarts g m) (hg : g₀ ≤ g)
    (hrun : Run reachesNow g m g' m') : Outlasts g₀ i p m' := by
  have hinv := hrun.invariant (P := fun g m => FixedStarts g m ∧ g₀ ≤ g ∧ Outlasts g₀ i p m)
    ⟨hfixed, hg, h⟩ (fun _ _ _ hle h => ⟨h.1.later hle, h.2.1.trans hle, h.2.2⟩)
    fun _ _ _ hs hstep => ⟨hs.1.advance (hstep.mono nonNegative_of_reachesNow), hs.2.1,
      hs.2.2.advance hs.1 hs.2.1 hstep⟩
  exact hinv.2.2

end

/-! ## What a tick lists goes on -/

theorem handlePhase_ongoing {phase : Phase} {x : PhaseInstance} (hcomm : phase.isCompute = false)
    (h : (m.handlePhase g i p phase x).active = true) :
    (m.handlePhase g i p phase x).inst.latencyUs ≤ 0 ∨
      g < (m.handlePhase g i p phase x).inst.startTimeUs +
        (m.handlePhase g i p phase x).inst.latencyUs := by
  have hh := handlePhase_handling m g i p phase x
  generalize m.handlePhase g i p phase x = o at hh h ⊢
  cases hh with
  | computeBegins hk hs => cases hk.symm.trans hcomm
  | computeGoesOn hk hs he => cases hk.symm.trans hcomm
  | commBegins hk hs hl ht => exact .inl hl.le
  | commGoesOn hk hs hl he => exact .inr (by dsimp only; linarith)
  | commWaits hk hs hl ht => exact .inl hl
  | _ => cases h

/-- A listed communication has no latency yet, or its latency has not passed. -/
def Ongoing (g : ℚ) (m : MappedModel) (x : PhaseInstance) : Prop :=
  ∀ phase, m.phases.get? x.phaseId = some phase → phase.isCompute = false →
    x.latencyUs ≤ 0 ∨ g < x.startTimeUs + x.latencyUs

theorem getActivePhases_ongoing {listed : List PhaseInstance} (hs : Shape m)
    (h : m.getActivePhases g = .ok (m', listed)) :
    ∀ x ∈ listed, Ongoing g m' x := by
  have hloop := foldlM_invariant (fun acc : MappedModel × List PhaseInstance =>
    Shape acc.1 ∧ ∀ x ∈ acc.2, Ongoing g acc.1 x) h ⟨hs, fun _ hx => by cases hx⟩ ?_
  · exact hloop.2
  · rintro i - acc acc' ⟨hshape, hold⟩ hstep
    have hadv : Advances nonNegative g acc.1 acc'.1 := activateInput_advances hstep
    refine ⟨hshape.advances hadv, ?_⟩
    have hkept : ∀ x ∈ acc.2, Ongoing g acc'.1 x := fun x hx phase hphase =>
      hold x hx phase (by rw [hadv.schedule] at hphase; exact hphase)
    cases activateInput_cases hstep with
    | idle => exact hkept
    | handled hstart hg hcurrent hphase hx =>
      next p phase x =>
      obtain ⟨-, hc, -⟩ := findCurrentPhaseIn_some hcurrent
      obtain ⟨x', hx', hstate⟩ := completeOrAbsent_eq_false hc
      rw [hx, Option.some.injEq] at hx'
      subst hx'
      obtain ⟨hid, -, -⟩ := handlePhase_step acc.1 g i p phase x hstate
      dsimp only at hkept ⊢
      split
      · next hact =>
        intro y hy
        rcases List.mem_append.mp hy with hy | hy
        · exact hkept y hy
        · rw [List.mem_singleton] at hy
          subst hy
          intro phase' hphase' hcomm
          rw [hid, (hshape.ids i p x hx).1, applyOutcome_schedule, hphase,
            Option.some.injEq] at hphase'
          subst hphase'
          exact handlePhase_ongoing hcomm hact
      · exact hkept

/-! ## Where co-active traffic is recorded -/

theorem applyOutcome_coActive (m : MappedModel) (i p : ℕ) (phase : Phase) (o : PhaseOutcome) :
    (m.applyOutcome i p phase o).communicationCoActiveTraffic = m.communicationCoActiveTraffic := by
  unfold applyOutcome
  cases o.weightsDone <;> rfl

theorem getActivePhases_coActive {listed : List PhaseInstance}
    (h : m.getActivePhases g = .ok (m', listed)) :
    m'.communicationCoActiveTraffic = m.communicationCoActiveTraffic := by
  refine foldlM_invariant (fun acc : MappedModel × List PhaseInstance =>
    acc.1.communicationCoActiveTraffic = m.communicationCoActiveTraffic) h rfl ?_
  intro i _ acc acc' hacc hstep
  cases activateInput_cases hstep with
  | idle => exact hacc
  | handled => exact (applyOutcome_coActive ..).trans hacc

theorem updatePhaseLatency_coActive {newLatency g : ℚ}
    (h : m.updatePhaseLatency i p newLatency g = .ok m') :
    m'.communicationCoActiveTraffic = m.communicationCoActiveTraffic := by
  unfold updatePhaseLatency at h
  split at h
  · cases h
  · split at h <;> cases h <;> rfl

theorem timePhase_coActive {acc acc' : MappedModel × Bool} (h : timePhase i acc p = .ok acc') :
    acc'.1.communicationCoActiveTraffic = acc.1.communicationCoActiveTraffic := by
  unfold timePhase at h
  dsimp only at h
  split at h
  · cases h; rfl
  · obtain ⟨b, -, h⟩ := bind_eq_ok.mp h
    cases b with
    | false => cases h; rfl
    | true =>
      obtain ⟨phase, -, h⟩ := bind_eq_ok.mp h
      obtain ⟨x, -, h⟩ := bind_eq_ok.mp h
      cases h
      rfl

theorem timeInput_coActive {acc acc' : MappedModel × Bool} {i : ℕ}
    (h : timeInput acc i = .ok acc') :
    acc'.1.communicationCoActiveTraffic = acc.1.communicationCoActiveTraffic := by
  have hstart : (startInput acc i).1.communicationCoActiveTraffic =
      acc.1.communicationCoActiveTraffic := by
    unfold startInput
    dsimp only
    split
    · split <;> rfl
    · rfl
  unfold timeInput at h
  dsimp only at h
  split at h
  · cases h; exact hstart
  · obtain ⟨acc₁, h₁, h⟩ := bind_eq_ok.mp h
    have hphases := foldlM_invariant (fun acc' : MappedModel × Bool =>
      acc'.1.communicationCoActiveTraffic = acc.1.communicationCoActiveTraffic) h₁ hstart
      fun p _ _ _ hs hstep => (timePhase_coActive hstep).trans hs
    unfold completeInput at h
    dsimp only at h
    split at h
    · obtain ⟨t, -, h⟩ := bind_eq_ok.mp h
      cases h
      exact hphases
    · cases h; exact hphases

theorem calculatePhaseTiming_coActive {updated : Bool}
    (h : m.calculatePhaseTiming g = .ok (m', updated)) :
    m'.communicationCoActiveTraffic = m.communicationCoActiveTraffic := by
  unfold calculatePhaseTiming at h
  obtain ⟨acc, hacc, h⟩ := bind_eq_ok.mp h
  have hloop := foldlM_invariant (fun acc : MappedModel × Bool =>
    acc.1.communicationCoActiveTraffic = m.communicationCoActiveTraffic) hacc rfl
    fun i _ _ _ hs hstep => (timeInput_coActive hstep).trans hs
  unfold completeModel at h
  dsimp only at h
  split at h
  · obtain ⟨t, -, h⟩ := bind_eq_ok.mp h
    split at h <;> cases h <;> exact hloop
  · cases h; exact hloop

theorem updateAllLayerComputeMetrics_coActive (m : MappedModel) :
    m.updateAllLayerComputeMetrics.communicationCoActiveTraffic =
      m.communicationCoActiveTraffic := by
  obtain ⟨inst, hinst⟩ := updateAllLayerComputeMetrics_eq m
  rw [hinst]

theorem calculateAllTraffic_coActive {source : TrafficSource}
    (h : m.calculateAllTraffic source = .ok m') :
    m'.communicationCoActiveTraffic = m.communicationCoActiveTraffic := by
  rw [calculateAllTraffic_eq] at h
  obtain ⟨d, -, h⟩ := bind_eq_ok.mp h
  cases h
  rfl

/-- A prepared model has no record of co-active traffic. -/
theorem prepare_coActive {a : Args} {strategy : WeightLoadingStrategy}
    {chunks : List (ℕ × ℕ × ℕ × ChunkResult)} {source : TrafficSource}
    (h : prepare a strategy chunks source = .ok m) : m.communicationCoActiveTraffic = .empty := by
  obtain ⟨m', hm', rfl⟩ := prepare_ok h
  exact (calculateAllTraffic_coActive hm').trans (updateAllLayerComputeMetrics_coActive _)

end MappedModel

end ChipSim
