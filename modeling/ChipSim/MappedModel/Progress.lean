import Mathlib.Algebra.BigOperators.Group.Finset.Basic
import Mathlib.Algebra.Order.BigOperators.Group.Finset
import ChipSim.MappedModel.Liveness

/-!
# Progress of a model

Two quantities of a model never decrease: how far its phase instances have come, and how many of
its communications have been simulated. A tick increases one of them, or the first unfinished input
waits for a running phase whose time has not passed.
-/

namespace ChipSim

open Lib

/-- How far an instance has come. -/
def PhaseState.rank : PhaseState → ℕ
  | .notStarted => 0
  | .running => 1
  | .complete => 2

theorem PhaseState.rank_le_two (s : PhaseState) : s.rank ≤ 2 := by
  cases s <;> decide

/-- A communication phase with something to send. -/
def PhaseSchedule.hasTraffic (s : PhaseSchedule) (p : ℕ) : Bool :=
  (s.phases.get? p).any fun phase =>
    !phase.isCompute && hasNonzeroTraffic (phase.traffic.getD .empty)

namespace MappedModel

variable {m m' : MappedModel} {g : ℚ} {i p : ℕ} {x : PhaseInstance}

/-! ## Counting -/

/-- The places of phase instances: inputs and phases. -/
def slots (m : MappedModel) : Finset (ℕ × ℕ) :=
  Finset.range m.numInputs ×ˢ m.phases.keys.toFinset

/-- The number of communication phase instances with non-zero traffic. -/
def commInstances (m : MappedModel) : ℕ :=
  (m.slots.filter fun e => m.hasTraffic e.2 = true ∧ (m.instance? e.1 e.2).isSome = true).card

/-- The number of those that have got a latency. -/
def simulatedInstances (m : MappedModel) : ℕ :=
  (m.slots.filter fun e =>
    m.hasTraffic e.2 = true ∧ (m.instance? e.1 e.2).any (·.latencyUs ≠ 0) = true).card

/-- How far all instances have come. -/
def stateRanks (m : MappedModel) : ℕ :=
  ∑ e ∈ m.slots, (m.instance? e.1 e.2).elim 0 (·.state.rank)

/-- The progress of a model. -/
def progress (m : MappedModel) : ℕ := m.stateRanks + m.simulatedInstances

theorem simulatedInstances_le (m : MappedModel) : m.simulatedInstances ≤ m.commInstances := by
  refine Finset.card_le_card fun e he => ?_
  rw [Finset.mem_filter] at he ⊢
  refine ⟨he.1, he.2.1, ?_⟩
  cases hx : m.instance? e.1 e.2 with
  | none => rw [hx] at he; cases he.2.2
  | some x => rfl

theorem progress_le (m : MappedModel) : m.progress ≤ 3 * m.slots.card := by
  have hranks : m.stateRanks ≤ m.slots.card * 2 := by
    refine Finset.sum_le_card_nsmul _ _ 2 fun e _ => ?_
    cases m.instance? e.1 e.2 with
    | none => exact Nat.zero_le 2
    | some x => exact x.state.rank_le_two
  have hsim : m.simulatedInstances ≤ m.slots.card := Finset.card_filter_le _ _
  unfold progress
  omega

theorem Shape.mem_slots (h : Shape m) (hx : m.instance? i p = some x) : (i, p) ∈ m.slots := by
  obtain ⟨hi, phase, hp, -⟩ := (h.exist i p).mp ⟨x, hx⟩
  rw [slots, Finset.mem_product, Finset.mem_range, List.mem_toFinset]
  exact ⟨hi, Dict.mem_of_get? hp⟩

/-! ## Forward -/

/-- No instance goes back, and no simulated communication loses its latency. -/
structure Forward (m m' : MappedModel) : Prop where
  schedule : m'.toPhaseSchedule = m.toPhaseSchedule
  instances : ∀ i p x, m.instance? i p = some x → ∃ y, m'.instance? i p = some y ∧
    x.state.rank ≤ y.state.rank ∧
    (∀ phase, m.phases.get? p = some phase → phase.isCompute = false → x.latencyUs ≠ 0 →
      y.latencyUs ≠ 0)

theorem Forward.refl (m : MappedModel) : Forward m m :=
  ⟨rfl, fun _ _ x hx => ⟨x, hx, le_rfl, fun _ _ _ h => h⟩⟩

theorem Forward.trans {m m' m'' : MappedModel} (h : Forward m m') (h' : Forward m' m'') :
    Forward m m'' := by
  refine ⟨h'.schedule.trans h.schedule, fun i p x hx => ?_⟩
  obtain ⟨y, hy, hrank, hlat⟩ := h.instances i p x hx
  obtain ⟨z, hz, hrank', hlat'⟩ := h'.instances i p y hy
  refine ⟨z, hz, hrank.trans hrank', fun phase hp hcomm hx0 => ?_⟩
  exact hlat' phase (by rw [h.schedule]; exact hp) hcomm (hlat phase hp hcomm hx0)

theorem Forward.slots_eq (h : Forward m m') : m'.slots = m.slots := by
  unfold slots
  rw [h.schedule]

theorem Forward.commInstances_eq (h : Forward m m') (hs : Shape m) (hs' : Shape m') :
    m'.commInstances = m.commInstances := by
  unfold commInstances
  rw [h.slots_eq, h.schedule]
  congr 1
  refine Finset.filter_congr fun e _ => and_congr_right fun _ => ?_
  rw [Option.isSome_iff_exists, Option.isSome_iff_exists, hs.exist, hs'.exist, h.schedule]

theorem hasTraffic_comm {s : PhaseSchedule} {p : ℕ} (h : s.hasTraffic p = true) :
    ∃ phase, s.phases.get? p = some phase ∧ phase.isCompute = false := by
  unfold PhaseSchedule.hasTraffic at h
  cases hp : s.phases.get? p with
  | none => rw [hp] at h; cases h
  | some phase =>
    rw [hp, Option.any_some, Bool.and_eq_true, Bool.not_eq_true'] at h
    exact ⟨phase, rfl, h.1⟩

theorem Forward.simulated_subset (h : Forward m m') {e : ℕ × ℕ} (ht : m.hasTraffic e.2 = true)
    (hsim : (m.instance? e.1 e.2).any (·.latencyUs ≠ 0) = true) :
    (m'.instance? e.1 e.2).any (·.latencyUs ≠ 0) = true := by
  obtain ⟨phase, hp, hcomm⟩ := hasTraffic_comm ht
  cases hx : m.instance? e.1 e.2 with
  | none => rw [hx] at hsim; cases hsim
  | some x =>
    rw [hx] at hsim
    obtain ⟨y, hy, -, hlat⟩ := h.instances e.1 e.2 x hx
    rw [hy]
    simpa using hlat phase hp hcomm (by simpa using hsim)

theorem Forward.simulatedInstances_le (h : Forward m m') :
    m.simulatedInstances ≤ m'.simulatedInstances := by
  refine Finset.card_le_card fun e he => ?_
  rw [Finset.mem_filter] at he ⊢
  rw [h.slots_eq, h.schedule]
  exact ⟨he.1, he.2.1, h.simulated_subset he.2.1 he.2.2⟩

/-- A communication that gets its first latency is one more simulated communication. -/
theorem Forward.simulatedInstances_lt (h : Forward m m') (hs : Shape m) {x y : PhaseInstance}
    (hx : m.instance? i p = some x) (hy : m'.instance? i p = some y) (ht : m.hasTraffic p = true)
    (hx0 : x.latencyUs = 0) (hy0 : y.latencyUs ≠ 0) :
    m.simulatedInstances < m'.simulatedInstances := by
  refine Finset.card_lt_card ⟨fun e he => ?_, fun hsub => ?_⟩
  · rw [Finset.mem_filter] at he ⊢
    rw [h.slots_eq, h.schedule]
    exact ⟨he.1, he.2.1, h.simulated_subset he.2.1 he.2.2⟩
  · have hmem : (i, p) ∈ m'.slots.filter fun e =>
        m'.hasTraffic e.2 = true ∧ (m'.instance? e.1 e.2).any (·.latencyUs ≠ 0) = true := by
      rw [Finset.mem_filter, h.slots_eq, h.schedule]
      refine ⟨hs.mem_slots hx, ht, ?_⟩
      rw [hy]
      simpa using hy0
    have hold := (Finset.mem_filter.mp (hsub hmem)).2.2
    rw [hx] at hold
    simp [hx0] at hold

theorem Forward.rank_le (h : Forward m m') (e : ℕ × ℕ) :
    (m.instance? e.1 e.2).elim 0 (·.state.rank) ≤ (m'.instance? e.1 e.2).elim 0 (·.state.rank) := by
  cases hx : m.instance? e.1 e.2 with
  | none => exact Nat.zero_le _
  | some x =>
    obtain ⟨y, hy, hrank, -⟩ := h.instances e.1 e.2 x hx
    rw [hy]
    exact hrank

theorem Forward.stateRanks_le (h : Forward m m') :
    m.stateRanks ≤ m'.stateRanks := by
  unfold stateRanks
  rw [h.slots_eq]
  exact Finset.sum_le_sum fun e _ => h.rank_le e

theorem Forward.stateRanks_lt (h : Forward m m') (hs : Shape m) {x y : PhaseInstance}
    (hx : m.instance? i p = some x) (hy : m'.instance? i p = some y)
    (hlt : x.state.rank < y.state.rank) : m.stateRanks < m'.stateRanks := by
  unfold stateRanks
  rw [h.slots_eq]
  refine Finset.sum_lt_sum (fun e _ => h.rank_le e) ⟨(i, p), hs.mem_slots hx, ?_⟩
  dsimp only
  rw [hx, hy]
  exact hlt

/-- A recorded latency leaves a running communication with a latency. -/
theorem updateLatency_ne_zero {g newLatency : ℚ} (hnew : 0 < newLatency) (hs : x.state = .running)
    (hstart : x.startTimeUs ≤ g) (hlat : 0 ≤ x.latencyUs) :
    (x.updateLatency newLatency g).latencyUs ≠ 0 := by
  unfold PhaseInstance.updateLatency
  dsimp only
  by_cases h0 : x.latencyUs = 0
  · rw [if_pos h0]
    exact hnew.ne'
  · rw [if_neg h0, if_pos ⟨lt_of_le_of_ne hlat (Ne.symm h0), hs⟩]
    have helapsed : 0 ≤ g - x.startTimeUs := by linarith
    exact (add_pos_of_nonneg_of_pos helapsed hnew).ne'

/-- **One step.** Every step of a model that can go on goes forward. -/
theorem Live.forward (h : Live g m) (hadv : Advance simulated g m m') :
    Forward m m' := by
  refine ⟨hadv.schedule, fun i p x hx => ?_⟩
  obtain ⟨y, hy, hchange⟩ := hadv.instance_next h.toShape hx
  refine ⟨y, hy, ?_⟩
  cases hchange with
  | same hxy => rw [hxy]; exact ⟨le_rfl, fun _ _ _ h0 => h0⟩
  | handled hstart hg hphase hstate hdeps hxy hm' =>
    next phase =>
    rw [hxy]
    obtain ⟨-, -, hmove⟩ := handlePhase_step m g i p phase x hstate
    cases hmove with
    | stay state start completion latency =>
      rw [state, latency]
      exact ⟨le_rfl, fun _ _ _ h0 => h0⟩
    | begin was state start completion latency =>
      rw [was, state, latency]
      exact ⟨by decide, fun _ _ _ h0 => h0⟩
    | finish was state start completion latency =>
      rw [was, state]
      refine ⟨by decide, fun _ _ _ h0 => ?_⟩
      rcases latency with hl | hl <;> rw [hl]
      · exact h0
      · norm_num
    | pass was state =>
      rw [was, state]
      exact ⟨by decide, fun phase' hp hcomm h0 =>
        absurd (h.waiting i p phase' x hp hcomm hx was) h0⟩
  | latency hok hxy =>
    obtain ⟨hnew, phase, x', -, -, hx', hrunning⟩ := hok
    rw [hx, Option.some.injEq] at hx'
    subst hx'
    rw [hxy, updateLatency_state]
    refine ⟨le_rfl, fun _ _ _ _ => ?_⟩
    exact updateLatency_ne_zero hnew hrunning (h.running i p x hx hrunning)
      (h.latency i p x hx (by rw [hrunning]; decide))
  | times hstart hphase hstate hdeps hxy =>
    rw [hxy, fillTimes_state, fillTimes_latency]
    exact ⟨le_rfl, fun _ _ _ h0 => h0⟩

theorem Live.run_forward (h : Live g m) (hrun : Run simulated g m g m') : Forward m m' :=
  (hrun.invariant (P := fun g' m' => Live g' m' ∧ Forward m m') ⟨h, .refl m⟩
    (fun _ _ _ hg hs => ⟨hs.1.later hg, hs.2⟩)
    fun _ _ _ hs hstep => ⟨hs.1.advance hstep, hs.2.trans (hs.1.forward hstep)⟩).2

/-! ## Waiting for time to pass -/

/-- Instances that run before and after keep their times. -/
def Frozen (m m' : MappedModel) : Prop :=
  ∀ i p x y, m.instance? i p = some x → m'.instance? i p = some y → x.state = .running →
    y.state = .running → y.startTimeUs = x.startTimeUs ∧ y.latencyUs = x.latencyUs

/-- No latency is recorded. -/
def noLatency : Guard
  | _, _, .updateLatency _ _ _ => False
  | _, _, _ => True

theorem simulated_of_noLatency (g : ℚ) (m : MappedModel) (op : TickOp) (h : noLatency g m op) :
    simulated g m op := by
  cases op with
  | updateLatency i p newLatency => exact h.elim
  | activePhases | phaseTiming | syncLayers | coActiveTraffic => trivial

theorem Frozen.refl (m : MappedModel) : Frozen m m := by
  intro i p x y hx hy _ _
  rw [hx, Option.some.injEq] at hy
  subst hy
  exact ⟨rfl, rfl⟩

theorem Frozen.trans {m m' m'' : MappedModel} (h : Frozen m m') (hf : Forward m m')
    (h' : Frozen m' m'') (hf' : Forward m' m'') : Frozen m m'' := by
  intro i p x z hx hz hxs hzs
  obtain ⟨y, hy, hxy, -⟩ := hf.instances i p x hx
  obtain ⟨z', hz', hyz, -⟩ := hf'.instances i p y hy
  rw [hz, Option.some.injEq] at hz'
  subst hz'
  have hys : y.state = .running := by
    rw [hxs] at hxy
    rw [hzs] at hyz
    cases hs : y.state with
    | notStarted => rw [hs] at hxy; exact absurd hxy (by decide)
    | running => rfl
    | complete => rw [hs] at hyz; exact absurd hyz (by decide)
  obtain ⟨h₁, h₂⟩ := h i p x y hx hy hxs hys
  obtain ⟨h₃, h₄⟩ := h' i p y z hy hz hys hzs
  exact ⟨h₃.trans h₁, h₄.trans h₂⟩

theorem fillTimes_start_of_nonneg (h : 0 ≤ x.startTimeUs) (start : ℚ) :
    (x.fillTimes start).1.startTimeUs = x.startTimeUs := by
  unfold PhaseInstance.fillTimes
  dsimp only
  rw [if_neg (not_lt.mpr h)]
  split <;> rfl

theorem Live.frozen (h : Live g m) (hadv : Advance noLatency g m m') :
    Frozen m m' := by
  intro i p x y hx hy hxs hys
  cases hadv.change hx hy with
  | same hxy => rw [hxy]; exact ⟨rfl, rfl⟩
  | handled hstart hg hphase hstate hdeps hxy hm' =>
    next phase =>
    rw [hxy] at hys ⊢
    obtain ⟨-, -, hmove⟩ := handlePhase_step m g i p phase x hstate
    cases hmove with
    | stay state start completion latency => exact ⟨start, latency⟩
    | begin was => rw [hxs] at was; cases was
    | finish was state => rw [state] at hys; cases hys
    | pass was => rw [hxs] at was; cases was
  | latency hok hxy => exact hok.elim
  | times hstart hphase hstate hdeps hxy =>
    have hstarted : x.state ≠ .notStarted := by rw [hxs]; decide
    have hnonneg : 0 ≤ x.startTimeUs :=
      (h.inputTimes i hstart).1.trans (h.startsAfter i p _ x hphase hx hstarted).input
    rw [hxy, fillTimes_start_of_nonneg hnonneg, fillTimes_latency]
    exact ⟨rfl, rfl⟩

theorem Live.run_frozen (h : Live g m) (hrun : Run noLatency g m g m') :
    Frozen m m' := by
  have hself : Frozen m m := fun i p x y hx hy _ _ => by
    rw [hx, Option.some.injEq] at hy
    rw [hy]
    exact ⟨rfl, rfl⟩
  refine (hrun.invariant (P := fun g' m' => Live g' m' ∧ Forward m m' ∧ Frozen m m')
    ⟨h, .refl m, hself⟩ (fun _ _ _ hg hs => ⟨hs.1.later hg, hs.2⟩) ?_).2.2
  intro g' m₁ m₂ ⟨hlive, hforward, hfrozen⟩ hstep
  have hstep' := hstep.mono simulated_of_noLatency
  exact ⟨hlive.advance hstep', hforward.trans (hlive.forward hstep'),
    hfrozen.trans hforward (hlive.frozen hstep) (hlive.forward hstep')⟩

/-! ## A tick makes progress -/

/-- What becomes of a phase that can run: it goes on, its time has not passed yet, or it is listed
for its first simulation. -/
inductive PhaseProgress (g : ℚ) (isCompute : Bool) (x : PhaseInstance) (o : PhaseOutcome) : Prop
  | further (h : x.state.rank < o.inst.state.rank)
  | early (hs : o.inst.state = .running) (ht : g < o.inst.startTimeUs + o.inst.latencyUs)
  | listed (hcomm : isCompute = false) (hs : o.inst.state = .running)
      (hlat : o.inst.latencyUs = 0) (hactive : o.active = true)

theorem PhaseProgress.of_states {isCompute : Bool} {o : PhaseOutcome} {a b : PhaseState}
    (hx : x.state = a) (ho : o.inst.state = b) (h : a.rank < b.rank) :
    PhaseProgress g isCompute x o :=
  .further (by rw [hx, ho]; exact h)

theorem Live.handlePhase_progress (h : Live g m) {phase : Phase} (hp : m.phases.get? p = some phase)
    (hx : m.instance? i p = some x) (hs : x.state ≠ .complete) :
    PhaseProgress g phase.isCompute x (m.handlePhase g i p phase x) := by
  have hlat := h.latency i p x hx hs
  have hwaiting := fun hcomm => h.waiting i p phase x hp hcomm hx
  have hskip := fun hweight => h.loading.not_allWeightsLoaded h.wellFormed hp hweight hx hs
  have hh := handlePhase_handling m g i p phase x
  generalize m.handlePhase g i p phase x = o at hh ⊢
  cases hh with
  | computeBegins hk hs => exact .of_states (b := .running) hs rfl (by decide)
  | computeGoesOn hk hs he => exact .early hs (by dsimp only; linarith)
  | computeEnds hk hs he => exact .of_states (b := .complete) hs rfl (by decide)
  | commBegins hk hs hl ht => exact .of_states (b := .running) hs rfl (by decide)
  | commEmpty hk hs hl ht => exact .of_states (b := .complete) hs rfl (by decide)
  | commGoesOn hk hs hl he => exact .early hs (by dsimp only; linarith)
  | commEnds hk hs hl he => exact .of_states (b := .complete) hs rfl (by decide)
  | commWaits hk hs hl ht => exact .listed hk hs (le_antisymm hl hlat) rfl
  | commDrops hk hs hl ht => exact .of_states (b := .complete) hs rfl (by decide)
  | skipped hw hall hs => cases (hskip hw).symm.trans hall
  | loaded hw hall hs => cases (hskip hw).symm.trans hall
  | timed hk hs hl => exact absurd (hwaiting hk hs) hl
  | done hdone => exact absurd hdone hs

/-- Complete inputs are left as they are. -/
theorem activateInput_complete {acc acc' : MappedModel × List PhaseInstance} {i : ℕ}
    (hs : Shape acc.1) (hall : acc.1.allPhasesComplete i = true)
    (h : activateInput g acc i = .ok acc') : acc' = acc := by
  cases activateInput_cases h with
  | idle => rfl
  | handled hstart hg hcurrent =>
    obtain ⟨-, hc, -⟩ := findCurrentPhaseIn_some hcurrent
    rw [(hs.allPhasesComplete_iff i).mp hall] at hc
    cases hc

/-- **A tick.** The current phase of the first unfinished input goes on, its time has not passed
yet, or it is listed for its first simulation. -/
theorem Live.getActivePhases_progress (h : Live g m) (hfirst : FirstUnfinished m i)
    (hcurrent : m.findCurrentPhase i = .ok (some p)) {listed : List PhaseInstance}
    (hact : m.getActivePhases g = .ok (m', listed)) :
    ∃ phase x o, m.phases.get? p = some phase ∧ m.instance? i p = some x ∧
      m'.instance? i p = some o.inst ∧ PhaseProgress g phase.isCompute x o ∧
      (o.active = true → o.inst ∈ listed) := by
  unfold MappedModel.getActivePhases at hact
  obtain ⟨before, after, hsplit⟩ := List.append_of_mem (List.mem_range.mpr hfirst.lt)
  have hsorted := List.pairwise_lt_range (n := m.numInputs)
  rw [hsplit, List.pairwise_append] at hsorted
  have hbefore : ∀ j ∈ before, j < i := fun j hj => hsorted.2.2 j hj i List.mem_cons_self
  have hafter : i ∉ after := fun hi =>
    absurd ((List.pairwise_cons.mp hsorted.2.1).1 i hi) (lt_irrefl i)
  rw [hsplit, List.foldlM_append] at hact
  obtain ⟨acc, hacc, hact⟩ := bind_eq_ok.mp hact
  -- the inputs before are complete
  have hsame : acc = (m, []) := by
    refine foldlM_invariant (fun acc : MappedModel × List PhaseInstance => acc = (m, []))
      hacc rfl ?_
    intro j hj s s' hs hstep
    subst hs
    exact activateInput_complete h.toShape (hfirst.before j (hbefore j hj)) hstep
  subst hsame
  obtain ⟨acc₁, hacc₁, hrest⟩ := foldlM_cons_ok.mp hact
  obtain ⟨hkept, hother⟩ := activateInputs_other hrest
  cases activateInput_cases hacc₁ with
  | idle hidle =>
    exfalso
    rcases hidle with hs | hg | hnone
    · exact hfirst.started hs
    · exact absurd (h.inputTimes i hfirst.started).2 (not_le.mpr hg)
    · rw [hcurrent] at hnone
      cases hnone
  | handled hstart hg hcurrent' hphase hx =>
    next p' phase x =>
    rw [hcurrent, Except.ok.injEq, Option.some.injEq] at hcurrent'
    subst hcurrent'
    obtain ⟨-, hc, -⟩ := findCurrentPhaseIn_some hcurrent
    obtain ⟨x', hx', hstate⟩ := completeOrAbsent_eq_false hc
    have hxx' := hx.symm.trans hx'
    rw [Option.some.injEq] at hxx'
    refine ⟨phase, x, m.handlePhase g i p phase x, hphase, hx, ?_,
      h.handlePhase_progress hphase hx (hxx' ▸ hstate), fun hactive => hkept _ ?_⟩
    · rw [hother i hafter, instance?_applyOutcome]
      exact if_pos ⟨rfl, rfl⟩
    · rw [if_pos hactive]
      exact List.mem_append_right _ (List.mem_singleton.mpr rfl)

end MappedModel

end ChipSim
