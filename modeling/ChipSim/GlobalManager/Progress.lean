import Mathlib.Algebra.Order.Archimedean.Basic
import Mathlib.Data.Finset.Order
import ChipSim.GlobalManager.Retirement
import ChipSim.GlobalManager.Unblocked

/-!
# Every model is completed

A model that stayed active forever would have to wait forever. But only finitely many models are
injected, so only finitely many network simulations take place; afterwards latencies do not change
any more, and the time passes every phase the model could wait for.
-/

namespace ChipSim

open Lib

namespace MappedModel

/-! ## Deadlines -/

/-- A time by which all running phases of a model are over. -/
theorem Shape.exists_deadline {m : MappedModel} (h : Shape m) :
    ∃ t, ∀ i p x, m.instance? i p = some x → x.startTimeUs + x.latencyUs ≤ t := by
  obtain ⟨t, ht⟩ := (m.slots.image fun e =>
    (m.instance? e.1 e.2).elim 0 fun x => x.startTimeUs + x.latencyUs).exists_le
  refine ⟨t, fun i p x hx => ht _ (Finset.mem_image.mpr ⟨(i, p), h.mem_slots hx, ?_⟩)⟩
  rw [hx]
  rfl

theorem PhaseState.eq_of_rank {a b : PhaseState} (h : a.rank = b.rank) : a = b := by
  cases a <;> cases b <;> first | rfl | cases h

/-- A phase that runs while nothing changes has been running with the same times. -/
theorem running_of_still {m m' : MappedModel} (hs : Shape m) (hs' : Shape m')
    (hforward : Forward m m') (hfrozen : Frozen m m') (hranks : m'.stateRanks ≤ m.stateRanks)
    {i p : ℕ} {y : PhaseInstance} (hy : m'.instance? i p = some y) (hrun : y.state = .running) :
    ∃ x, m.instance? i p = some x ∧
      x.startTimeUs + x.latencyUs = y.startTimeUs + y.latencyUs := by
  obtain ⟨x, hx⟩ := (hs.exist i p).mpr (hforward.schedule ▸ (hs'.exist i p).mp ⟨y, hy⟩)
  obtain ⟨y', hy', hrank, -⟩ := hforward.instances i p x hx
  rw [hy, Option.some.injEq] at hy'
  subst hy'
  have hsame : x.state = y.state := by
    refine PhaseState.eq_of_rank (le_antisymm hrank (not_lt.mp fun hlt => ?_))
    exact absurd (hforward.stateRanks_lt hs hx hy hlt) (not_lt.mpr hranks)
  obtain ⟨hstart, hlat⟩ := hfrozen i p x y hx hy (hsame.trans hrun) hrun
  exact ⟨x, hx, by rw [hstart, hlat]⟩

end MappedModel

namespace GlobalManager

open MappedModel Orchestrator WorkloadManager

variable {c : Config} {rows : List WorkloadEntry} {specs : List ChipletSpec} {s s' : State}

/-! ## Time -/

/-- The entries the current stage still has to go through. -/
def stageLength (s : State) : ℕ :=
  match s.stage with
  | .injecting l => l.length
  | .retiring l => l.length
  | _ => 0

/-- With an active model a tick begins. -/
theorem Move.loopHead (hmove : Move c s s') (h : s.stage = .loopHead) {k : ℕ}
    (hk : k ∈ s.activeMappedModels) :
    (∃ l, s'.stage = .injecting l) ∧ s'.globalTimeUs = s.globalTimeUs := by
  cases hmove with
  | ready => exact ⟨⟨_, rfl⟩, rfl⟩
  | finish _ _ hempty =>
    rw [Dict.mem_def, hempty] at hk
    cases hk
  | proceed hstage => rw [hstage] at h; cases h
  | postponed hstage => rw [hstage] at h; cases h
  | injected hstage => rw [hstage] at h; cases h
  | communicated hstage => rw [hstage] at h; cases h
  | kept hstage => rw [hstage] at h; cases h
  | retired hstage => rw [hstage] at h; cases h
  | nextTick hstage => rw [hstage] at h; cases h
  | finished hstage => rw [hstage] at h; cases h

theorem Move.communicating (hmove : Move c s s') (h : s.stage = .communicating) :
    (∃ l, s'.stage = .retiring l) ∧ s'.globalTimeUs = s.globalTimeUs := by
  cases hmove with
  | communicated => exact ⟨⟨_, rfl⟩, rfl⟩
  | ready hstage => rw [hstage] at h; cases h
  | finish hstage => rw [hstage] at h; cases h
  | proceed hstage => rw [hstage] at h; cases h
  | postponed hstage => rw [hstage] at h; cases h
  | injected hstage => rw [hstage] at h; cases h
  | kept hstage => rw [hstage] at h; cases h
  | retired hstage => rw [hstage] at h; cases h
  | nextTick hstage => rw [hstage] at h; cases h
  | finished hstage => rw [hstage] at h; cases h

/-- Injection attempts come to an end. -/
theorem Move.injecting {t : ℚ} (hmove : Move c s s')
    (h : (∃ l, s.stage = .injecting l) ∧ s.globalTimeUs = t) :
    (s'.stage = .communicating ∧ s'.globalTimeUs = t) ∨
      ((∃ l, s'.stage = .injecting l) ∧ s'.globalTimeUs = t) ∧ stageLength s' < stageLength s := by
  obtain ⟨⟨l, hl⟩, htime⟩ := h
  cases hmove with
  | proceed => exact .inl ⟨rfl, htime⟩
  | postponed hstage =>
    unfold stageLength
    rw [hstage]
    unfold postpone
    dsimp only
    split
    · exact .inl ⟨rfl, htime⟩
    · exact .inr ⟨⟨⟨_, rfl⟩, htime⟩, Nat.lt_succ_self _⟩
  | injected hstage =>
    unfold stageLength
    rw [hstage]
    exact .inr ⟨⟨⟨_, rfl⟩, htime⟩, Nat.lt_succ_self _⟩
  | ready hstage => rw [hstage] at hl; cases hl
  | finish hstage => rw [hstage] at hl; cases hl
  | communicated hstage => rw [hstage] at hl; cases hl
  | kept hstage => rw [hstage] at hl; cases hl
  | retired hstage => rw [hstage] at hl; cases hl
  | nextTick hstage => rw [hstage] at hl; cases hl
  | finished hstage => rw [hstage] at hl; cases hl

/-- So do retirement checks, and then the time goes on. -/
theorem Move.retiring {t : ℚ} (hmove : Move c s s')
    (h : (∃ l, s.stage = .retiring l) ∧ s.globalTimeUs = t) :
    (s'.stage = .loopHead ∧ s'.globalTimeUs = t + 1) ∨
      ((∃ l, s'.stage = .retiring l) ∧ s'.globalTimeUs = t) ∧ stageLength s' < stageLength s := by
  obtain ⟨⟨l, hl⟩, htime⟩ := h
  cases hmove with
  | nextTick => exact .inl ⟨rfl, by rw [htime]⟩
  | kept hstage =>
    unfold stageLength
    rw [hstage]
    exact .inr ⟨⟨⟨_, rfl⟩, htime⟩, Nat.lt_succ_self _⟩
  | retired hstage =>
    unfold stageLength
    rw [hstage]
    exact .inr ⟨⟨⟨_, rfl⟩, htime⟩, Nat.lt_succ_self _⟩
  | ready hstage => rw [hstage] at hl; cases hl
  | finish hstage => rw [hstage] at hl; cases hl
  | proceed hstage => rw [hstage] at hl; cases hl
  | postponed hstage => rw [hstage] at hl; cases hl
  | injected hstage => rw [hstage] at hl; cases hl
  | communicated hstage => rw [hstage] at hl; cases hl
  | finished hstage => rw [hstage] at hl; cases hl

theorem Move.calls_le (hmove : Move c s s') :
    s.simulationCallCounter ≤ s'.simulationCallCounter := by
  cases hmove with
  | communicated hstage hsim =>
    cases simulateCommunication_cases hsim with
    | quiet => exact le_rfl
    | simulated => exact Nat.le_succ _
  | ready => exact le_rfl
  | finish => exact le_rfl
  | proceed => exact le_rfl
  | postponed => exact le_rfl
  | injected => exact le_rfl
  | kept => exact le_rfl
  | retired => exact le_rfl
  | nextTick => exact le_rfl
  | finished => exact le_rfl

/-! ## Steps without a call -/

/-- The change of a model within a tick without a call. -/
abbrev Waits (g : ℚ) (_ : ℕ) (m m' : MappedModel) : Prop := MappedModel.Run noLatency g m g m'

theorem timing_waits {g : ℚ} {k : ℕ} {m m' : MappedModel} {updated : Bool}
    (h : m.calculatePhaseTiming g = .ok (m', updated)) : Waits g k m m' :=
  Run.single (show noLatency g m .phaseTiming from trivial) (tick_phaseTiming h)

theorem collected_waits {n : ℕ} {g : ℚ} {active : Dict ℕ MappedModel}
    {r : Dict ℕ MappedModel × List ActivePhase}
    (h : collectActivePhases n active g = .ok r) : Dict.Related (Waits g) active r.1 :=
  (collectActivePhases_related h).mono fun _ m _ ⟨_, hl⟩ =>
    Run.single (show noLatency g m .activePhases from trivial) (tick_activePhases hl)

/-- Without a call a model that stays active gets no latency. -/
theorem Move.waits (hmove : Move c s s') (ht : Tracked s)
    (hcalls : s'.simulationCallCounter = s.simulationCallCounter) {k : ℕ} {m m' : MappedModel}
    (hm : s.activeMappedModels.get? k = some m) (hm' : s'.activeMappedModels.get? k = some m') :
    Waits s.globalTimeUs k m m' := by
  have hrelated : ∀ {active : Dict ℕ MappedModel}, active.get? k = some m' →
      Dict.Related (Waits s.globalTimeUs) s.activeMappedModels active →
      Waits s.globalTimeUs k m m' := by
    intro active hm' hrel
    obtain ⟨m₀, hm₀, hrun⟩ := hrel.values k m' hm'
    rw [hm, Option.some.injEq] at hm₀
    exact hm₀ ▸ hrun
  have hsame : Dict.Related (Waits s.globalTimeUs) s.activeMappedModels s.activeMappedModels :=
    Dict.Related.refl (fun _ _ => .start) _
  cases hmove with
  | communicated hstage hsim htime =>
    obtain ⟨phases, hcollect, -⟩ := simulateCommunication_quiet hsim hcalls
    refine hrelated hm' ((collected_waits hcollect).trans (timeModels_related htime) ?_)
    rintro k u v w huv ⟨updated, hvw⟩
    exact MappedModel.Run.trans huv (timing_waits (k := k) hvw)
  | injected hstage hmetrics hmap hcreate =>
    next entry _ _ _ _ _ _ _ =>
    have hk : k ≠ entry.2.2 := fun heq =>
      (ht.not_active (ht.pending_tail hstage).1).1 (heq ▸ Dict.mem_of_get? hm)
    dsimp only at hm'
    rw [Dict.get?_set_of_ne _ _ hk] at hm'
    exact hrelated hm' hsame
  | kept hstage hm₀ htime =>
    exact hrelated hm' (Dict.Related.set (fun _ _ => .start) hm₀ (timing_waits htime))
  | retired hstage =>
    dsimp only at hm'
    rw [Dict.get?_erase] at hm'
    split at hm'
    · cases hm'
    · exact hrelated hm' hsame
  | ready => exact hrelated hm' hsame
  | finish => exact hrelated hm' hsame
  | proceed => exact hrelated hm' hsame
  | postponed => exact hrelated hm' hsame
  | nextTick => exact hrelated hm' hsame
  | finished => exact hrelated hm' hsame

/-- In a tick without a call and without progress, an active model waits for a running phase whose
time has not passed. -/
theorem Sound.waiting (h : Sound c specs rows s) (hmove : Move c s s')
    (hstage : s.stage = .communicating)
    (hcalls : s'.simulationCallCounter = s.simulationCallCounter) {k : ℕ} {m m' : MappedModel}
    (hm : s.activeMappedModels.get? k = some m) (hm' : s'.activeMappedModels.get? k = some m')
    (hranks : m'.stateRanks = m.stateRanks) :
    ∃ m₁ i p x, Waits s.globalTimeUs k m m₁ ∧ m₁.stateRanks ≤ m.stateRanks ∧
      m₁.instance? i p = some x ∧ x.state = .running ∧
      s.globalTimeUs < x.startTimeUs + x.latencyUs := by
  obtain ⟨i, hfirst⟩ := h.unblocked.first k m hm fun l hl => by rw [hstage] at hl; cases hl
  cases hmove with
  | communicated _ hsim htime =>
    obtain ⟨phases, hcollect, hquiet⟩ := simulateCommunication_quiet hsim hcalls
    obtain ⟨m₁, hm₁, hwait⟩ := (collected_waits hcollect).get? hm
    have hlive₁ : Live s.globalTimeUs m₁ :=
      (h.unblocked.live k m hm).run (hwait.mono simulated_of_noLatency)
    obtain ⟨m₂, hm₂, updated, ht⟩ := (timeModels_related htime).get? hm₁
    rw [show m₂ = m' from Option.some.inj (hm₂.symm.trans hm')] at ht
    have hle : m₁.stateRanks ≤ m.stateRanks := hranks ▸
      (hlive₁.run_forward (timing_proceeds (k := k) ht)).stateRanks_le
    have htraffic := h.unblocked.traffic
    rw [← h.balanced.numChiplets] at htraffic
    rcases quiet_progress h.unblocked.live htraffic hcollect hquiet hm hm₁ hfirst with
      hlt | ⟨p, x, hx, hrun, htime'⟩
    · exact absurd hlt (not_lt.mpr hle)
    · exact ⟨m₁, i, p, x, hwait, hle, hx, hrun, htime'⟩
  | ready hs => rw [hs] at hstage; cases hstage
  | finish hs => rw [hs] at hstage; cases hstage
  | proceed hs => rw [hs] at hstage; cases hstage
  | postponed hs => rw [hs] at hstage; cases hstage
  | injected hs => rw [hs] at hstage; cases hstage
  | kept hs => rw [hs] at hstage; cases hstage
  | retired hs => rw [hs] at hstage; cases hstage
  | nextTick hs => rw [hs] at hstage; cases hstage
  | finished hs => rw [hs] at hstage; cases hstage

/-! ## Infinite runs -/

section

variable (run : Machine.Run (step c) s) (h : Sound c specs rows s) (hnet : Responsive c.network)
  (hrows : ∀ r ∈ rows, 0 < r.numInputs)
include h hnet hrows

theorem run_sound (n : ℕ) : Sound c specs rows (run.state n) :=
  Machine.steps_invariant h (fun _ _ hs hstep => hs.move hnet hrows (step_move hstep))
    (run.reached n)

theorem run_change (n : ℕ) : Change (run.state n) (run.state (n + 1)) :=
  (step_move (run.next n)).change hnet (run_sound run h hnet hrows n).histories
    (run_sound run h hnet hrows n).tracked

/-- There are finitely many models to inject. -/
theorem run_models : ∃ N, ∀ n, N ≤ n → models (run.state (n + 1)) = models (run.state n) := by
  have hsub := fun n => (run_change run h hnet hrows n).models_subset
  have hbound : ∀ n, (models (run.state n)).card ≤ (rows.map (·.modelIdx)).toFinset.card := by
    intro n
    have hs := run_sound run h hnet hrows n
    refine Finset.card_le_card fun k hk => List.mem_toFinset.mpr ?_
    exact hs.unblocked.injected k ((hs.tracked.injected k).mpr (mem_models.mp hk))
  obtain ⟨N, hN⟩ := Machine.eventually_constant
    (fun n => Finset.card_le_card (hsub n)) hbound
  refine ⟨N, fun n hn => (Finset.eq_of_subset_of_card_le (hsub n) ?_).symm⟩
  rw [hN n hn, hN (n + 1) (Nat.le_succ_of_le hn)]

/-- So there are finitely many calls of the network simulator. -/
theorem run_calls (hcalls : s.simulationCallCounter ≤ total simulatedInstances s) :
    ∃ N, ∀ n, N ≤ n →
      (run.state (n + 1)).simulationCallCounter = (run.state n).simulationCallCounter := by
  have hsound := run_sound run h hnet hrows
  obtain ⟨N, hN⟩ := run_models run h hnet hrows
  have hle : ∀ n, (run.state n).simulationCallCounter ≤
      total simulatedInstances (run.state n) := fun n =>
    (Machine.steps_invariant (P := fun s => Sound c specs rows s ∧
      s.simulationCallCounter ≤ total simulatedInstances s) ⟨h, hcalls⟩
      (fun _ _ hs hstep => ⟨hs.1.move hnet hrows (step_move hstep),
        hs.1.calls_move hnet (step_move hstep) hs.2⟩) (run.reached n)).2
  have hcomm : ∀ n, N ≤ n → total commInstances (run.state n) =
      total commInstances (run.state N) := by
    intro n hn
    induction n, hn using Nat.le_induction with
    | base => rfl
    | succ n hn ih =>
      rw [← ih]
      refine (run_change run h hnet hrows n).total_eq (hN n hn) fun k m m' hm hrun => ?_
      have hlive := (hsound n).unblocked.live k m hm
      exact (hlive.run_forward hrun).commInstances_eq hlive.toShape (hlive.run hrun).toShape
  obtain ⟨M, -, hM⟩ := Machine.eventually_constant_from
    (fun n _ => (step_move (run.next n)).calls_le)
    fun n hn => ((hle n).trans (total_mono simulatedInstances_le _)).trans (hcomm n hn).le
  exact ⟨M, fun n hn => by rw [hM n hn, hM (n + 1) (Nat.le_succ_of_le hn)]⟩

end

section

variable (run : Machine.Run (step c) s) {k : ℕ} {n : ℕ} {t : ℚ}

theorem run_injecting (hn : (∃ l, (run.state n).stage = .injecting l) ∧
      (run.state n).globalTimeUs = t) :
    ∃ m, n < m ∧ (run.state m).stage = .communicating ∧ (run.state m).globalTimeUs = t :=
  run.leadsTo (P := fun s => (∃ l, s.stage = .injecting l) ∧ s.globalTimeUs = t)
    (Q := fun s => s.stage = .communicating ∧ s.globalTimeUs = t) stageLength
    (fun n hP => (step_move (run.next n)).injecting hP) hn

theorem run_retiring (hk : ∀ n, k ∈ (run.state n).activeMappedModels)
    (hn : (∃ l, (run.state n).stage = .retiring l) ∧ (run.state n).globalTimeUs = t) :
    ∃ m, n < m ∧ (run.state m).stage = .communicating ∧ (run.state m).globalTimeUs = t + 1 := by
  obtain ⟨m, hm, hhead⟩ := run.leadsTo
    (P := fun s => (∃ l, s.stage = .retiring l) ∧ s.globalTimeUs = t)
    (Q := fun s => s.stage = .loopHead ∧ s.globalTimeUs = t + 1) stageLength
    (fun n hP => (step_move (run.next n)).retiring hP) hn
  obtain ⟨hinjecting, htime⟩ := (step_move (run.next m)).loopHead hhead.1 (hk m)
  obtain ⟨m', hm', hcomm⟩ := run_injecting run ⟨hinjecting, htime.trans hhead.2⟩
  exact ⟨m', by omega, hcomm⟩

/-- While a model is active, tick follows tick. -/
theorem run_tick (hk : ∀ n, k ∈ (run.state n).activeMappedModels)
    (hfin : ∀ n, (run.state n).stage ≠ .finished) (n j : ℕ) :
    ∃ m, n ≤ m ∧ (run.state m).stage = .communicating ∧
      (run.state n).globalTimeUs + j ≤ (run.state m).globalTimeUs := by
  induction j with
  | zero =>
    rw [Nat.cast_zero, add_zero]
    cases hstage : (run.state n).stage with
    | loopHead =>
      obtain ⟨hinjecting, htime⟩ := (step_move (run.next n)).loopHead hstage (hk n)
      obtain ⟨m, hm, hcomm, htime'⟩ := run_injecting run ⟨hinjecting, htime⟩
      exact ⟨m, by omega, hcomm, htime'.ge⟩
    | injecting l =>
      obtain ⟨m, hm, hcomm, htime⟩ := run_injecting run ⟨⟨l, hstage⟩, rfl⟩
      exact ⟨m, hm.le, hcomm, htime.ge⟩
    | communicating => exact ⟨n, le_rfl, hstage, le_rfl⟩
    | retiring l =>
      obtain ⟨m, hm, hcomm, htime⟩ := run_retiring run hk ⟨⟨l, hstage⟩, rfl⟩
      exact ⟨m, hm.le, hcomm, by rw [htime]; linarith⟩
    | finished => exact absurd hstage (hfin n)
  | succ j ih =>
    obtain ⟨m, hm, hcomm, htime⟩ := ih
    obtain ⟨hretiring, hsame⟩ := (step_move (run.next m)).communicating hcomm
    obtain ⟨m', hm', hcomm', htime'⟩ := run_retiring run hk ⟨hretiring, rfl⟩
    refine ⟨m', by omega, hcomm', ?_⟩
    rw [htime', hsame]
    push_cast
    linarith

end

/-- **No model waits forever.** In an infinite run no model is active all the time. -/
theorem run_retires (run : Machine.Run (step c) s) (h : Sound c specs rows s)
    (hnet : Responsive c.network) (hrows : ∀ r ∈ rows, 0 < r.numInputs)
    (hcalls : s.simulationCallCounter ≤ total simulatedInstances s)
    (hfin : ∀ n, (run.state n).activeMappedModels.keys ≠ [] → (run.state n).stage ≠ .finished)
    (k : ℕ) : ∃ n, k ∉ (run.state n).activeMappedModels := by
  by_contra hcon
  push Not at hcon
  have hsound := run_sound run h hnet hrows
  have hfin' : ∀ n, (run.state n).stage ≠ .finished := fun n => hfin n fun hempty => by
    have hmem := Dict.mem_def.mp (hcon n)
    rw [hempty] at hmem
    cases hmem
  choose model hmodel using fun n => Dict.mem_iff.mp (hcon n)
  have hlive := fun n => (hsound n).unblocked.live k (model n) (hmodel n)
  have hforward : ∀ n, Forward (model n) (model (n + 1)) := fun n =>
    (hlive n).run_forward ((run_change run h hnet hrows n).model (hmodel n) (hmodel (n + 1)))
  -- from `N` on there are no calls any more, from `M` on the model makes no progress
  obtain ⟨N, hN⟩ := run_calls run h hnet hrows hcalls
  have hslots : ∀ n, N ≤ n → (model n).slots = (model N).slots := by
    intro n hn
    induction n, hn using Nat.le_induction with
    | base => rfl
    | succ n _ ih => rw [(hforward n).slots_eq, ih]
  obtain ⟨M, hNM, hM⟩ := Machine.eventually_constant_from (f := fun n => (model n).stateRanks)
    (fun n _ => (hforward n).stateRanks_le) fun n hn => by
      have hle := (model n).progress_le
      rw [hslots n hn] at hle
      exact (Nat.le_add_right _ _).trans hle
  have hstill : ∀ n, M ≤ n → Forward (model M) (model n) ∧ Frozen (model M) (model n) := by
    intro n hn
    induction n, hn using Nat.le_induction with
    | base => exact ⟨.refl _, Frozen.refl _⟩
    | succ n hn ih =>
      have hwait := (step_move (run.next n)).waits (hsound n).tracked (hN n (hNM.trans hn))
        (hmodel n) (hmodel (n + 1))
      exact ⟨ih.1.trans (hforward n), ih.2.trans ih.1 ((hlive n).run_frozen hwait) (hforward n)⟩
  -- the time passes every phase that was running then
  obtain ⟨deadline, hdeadline⟩ := (hlive M).toShape.exists_deadline
  obtain ⟨j, hj⟩ := exists_nat_ge (deadline - (run.state M).globalTimeUs)
  obtain ⟨n, hn, hcomm, htime⟩ := run_tick run hcon hfin' M j
  have hranks : (model (n + 1)).stateRanks = (model n).stateRanks := by
    rw [hM n hn, hM (n + 1) (Nat.le_succ_of_le hn)]
  obtain ⟨m₁, i, p, x, hwait, hle, hx, hrunning, hlt⟩ := (hsound n).waiting (step_move (run.next n))
    hcomm (hN n (hNM.trans hn)) (hmodel n) (hmodel (n + 1)) hranks
  have hproceeds := hwait.mono simulated_of_noLatency
  have hforward₁ := (hlive n).run_forward hproceeds
  obtain ⟨hforwardM, hfrozenM⟩ := hstill n hn
  obtain ⟨x₀, hx₀, hsame⟩ := running_of_still (hlive M).toShape ((hlive n).run hproceeds).toShape
    (hforwardM.trans hforward₁) (hfrozenM.trans hforwardM ((hlive n).run_frozen hwait) hforward₁)
    (hle.trans (hM n hn).le) hx hrunning
  have hover := hdeadline i p x₀ hx₀
  linarith

/-! ## Completion -/

/-- A model that leaves the active ones is complete. -/
theorem Move.completes (hmove : Move c s s') (hh : Histories c s) {k : ℕ}
    (hk : k ∈ s.activeMappedModels) (hk' : k ∉ s'.activeMappedModels) :
    ∃ m, s'.retiredMappedModels.get? k = some m ∧ m.isComplete s'.globalTimeUs = true := by
  cases hmove with
  | retired hstage hm htime hcomplete hsys =>
    next modelIdx rest m m' updated sys =>
    dsimp only at hk' ⊢
    rw [Dict.mem_erase, not_and_or, not_not] at hk'
    rcases hk' with rfl | hnot
    · exact ⟨m', Dict.get?_set_self .., hcomplete⟩
    · exact absurd hk hnot
  | injected => exact absurd (Dict.mem_set.mpr (.inr hk)) hk'
  | communicated hstage hsim htime =>
    exact absurd (((communicated_related hh.shape hsim htime).mem k).mpr hk) hk'
  | kept => exact absurd (Dict.mem_set.mpr (.inr hk)) hk'
  | ready => exact absurd hk hk'
  | finish => exact absurd hk hk'
  | proceed => exact absurd hk hk'
  | postponed => exact absurd hk hk'
  | nextTick => exact absurd hk hk'
  | finished => exact absurd hk hk'

/-- What the tick loop guarantees in a state: every active model has an input to go on with, there
were no more network simulations than communications to simulate, no step but an injection attempt
raises, and every active model is complete after finitely many steps, unless an injection attempt
ends the simulation before. -/
structure TickProgress (c : Config) (s : State) : Prop where
  current : s.stage = .loopHead → ∀ k m, s.activeMappedModels.get? k = some m →
    ∃ i p, FirstUnfinished m i ∧ m.inputStart i ≤ s.globalTimeUs ∧
      m.findCurrentPhase i = .ok (some p)
  calls : s.simulationCallCounter ≤ total commInstances s
  total : (∀ entry rest, s.stage ≠ .injecting (entry :: rest)) → ∃ s', step c s = .ok s'
  completes : ∀ k ∈ s.activeMappedModels, ∃ n s', stepsFrom c n s = .ok s' ∧
    ((∃ m, s'.retiredMappedModels.get? k = some m ∧ m.isComplete s'.globalTimeUs = true) ∨
      ∃ entry rest e, s'.stage = .injecting (entry :: rest) ∧ step c s' = .error e)

theorem Sound.completes (h : Sound c specs rows s) (hnet : Responsive c.network)
    (hrows : ∀ r ∈ rows, 0 < r.numInputs)
    (hcalls : s.simulationCallCounter ≤ total simulatedInstances s)
    (hfin : ∀ n s', stepsFrom c n s = .ok s' → s'.activeMappedModels.keys ≠ [] →
      s'.stage ≠ .finished) {k : ℕ} (hk : k ∈ s.activeMappedModels) :
    ∃ n s', stepsFrom c n s = .ok s' ∧
      ((∃ m, s'.retiredMappedModels.get? k = some m ∧ m.isComplete s'.globalTimeUs = true) ∨
        ∃ entry rest e, s'.stage = .injecting (entry :: rest) ∧ step c s' = .error e) := by
  by_cases hrun : ∀ n t, Machine.steps (step c) n s = .ok t → ∃ u, step c t = .ok u
  · obtain ⟨run⟩ := Machine.exists_run hrun
    have hgone := run_retires run h hnet hrows hcalls (fun n => hfin n _ (run.reached n)) k
    -- the last step before the model is gone retires it
    obtain ⟨n, hn, hbefore⟩ : ∃ n, k ∉ (run.state n).activeMappedModels ∧
        ∀ j < n, k ∈ (run.state j).activeMappedModels :=
      ⟨Nat.find hgone, Nat.find_spec hgone, fun j hj => not_not.mp (Nat.find_min hgone hj)⟩
    cases n with
    | zero =>
      rw [show run.state 0 = s from (Except.ok.inj (run.reached 0)).symm] at hn
      exact absurd hk hn
    | succ n =>
      have hs := run_sound run h hnet hrows n
      exact ⟨n + 1, _, run.reached (n + 1), .inl ((step_move (run.next n)).completes
        hs.histories (hbefore n (Nat.lt_succ_self n)) hn)⟩
  · push Not at hrun
    obtain ⟨n, t, ht, hraise⟩ := hrun
    have hsound : Sound c specs rows t := Machine.steps_invariant h
      (fun _ _ hs hstep => hs.move hnet hrows (step_move hstep)) ht
    refine ⟨n, t, ht, .inr ?_⟩
    by_contra hnot
    obtain ⟨u, hu⟩ := hsound.step_ok hnet fun entry rest hstage => by
      cases hstep : step c t with
      | ok u => exact hraise u hstep
      | error e => exact hnot ⟨entry, rest, e, hstage, hstep⟩
    exact hraise u hu

/-- **Progress.** With a network simulator that answers, the tick loop never gets stuck and
completes every model it injects. -/
theorem tick_loop_progresses {adjMatrix : ℕ → ℕ → ℚ} {threshold : ℕ} {s₀ : State}
    (hnet : Responsive c.network) (hrows : ∀ r ∈ rows, 0 < r.numInputs)
    (hstart : start specs adjMatrix rows threshold = .ok s₀) (h : Reachable c s₀ s) :
    TickProgress c s := by
  have hsound : ∀ {s}, Reachable c s₀ s → Sound c specs rows s := fun h =>
    h.invariant (sound_start c hstart) fun _ _ _ hs hmove => hs.move hnet hrows hmove
  have h0 : s₀.stage = .loopHead ∧ s₀.simulationCallCounter = 0 := by
    unfold start at hstart
    split at hstart
    · cases hstart
    · cases hstart
      exact ⟨rfl, rfl⟩
  have hcalls : s.simulationCallCounter ≤ total simulatedInstances s :=
    h.invariant (P := fun s => s.simulationCallCounter ≤ total simulatedInstances s)
      (h0.2 ▸ Nat.zero_le _) fun _ _ hreach hs hmove =>
        (hsound hreach).calls_move hnet hmove hs
  refine ⟨fun hstage k m hm => ?_, hcalls.trans (total_mono simulatedInstances_le s),
    (hsound h).step_ok hnet, fun k hk => ?_⟩
  · have hlive := (hsound h).unblocked.live k m hm
    obtain ⟨i, hi⟩ := (hsound h).unblocked.first k m hm fun l hl => by
      rw [hstage] at hl
      cases hl
    obtain ⟨p, hp⟩ := hlive.toConsistent.current_phase hi.before hi.unfinished
    exact ⟨i, p, hi, (hlive.inputTimes i hi.started).2, hp⟩
  · refine (hsound h).completes hnet hrows hcalls (fun n s' hs' hne hfin => hne ?_) hk
    exact (h.stepsFrom hs').finished_empty (by rw [h0.1]; decide) hfin

theorem smallConfig_responsive : Responsive smallConfig.network := by
  intro call inputs _
  have hget : ∀ key v, (Dict.ofList (inputs.map fun e => (e.2, (5 : ℚ)))).get? key = some v ↔
      key ∈ inputs.map Prod.snd ∧ v = 5 := by
    intro key v
    have hkeys := Dict.get?_comprehension (inputs.map Prod.snd) (fun _ => (5 : ℚ)) key
    unfold Dict.comprehension at hkeys
    rw [List.map_map] at hkeys
    refine (Eq.congr_left hkeys).trans ?_
    split
    · next hmem => simp [hmem, eq_comm]
    · next hmem => simp [hmem]
  refine ⟨_, rfl, fun key => ?_, fun key v hv => ?_⟩
  · rw [Dict.mem_iff]
    exact ⟨fun ⟨v, hv⟩ => ((hget key v).mp hv).1, fun hk => ⟨5, (hget key 5).mpr ⟨hk, rfl⟩⟩⟩
  · rw [((hget key v).mp hv).2]
    norm_num

/-- Both models of the small simulation get their turn; here the first one is active. -/
theorem tick_loop_progresses_small :
    ∃ s, smallRun 12 = .ok s ∧ s.stage = .loopHead ∧ s.activeMappedModels.keys = [0] ∧
      TickProgress smallConfig s := by
  have hrun : ((smallRun 12).toOption.map fun s => (s.stage, s.activeMappedModels.keys)) =
      some (.loopHead, [0]) := by decide +kernel
  obtain ⟨s, hs, heq⟩ := Option.map_eq_some_iff.mp hrun
  rw [toOption_eq_some] at hs
  obtain ⟨s₀, hs₀, hreach⟩ := smallRun_reachable hs
  rw [Prod.mk.injEq] at heq
  exact ⟨s, hs, heq.1, heq.2,
    tick_loop_progresses smallConfig_responsive (by decide) hs₀ hreach⟩

end GlobalManager

end ChipSim
