import ChipSim.MappedModel.RecordedStarts
import ChipSim.Orchestrator.Traffic

/-!
# A network simulator that answers

When the network simulator returns a positive latency for every phase it is given, communication
never raises, and every call gives a latency to a communication that had none.
-/

namespace ChipSim

open Lib

namespace Orchestrator

open MappedModel

/-- The network simulator returns a positive latency for every phase it is given. -/
def Responsive (network : ℕ → List SimulatorInput → NetworkStats) : Prop :=
  ∀ call inputs, inputs ≠ [] → ∃ d : PhaseLatencies, network call inputs = .latencies d ∧
    (∀ key, key ∈ d ↔ key ∈ inputs.map Prod.snd) ∧ ∀ key v, d.get? key = some v → 0 < v

variable {n calls : ℕ} {network : ℕ → List SimulatorInput → NetworkStats} {g : ℚ}
  {active active' : Dict ℕ MappedModel} {c : Dict ℕ MappedModel × List ActivePhase}

/-- An answer about a phase that was asked for is about a running communication. -/
theorem answers_running {k i p : ℕ} {v : ℚ} {m : MappedModel}
    (h : answers network k g m (.updateLatency i p v)) :
    ∃ call inputs d, inputs ≠ [] ∧ network call inputs = .latencies d ∧
      d.get? (k, i, p) = some v ∧ ((k, i, p) ∈ inputs.map Prod.snd → m.RunningComm i p) := by
  obtain ⟨call, inputs, d, hne, hd, hv, hrunning⟩ := h
  refine ⟨call, inputs, d, hne, hd, hv, fun hmem => ?_⟩
  obtain ⟨e, he, hkey⟩ := List.mem_map.mp hmem
  have hrunning' := hrunning e he (by rw [hkey])
  rwa [hkey] at hrunning'

/-- Its latencies are those of running communications. -/
theorem Responsive.simulated (hnet : Responsive network) (k : ℕ) (g : ℚ) (m : MappedModel)
    (op : TickOp) (h : answers network k g m op) : simulated g m op := by
  cases op with
  | updateLatency i p v =>
    obtain ⟨call, inputs, d, hne, hd, hv, hrunning⟩ := answers_running h
    obtain ⟨d', hd', hkeys, hpos⟩ := hnet call inputs hne
    rw [hd, NetworkStats.latencies.injEq] at hd'
    subst hd'
    exact ⟨hpos _ _ hv, hrunning ((hkeys _).mp (Dict.mem_of_get? hv))⟩
  | activePhases | phaseTiming | syncLayers | coActiveTraffic => trivial

/-- The network simulator returns latencies of phases it was given only, and none is negative. -/
def Sensible (network : ℕ → List SimulatorInput → NetworkStats) : Prop :=
  ∀ call inputs d, inputs ≠ [] → network call inputs = .latencies d →
    ∀ key v, d.get? key = some v → key ∈ inputs.map Prod.snd ∧ 0 ≤ v

theorem Responsive.sensible (hnet : Responsive network) : Sensible network := by
  intro call inputs d hne hd key v hv
  obtain ⟨d', hd', hkeys, hpos⟩ := hnet call inputs hne
  rw [hd, NetworkStats.latencies.injEq] at hd'
  subst hd'
  exact ⟨(hkeys key).mp (Dict.mem_of_get? hv), (hpos key v hv).le⟩

theorem Sensible.measured (hnet : Sensible network) (k : ℕ) (g : ℚ) (m : MappedModel)
    (op : TickOp) (h : answers network k g m op) : measured g m op := by
  cases op with
  | updateLatency i p v =>
    obtain ⟨call, inputs, d, hne, hd, hv, hrunning⟩ := answers_running h
    obtain ⟨hmem, hnonneg⟩ := hnet call inputs d hne hd _ v hv
    exact ⟨hnonneg, hrunning hmem⟩
  | activePhases | phaseTiming | syncLayers | coActiveTraffic => trivial

/-- The change of a model that can go on, within a tick. -/
abbrev Proceeds (g : ℚ) (_ : ℕ) (m m' : MappedModel) : Prop := Run simulated g m g m'

theorem Responsive.proceeds (hnet : Responsive network)
    (h : Dict.Related (Operated network g) active active') :
    Dict.Related (Proceeds g) active active' :=
  h.mono fun k _ _ hrun => hrun.mono (hnet.simulated k)

theorem live_of_proceeds (hlive : ∀ k m, active.get? k = some m → Live g m)
    (h : Dict.Related (Proceeds g) active active') :
    ∀ k m, active'.get? k = some m → Live g m := by
  intro k m' hm'
  obtain ⟨m, hm, hrun⟩ := h.values k m' hm'
  exact (hlive k m hm).run hrun

/-! ## Communication does not raise -/

theorem RunningComm.updatePhaseLatency_ok {m : MappedModel} {i p : ℕ} (h : m.RunningComm i p)
    (v : ℚ) : ∃ m', m.updatePhaseLatency i p v g = .ok m' := by
  obtain ⟨_, x, -, -, hx, -⟩ := h
  have hi : ∃ d, m.phaseInstances.get? i = some d := by
    unfold instance? Dict.get2? at hx
    cases hd : m.phaseInstances.get? i with
    | none => rw [hd] at hx; cases hx
    | some d => exact ⟨d, rfl⟩
  obtain ⟨d, hd⟩ := hi
  unfold updatePhaseLatency
  rw [hd, hx]
  exact ⟨_, rfl⟩

theorem updatePhaseLatencies_ok {phases : List ActivePhase} {d : PhaseLatencies} {call : ℕ}
    (hne : phases ≠ [])
    (hd : network call (phases.map ActivePhase.simulatorInput) = .latencies d)
    (hkeys : ∀ key, key ∈ d ↔ key ∈ (phases.map ActivePhase.simulatorInput).map Prod.snd)
    (hsim : Simulating phases active) :
    ∃ active', updatePhaseLatencies g active d = .ok active' := by
  have hloop := foldlM_total (f := updateLatency g) (l := d.entries) (Simulating phases) hsim ?_
  · obtain ⟨active', hactive', -⟩ := hloop
    unfold updatePhaseLatencies
    rw [hactive']
    exact ⟨_, rfl⟩
  · intro e he s hs
    have hkey := (hkeys e.1).mp (Dict.mem_of_get? (Dict.mem_entries_iff.mp he))
    obtain ⟨_, hinput, hekey⟩ := List.mem_map.mp hkey
    obtain ⟨a, ha, rfl⟩ := List.mem_map.mp hinput
    obtain ⟨m, hm, hrunning⟩ := hs a ha
    obtain ⟨m', hm'⟩ := RunningComm.updatePhaseLatency_ok (g := g) hrunning e.2
    have hok : updateLatency g s e = .ok (s.set a.modelIdx m') := by
      unfold updateLatency
      rw [← hekey]
      dsimp only [ActivePhase.simulatorInput]
      rw [hm]
      dsimp only
      rw [hm']
      rfl
    exact ⟨_, hok, (updateLatency_related hne hd he hs hok).2⟩

/-- **Totality.** The communication of a tick does not raise. -/
theorem simulateCommunication_ok (hnet : Responsive network)
    (hs : ∀ k m, active.get? k = some m → Shape m)
    (ht : ∀ k m, active.get? k = some m → ValidTraffic n m) :
    ∃ r, simulateCommunication n network active calls g = .ok r := by
  obtain ⟨c, hc⟩ := collectActivePhases_ok (g := g) hs ht
  unfold simulateCommunication
  rw [hc, ok_bind]
  split
  · exact ⟨_, rfl⟩
  · next hneeds =>
    rw [not_or, not_not] at hneeds
    have hne := needsInitialSimulation_ne_nil hneeds.2
    obtain ⟨d, hd, hkeys, -⟩ := hnet (calls + 1) (c.2.map ActivePhase.simulatorInput)
      (by simpa using hne)
    have hsim : Simulating c.2 (recordCoActive c.1 c.2 (calls + 1) g) :=
      (simulating_collected hs hc).recordCoActive
    obtain ⟨active', hactive'⟩ := updatePhaseLatencies_ok (g := g) hne hd hkeys hsim
    unfold updateSimulationResults
    rw [hd]
    dsimp only
    rw [hactive']
    exact ⟨_, rfl⟩

/-! ## Every call simulates something new -/

/-- Scaled traffic is only sent where there is traffic. -/
theorem hasNonzeroTraffic_of_scaled {traffic : Option TrafficMatrixDict} {f : ℚ}
    (h : hasNonzeroTraffic (getPhaseTraffic traffic f) = true) :
    hasNonzeroTraffic (traffic.getD .empty) = true := by
  unfold getPhaseTraffic at h
  split at h
  · exact h
  · next t =>
    split at h
    · exact h
    · unfold hasNonzeroTraffic at h ⊢
      obtain ⟨dests, hdests, hany⟩ := List.any_eq_true.mp h
      obtain ⟨src, hsrc⟩ := Dict.mem_values.mp hdests
      rw [Dict.get?_mapValues] at hsrc
      obtain ⟨dests', hdests', rfl⟩ := Option.map_eq_some_iff.mp hsrc
      obtain ⟨amount, hamount, -⟩ := List.any_eq_true.mp hany
      obtain ⟨dst, hdst⟩ := Dict.mem_values.mp hamount
      rw [Dict.get?_filterMapValues] at hdst
      obtain ⟨amount', hamount', hpos⟩ := Option.bind_eq_some_iff.mp hdst
      have hpos' : 0 < amount' := by
        by_contra hzero
        rw [if_neg hzero] at hpos
        cases hpos
      exact List.any_eq_true.mpr ⟨dests', Dict.mem_values.mpr ⟨src, hdests'⟩,
        List.any_eq_true.mpr ⟨amount', Dict.mem_values.mpr ⟨dst, hamount'⟩, by simpa using hpos'⟩⟩

/-- A collected phase belongs to a communication with something to send. -/
theorem hasTraffic_collected (hs : ∀ k m, active.get? k = some m → Shape m)
    (h : collectActivePhases n active g = .ok c) {a : ActivePhase} (ha : a ∈ c.2) {m : MappedModel}
    (hm : c.1.get? a.modelIdx = some m) : m.hasTraffic a.phaseId = true := by
  obtain ⟨e, he, m', listed, hlisted, x, hx, hc⟩ := (mem_collectActivePhases h a).mp ha
  have hget := Dict.mem_entries_iff.mp he
  obtain ⟨m'', hm'', listed', hlisted'⟩ := (collectActivePhases_related h).get? hget
  rw [hlisted, Except.ok.injEq, Prod.mk.injEq] at hlisted'
  rw [hc.modelIdx, hm'', Option.some.injEq, ← hlisted'.1] at hm
  subst hm
  obtain ⟨phase, hphase, hactive⟩ := (getActivePhases_listed (hs e.1 e.2 hget) hlisted x hx).active
  have hsame := hphase.symm.trans hc.phase
  rw [Option.some.injEq] at hsame
  have hcomm : phase.isCompute = false := hsame ▸ hc.comm
  obtain ⟨f, -, hnz⟩ := hactive.scaled hcomm
  unfold PhaseSchedule.hasTraffic
  rw [hc.phaseId, hphase, Option.any_some, hcomm, hasNonzeroTraffic_of_scaled hnz]
  rfl

/-- Instance `(i, p)` of model `k` has a latency. -/
def HasLatency (k i p : ℕ) (active : Dict ℕ MappedModel) : Prop :=
  ∃ m x, active.get? k = some m ∧ m.instance? i p = some x ∧ x.latencyUs ≠ 0

theorem HasLatency.proceeds {k i p : ℕ} (h : HasLatency k i p active)
    (hlive : ∀ k m, active.get? k = some m → Live g m) (hcomm : ∀ m, active.get? k = some m →
      ∃ phase, m.phases.get? p = some phase ∧ phase.isCompute = false)
    (hrel : Dict.Related (Proceeds g) active active') : HasLatency k i p active' := by
  obtain ⟨m, x, hm, hx, hlat⟩ := h
  obtain ⟨m', hm', hrun⟩ := hrel.get? hm
  obtain ⟨phase, hphase, hc⟩ := hcomm m hm
  obtain ⟨y, hy, -, hlat'⟩ := ((hlive k m hm).run_forward hrun).instances i p x hx
  exact ⟨m', y, hm', hy, hlat' phase hphase hc hlat⟩

/-- A recorded latency stays until the end of the tick. -/
theorem hasLatency_update {phases : List ActivePhase} {d : PhaseLatencies} {call : ℕ}
    (hnet : Responsive network) (hne : phases ≠ [])
    (hd : network call (phases.map ActivePhase.simulatorInput) = .latencies d)
    (hsim : Simulating phases active) (hlive : ∀ k m, active.get? k = some m → Live g m)
    (h : updatePhaseLatencies g active d = .ok active') {a : ActivePhase} (ha : a ∈ phases) :
    HasLatency a.modelIdx a.inputIdx a.phaseId active' := by
  obtain ⟨d', hd', hkeys, hpos⟩ := hnet call (phases.map ActivePhase.simulatorInput)
    (by simpa using hne)
  rw [hd, NetworkStats.latencies.injEq] at hd'
  subst hd'
  obtain ⟨updated, hupdated, h⟩ := bind_eq_ok.mp h
  cases h
  have hkey : (a.modelIdx, a.inputIdx, a.phaseId) ∈ d :=
    (hkeys _).mpr (List.mem_map.mpr ⟨a.simulatorInput, List.mem_map_of_mem ha, rfl⟩)
  obtain ⟨v, hv⟩ := Dict.mem_iff.mp hkey
  -- the loop keeps the collected phases running, and the entry of `a` gives it its latency
  have hloop := foldlM_establish
    (fun s => Simulating phases s ∧ ∀ k m, s.get? k = some m → Live g m)
    (HasLatency a.modelIdx a.inputIdx a.phaseId) hupdated ⟨hsim, hlive⟩ ?_
    (Dict.mem_entries_iff.mpr hv) ?_
  · obtain ⟨m, x, hm, hx, hlat⟩ := hloop
    refine ⟨m.syncPhaseMetricsToLayers, x, ?_, hx, hlat⟩
    rw [Dict.get?_mapValues, hm]
    rfl
  · intro e he s s' ⟨hs, hl⟩ hstep
    obtain ⟨hrel, hs'⟩ := updateLatency_related hne hd he hs hstep
    have hproceeds := hnet.proceeds hrel
    refine ⟨⟨hs', live_of_proceeds hl hproceeds⟩, fun hlat => hlat.proceeds hl ?_ hproceeds⟩
    intro m hm
    obtain ⟨m', hm', phase, -, hphase, hcomm, -⟩ := hs a ha
    rw [hm, Option.some.injEq] at hm'
    exact ⟨phase, hm' ▸ hphase, hcomm⟩
  · intro s s' ⟨hs, hl⟩ hstep
    obtain ⟨m, hm, hrunning⟩ := hs a ha
    unfold updateLatency at hstep
    dsimp only at hstep
    rw [hm] at hstep
    obtain ⟨m', hm', hstep⟩ := bind_eq_ok.mp hstep
    cases hstep
    obtain ⟨phase, x, -, -, hx, hstate⟩ := hrunning
    refine ⟨m', x.updateLatency v g, Dict.get?_set_self .., ?_, ?_⟩
    · unfold updatePhaseLatency at hm'
      rw [hx] at hm'
      split at hm'
      · cases hm'
      · cases hm'
        rw [instance?_setInstance, if_pos ⟨rfl, rfl⟩]
    · exact updateLatency_ne_zero (hpos _ _ hv) hstate
        ((hl _ m hm).running _ _ x hx hstate)
        ((hl _ m hm).latency _ _ x hx (by rw [hstate]; decide))

/-- **Calls.** Every call of the network simulator simulates a communication that had no latency. -/
theorem simulateCommunication_calls (hnet : Responsive network)
    (hlive : ∀ k m, active.get? k = some m → Live g m) {r : Dict ℕ MappedModel × ℕ}
    (h : simulateCommunication n network active calls g = .ok r) :
    r.2 = calls ∨ r.2 = calls + 1 ∧
      Dict.sumOf simulatedInstances active < Dict.sumOf simulatedInstances r.1 := by
  have hs : ∀ k m, active.get? k = some m → Shape m := fun k m hm => (hlive k m hm).toShape
  have hrel := hnet.proceeds (simulateCommunication_related hs h)
  cases simulateCommunication_cases h with
  | quiet => exact .inl rfl
  | simulated hcollect hneeds hanswer hupdate =>
    next c d active' =>
    refine .inr ⟨rfl, ?_⟩
    obtain ⟨a, ha, hany⟩ := List.any_eq_true.mp hneeds
    have hne := needsInitialSimulation_ne_nil hneeds
    have hsim : Simulating c.2 (recordCoActive c.1 c.2 (calls + 1) g) :=
      (simulating_collected hs hcollect).recordCoActive
    have hbefore : Dict.Related (Proceeds g) active c.1 := hnet.proceeds
      ((collectActivePhases_related hcollect).mono fun _ _ _ ⟨_, hl⟩ => activePhases_run hl)
    have hrecord : Dict.Related (Proceeds g) c.1 (recordCoActive c.1 c.2 (calls + 1) g) :=
      hnet.proceeds (recordCoActive_related c.1 c.2 (calls + 1))
    have hafter : Dict.Related (Proceeds g) c.1 active' := hrecord.trans
      (hnet.proceeds (updatePhaseLatencies_related hne hanswer hsim hupdate))
      fun _ _ _ _ h₁ h₂ => Run.trans h₁ h₂
    have hlive₁ := live_of_proceeds hlive hbefore
    -- the model of a phase without latency, before the tick, after collecting and in the end
    obtain ⟨m₁, hm₁, x, hx, hx0⟩ : ∃ m, c.1.get? a.modelIdx = some m ∧
        ∃ x, m.instance? a.inputIdx a.phaseId = some x ∧ x.latencyUs = 0 := by
      cases hm : c.1.get? a.modelIdx with
      | none => rw [hm] at hany; cases hany
      | some m =>
        rw [hm, Option.bind_some] at hany
        cases hx : m.instance? a.inputIdx a.phaseId with
        | none => rw [hx] at hany; cases hany
        | some x => exact ⟨m, rfl, x, hx, by simpa [hx] using hany⟩
    obtain ⟨m₀, hm₀, hrun₀⟩ := hbefore.values _ m₁ hm₁
    obtain ⟨m₂, y, hm₂, hy, hy0⟩ := hasLatency_update hnet hne hanswer hsim
      (live_of_proceeds hlive₁ hrecord) hupdate ha
    obtain ⟨m₂', hm₂', hrun₁⟩ := hafter.get? hm₁
    rw [hm₂, Option.some.injEq] at hm₂'
    subst hm₂'
    have hgrows := ((hlive₁ _ _ hm₁).run_forward hrun₁).simulatedInstances_lt
      (hlive₁ _ _ hm₁).toShape hx hy (hasTraffic_collected hs hcollect ha hm₁) hx0 hy0
    refine hrel.sumOf_lt (fun k m m' hm hrun => ?_) hm₀ hm₂ ?_
    · exact ((hlive k m hm).run_forward hrun).simulatedInstances_le
    · exact lt_of_le_of_lt ((hlive _ _ hm₀).run_forward hrun₀).simulatedInstances_le hgrows

/-! ## Ticks without a call -/

theorem simulateCommunication_quiet {r : Dict ℕ MappedModel × ℕ}
    (h : simulateCommunication n network active calls g = .ok r) (hcalls : r.2 = calls) :
    ∃ phases, collectActivePhases n active g = .ok (r.1, phases) ∧
      needsInitialSimulation r.1 phases = false := by
  cases simulateCommunication_cases h with
  | quiet hcollect hquiet => exact ⟨_, hcollect, hquiet⟩
  | simulated => exact absurd hcalls (Nat.succ_ne_self calls)

/-- **Waiting.** In a tick without a call an unfinished model goes on, or it waits for a running
phase whose time has not passed. -/
theorem quiet_progress (hlive : ∀ k m, active.get? k = some m → Live g m)
    (ht : ∀ k m, active.get? k = some m → ValidTraffic n m)
    (hcollect : collectActivePhases n active g = .ok c)
    (hquiet : needsInitialSimulation c.1 c.2 = false) {k i : ℕ} {m m' : MappedModel}
    (hm : active.get? k = some m) (hm' : c.1.get? k = some m') (hfirst : FirstUnfinished m i) :
    m.stateRanks < m'.stateRanks ∨ ∃ p x, m'.instance? i p = some x ∧ x.state = .running ∧
      g < x.startTimeUs + x.latencyUs := by
  have hl := hlive k m hm
  obtain ⟨m'', hm'', listed, hlisted⟩ := (collectActivePhases_related hcollect).get? hm
  rw [hm', Option.some.injEq] at hm''
  subst hm''
  obtain ⟨p, hp⟩ := hl.toConsistent.current_phase hfirst.before hfirst.unfinished
  obtain ⟨phase, x, o, hphase, hx, ho, hprogress, hin⟩ :=
    hl.getActivePhases_progress hfirst hp hlisted
  have hadv : Advances simulated g m m' := getActivePhases_advances hlisted
  cases hprogress with
  | further hlt =>
    have hrun : Run simulated g m g m' :=
      Run.single (show simulated g m .activePhases from trivial) (tick_activePhases hlisted)
    exact .inl ((hl.run_forward hrun).stateRanks_lt hl.toShape hx ho hlt)
  | early hstate htime => exact .inr ⟨p, o.inst, ho, hstate, htime⟩
  | listed hcomm hstate hlat hactive =>
    -- such a phase would have been collected and simulated
    have hlist := getActivePhases_listed hl.toShape hlisted o.inst (hin hactive)
    obtain ⟨phase', hphase', hinst⟩ := hlist.active
    have hsame : phase' = phase := by
      rw [((hl.toShape.advances hadv).ids i p o.inst ho).1, hadv.schedule, hphase,
        Option.some.injEq] at hphase'
      exact hphase'.symm
    have hcomm' : phase'.isCompute = false := hsame ▸ hcomm
    obtain ⟨f, hf, hnz⟩ := hinst.scaled hcomm'
    obtain ⟨matrix, hmatrix⟩ := createTrafficMatrix_ok
      (validIds_getPhaseTraffic
        (((ht k m hm).of_schedule hadv.schedule) _ _ · hphase') f) k o.inst.inputIdx
      (ActivePhase.layerIdx phase')
    let a : ActivePhase := ⟨k, o.inst.inputIdx, o.inst.phaseId, phase', matrix⟩
    have ha : a ∈ c.2 := (mem_collectActivePhases hcollect a).mpr
      ⟨(k, m), Dict.mem_entries_iff.mpr hm, m', listed, hlisted, o.inst, hin hactive,
        hphase', hcomm', ⟨_, hf, hnz, hmatrix⟩, rfl, rfl, rfl⟩
    have hneeds : needsInitialSimulation c.1 c.2 = true := by
      refine List.any_eq_true.mpr ⟨a, ha, ?_⟩
      rw [hm', Option.bind_some, hlist.stored]
      simpa using hlat
    rw [hquiet] at hneeds
    cases hneeds

end Orchestrator

end ChipSim
