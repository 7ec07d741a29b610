import ChipSim.Lib.DictLoops
import ChipSim.MappedModel.ActivePhases
import ChipSim.Orchestrator

/-!
# What the orchestrator does to the models

The phases handed to the network simulator are running communications of the models. Whatever the
simulator returns, the orchestrator changes a model only by the operations of `MappedModel.Run` at
the current time.
-/

namespace ChipSim

open Lib

namespace Orchestrator

open MappedModel

variable {n calls : ℕ} {network : ℕ → List SimulatorInput → NetworkStats} {g : ℚ}
  {active active' : Dict ℕ MappedModel} {c : Dict ℕ MappedModel × List ActivePhase}

/-! ## The collected phases -/

/-- An active phase collected from a listed instance of model `k`. -/
structure CollectedFrom (n k : ℕ) (m : MappedModel) (x : PhaseInstance) (a : ActivePhase) :
    Prop where
  phase : m.phases.get? x.phaseId = some a.phase
  comm : a.phase.isCompute = false
  traffic : ∃ t, x.scaledTraffic = some t ∧ hasNonzeroTraffic t = true ∧
    createTrafficMatrix n t k x.inputIdx (ActivePhase.layerIdx a.phase) = .ok a.matrix
  modelIdx : a.modelIdx = k
  inputIdx : a.inputIdx = x.inputIdx
  phaseId : a.phaseId = x.phaseId

theorem mem_collectPhases {k : ℕ} {m : MappedModel} {listed : List PhaseInstance}
    {phases : List ActivePhase} (h : collectPhases n k m listed = .ok phases) (a : ActivePhase) :
    a ∈ phases ↔ ∃ x ∈ listed, CollectedFrom n k m x a := by
  have hmem := mem_foldlM id (CollectedFrom n k m) h ?_ a
  · simpa using hmem
  · intro x _ acc acc' hstep b
    obtain ⟨phase, hphase, hstep⟩ := bind_eq_ok.mp hstep
    rw [getItem_eq_ok] at hphase
    -- any phase collected from this instance has these data
    have hnot : ∀ {acc : List ActivePhase}, (∀ t, x.scaledTraffic = some t →
        phase.isCompute = false → hasNonzeroTraffic t = false) →
          (b ∈ acc ↔ b ∈ acc ∨ CollectedFrom n k m x b) := by
      intro acc hzero
      refine ⟨.inl, fun hb => hb.elim id fun hc => ?_⟩
      obtain ⟨t, ht, hnz, -⟩ := hc.traffic
      have hsame := hc.phase.symm.trans hphase
      rw [Option.some.injEq] at hsame
      rw [hzero t ht (hsame ▸ hc.comm)] at hnz
      cases hnz
    split at hstep
    · next traffic hcomm htraffic =>
      split at hstep
      · next hnz =>
        obtain ⟨matrix, hmatrix, hstep⟩ := bind_eq_ok.mp hstep
        cases hstep
        simp only [id, List.mem_append, List.mem_singleton]
        refine or_congr_right ⟨?_, fun hc => ?_⟩
        · rintro rfl
          exact ⟨hphase, hcomm, ⟨traffic, htraffic, hnz, hmatrix⟩, rfl, rfl, rfl⟩
        · obtain ⟨t, ht, -, hm⟩ := hc.traffic
          have hsame := hc.phase.symm.trans hphase
          rw [Option.some.injEq] at hsame
          rw [htraffic, Option.some.injEq] at ht
          rw [← ht, hsame, hmatrix, Except.ok.injEq] at hm
          obtain ⟨bm, bi, bp, bphase, bmatrix⟩ := b
          obtain ⟨-, -, -, h₁, h₂, h₃⟩ := hc
          dsimp only at h₁ h₂ h₃ hm hsame
          rw [h₁, h₂, h₃, hsame, hm]
      · next hnz =>
        cases hstep
        refine hnot fun t ht _ => ?_
        rw [htraffic, Option.some.injEq] at ht
        rw [← ht]
        simpa using hnz
    · next hother =>
      cases hstep
      exact hnot fun t ht hc => absurd ht (hother t hc)

/-- The collected phases are those of all models. -/
theorem mem_collectActivePhases (h : collectActivePhases n active g = .ok c) (a : ActivePhase) :
    a ∈ c.2 ↔ ∃ e ∈ active.entries, ∃ m' listed, e.2.getActivePhases g = .ok (m', listed) ∧
      ∃ x ∈ listed, CollectedFrom n e.1 m' x a := by
  have hmem := mem_foldlM Prod.snd (fun (e : ℕ × MappedModel) a => ∃ m' listed,
    e.2.getActivePhases g = .ok (m', listed) ∧ ∃ x ∈ listed, CollectedFrom n e.1 m' x a) h ?_ a
  · simpa using hmem
  · intro e _ acc acc' hstep b
    obtain ⟨r, hr, hstep⟩ := bind_eq_ok.mp hstep
    obtain ⟨phases, hphases, hstep⟩ := bind_eq_ok.mp hstep
    cases hstep
    rw [List.mem_append, mem_collectPhases hphases]
    refine or_congr_right ⟨fun hx => ⟨r.1, r.2, hr, hx⟩, ?_⟩
    rintro ⟨m', listed, hr', hx⟩
    rw [hr, Except.ok.injEq] at hr'
    rw [hr']
    exact hx

theorem collectActivePhases_related (h : collectActivePhases n active g = .ok c) :
    Dict.Related (fun _ m m' => ∃ listed, m.getActivePhases g = .ok (m', listed)) active c.1 := by
  refine Dict.Related.of_loop Prod.fst rfl ?_ h
  intro e _ acc acc' hstep
  obtain ⟨r, hr, hstep⟩ := bind_eq_ok.mp hstep
  obtain ⟨phases, -, hstep⟩ := bind_eq_ok.mp hstep
  cases hstep
  exact ⟨r.1, ⟨r.2, hr⟩, rfl⟩

/-- All collected phases are running communications of the models. -/
def Simulating (phases : List ActivePhase) (active : Dict ℕ MappedModel) : Prop :=
  ∀ a ∈ phases, ∃ m, active.get? a.modelIdx = some m ∧ m.RunningComm a.inputIdx a.phaseId

theorem simulating_collected (hs : ∀ k m, active.get? k = some m → Shape m)
    (h : collectActivePhases n active g = .ok c) : Simulating c.2 c.1 := by
  intro a ha
  obtain ⟨e, he, m', listed, hlisted, x, hx, hc⟩ := (mem_collectActivePhases h a).mp ha
  have hget := Dict.mem_entries_iff.mp he
  obtain ⟨m'', hm'', listed', hlisted'⟩ := (collectActivePhases_related h).get? hget
  rw [hlisted, Except.ok.injEq, Prod.mk.injEq] at hlisted'
  rw [hc.modelIdx, hc.inputIdx, hc.phaseId, hm'', ← hlisted'.1]
  have hlist := getActivePhases_listed (hs e.1 e.2 hget) hlisted x hx
  obtain ⟨phase, hphase, hactive⟩ := hlist.active
  have hsame := hphase.symm.trans hc.phase
  rw [Option.some.injEq] at hsame
  exact ⟨m', rfl, phase, x, hphase, hsame ▸ hc.comm, hlist.stored, hactive.running⟩

theorem needsInitialSimulation_ne_nil {phases : List ActivePhase}
    (h : needsInitialSimulation active phases = true) : phases ≠ [] := by
  rintro rfl
  cases h

/-! ## The operations -/

/-- The operations on model `k` with this network simulator: latencies are answers to a call for
running communications. -/
def answers (network : ℕ → List SimulatorInput → NetworkStats) (k : ℕ) : Guard
  | _, m, .updateLatency i p newLatency => ∃ call inputs d, inputs ≠ [] ∧
      network call inputs = .latencies d ∧ d.get? (k, i, p) = some newLatency ∧
      ∀ e ∈ inputs, e.2.1 = k → m.RunningComm e.2.2.1 e.2.2.2
  | _, _, _ => True

/-- The change of one model within a tick. -/
abbrev Operated (network : ℕ → List SimulatorInput → NetworkStats) (g : ℚ) (k : ℕ)
    (m m' : MappedModel) : Prop := Run (answers network k) g m g m'

theorem Operated.refl (k : ℕ) (m : MappedModel) : Operated network g k m m := .start

theorem Operated.trans (k : ℕ) (u v w : MappedModel) (h₁ : Operated network g k u v)
    (h₂ : Operated network g k v w) : Operated network g k u w := Run.trans h₁ h₂

/-- The two ways a tick can go. -/
inductive Communication (n : ℕ) (network : ℕ → List SimulatorInput → NetworkStats)
    (active : Dict ℕ MappedModel) (calls : ℕ) (g : ℚ) : Dict ℕ MappedModel × ℕ → Prop
  | quiet {c : Dict ℕ MappedModel × List ActivePhase}
      (hcollect : collectActivePhases n active g = .ok c)
      (hquiet : needsInitialSimulation c.1 c.2 = false) :
      Communication n network active calls g (c.1, calls)
  | simulated {c : Dict ℕ MappedModel × List ActivePhase} {d : PhaseLatencies}
      {active' : Dict ℕ MappedModel} (hcollect : collectActivePhases n active g = .ok c)
      (hneeds : needsInitialSimulation c.1 c.2 = true)
      (hanswer : network (calls + 1) (c.2.map ActivePhase.simulatorInput) = .latencies d)
      (hupdate : updatePhaseLatencies g (recordCoActive c.1 c.2 (calls + 1) g) d = .ok active') :
      Communication n network active calls g (active', calls + 1)

theorem simulateCommunication_cases {r : Dict ℕ MappedModel × ℕ}
    (h : simulateCommunication n network active calls g = .ok r) :
    Communication n network active calls g r := by
  unfold simulateCommunication at h
  obtain ⟨c, hc, h⟩ := bind_eq_ok.mp h
  split at h
  · next hquiet =>
    cases h
    refine .quiet hc ?_
    rcases hquiet with hnil | hquiet
    · rw [List.isEmpty_iff.mp hnil]
      rfl
    · simpa using hquiet
  · next hneeds =>
    rw [not_or, not_not] at hneeds
    obtain ⟨a, ha, h⟩ := bind_eq_ok.mp h
    cases h
    unfold updateSimulationResults at ha
    split at ha
    · cases ha
    · cases ha
    · cases ha
    · next d hd => exact .simulated hc hneeds.2 hd ha

theorem RunningComm.update {m m' : MappedModel} {i p j q : ℕ} {v : ℚ}
    (h : m.RunningComm j q) (hm' : m.updatePhaseLatency i p v g = .ok m') :
    m'.RunningComm j q := by
  obtain ⟨phase, x, hphase, hcomm, hx, hs⟩ := h
  unfold updatePhaseLatency at hm'
  split at hm'
  · cases hm'
  · split at hm'
    · cases hm'
      exact ⟨phase, x, hphase, hcomm, hx, hs⟩
    · next y hy =>
      cases hm'
      by_cases hjq : j = i ∧ q = p
      · obtain ⟨rfl, rfl⟩ := hjq
        rw [hx, Option.some.injEq] at hy
        subst hy
        refine ⟨phase, x.updateLatency v g, hphase, hcomm, ?_, ?_⟩
        · rw [instance?_setInstance, if_pos ⟨rfl, rfl⟩]
        · rw [updateLatency_state, hs]
      · refine ⟨phase, x, hphase, hcomm, ?_, hs⟩
        rw [instance?_setInstance, if_neg hjq, hx]

theorem recordCoActive_related (active : Dict ℕ MappedModel) (phases : List ActivePhase)
    (callId : ℕ) : Dict.Related (Operated network g) active
      (recordCoActive active phases callId g) := by
  refine Dict.Related.mapValues fun k m _ => ?_
  split
  · exact Run.single (show answers network k g m (.coActiveTraffic callId _) from trivial) rfl
  · exact .start

theorem Simulating.recordCoActive {phases phases' : List ActivePhase} {callId : ℕ}
    (h : Simulating phases active) :
    Simulating phases (recordCoActive active phases' callId g) := by
  intro a ha
  obtain ⟨m, hm, hrunning⟩ := h a ha
  unfold Orchestrator.recordCoActive
  rw [Dict.get?_mapValues, hm, Option.map_some]
  refine ⟨_, rfl, ?_⟩
  split <;> exact hrunning

/-- One recorded latency is an operation of its model, and nothing stops running. -/
theorem updateLatency_related {phases : List ActivePhase} {d : PhaseLatencies} {call : ℕ}
    (hne : phases ≠ [])
    (hd : network call (phases.map ActivePhase.simulatorInput) = .latencies d)
    {e : (ℕ × ℕ × ℕ) × ℚ} (he : e ∈ d.entries) (hsim : Simulating phases active)
    (h : updateLatency g active e = .ok active') :
    Dict.Related (Operated network g) active active' ∧ Simulating phases active' := by
  unfold updateLatency at h
  split at h
  · cases h
    exact ⟨Dict.Related.refl Operated.refl _, hsim⟩
  · next m hm =>
    obtain ⟨m', hm', h⟩ := bind_eq_ok.mp h
    cases h
    have hok : answers network e.1.1 g m (.updateLatency e.1.2.1 e.1.2.2 e.2) := by
      refine ⟨call, _, d, by simpa using hne, hd, Dict.mem_entries_iff.mp he,
        fun input hinput hk => ?_⟩
      obtain ⟨a, ha, rfl⟩ := List.mem_map.mp hinput
      obtain ⟨ma, hma, hrunning⟩ := hsim a ha
      rw [show a.modelIdx = e.1.1 from hk, hm, Option.some.injEq] at hma
      rw [hma]
      exact hrunning
    refine ⟨Dict.Related.set Operated.refl hm (Run.single hok hm'), fun a ha => ?_⟩
    obtain ⟨ma, hma, hrunning⟩ := hsim a ha
    rw [Dict.get?_set]
    by_cases hk : a.modelIdx = e.1.1
    · rw [if_pos hk]
      rw [hk, hm, Option.some.injEq] at hma
      exact ⟨m', rfl, RunningComm.update (hma ▸ hrunning) hm'⟩
    · rw [if_neg hk]
      exact ⟨ma, hma, hrunning⟩

theorem updatePhaseLatencies_related {phases : List ActivePhase} {d : PhaseLatencies} {call : ℕ}
    (hne : phases ≠ [])
    (hd : network call (phases.map ActivePhase.simulatorInput) = .latencies d)
    (hsim : Simulating phases active) (h : updatePhaseLatencies g active d = .ok active') :
    Dict.Related (Operated network g) active active' := by
  obtain ⟨a, ha, h⟩ := bind_eq_ok.mp h
  cases h
  have hloop : Dict.Related (Operated network g) active a ∧ Simulating phases a := by
    refine foldlM_invariant
      (fun s => Dict.Related (Operated network g) active s ∧ Simulating phases s) ha
      ⟨Dict.Related.refl Operated.refl active, hsim⟩ ?_
    intro e he s s' hs hstep
    obtain ⟨hrel, hsim'⟩ := updateLatency_related hne hd he hs.2 hstep
    exact ⟨hs.1.trans hrel Operated.trans, hsim'⟩
  refine hloop.1.trans (Dict.Related.mapValues fun k m _ => ?_) Operated.trans
  exact Run.single (show answers network k g m .syncLayers from trivial) rfl

theorem tick_activePhases {m m' : MappedModel} {listed : List PhaseInstance}
    (h : m.getActivePhases g = .ok (m', listed)) : m.tick g .activePhases = .ok m' := by
  unfold tick
  rw [h]
  rfl

theorem activePhases_run {k : ℕ} {m m' : MappedModel} {listed : List PhaseInstance}
    (h : m.getActivePhases g = .ok (m', listed)) : Operated network g k m m' :=
  Run.single (show answers network k g m .activePhases from trivial) (tick_activePhases h)

/-- The orchestrator changes models only by their operations. -/
theorem simulateCommunication_related {r : Dict ℕ MappedModel × ℕ}
    (hs : ∀ k m, active.get? k = some m → Shape m)
    (h : simulateCommunication n network active calls g = .ok r) :
    Dict.Related (Operated network g) active r.1 := by
  have hoperated : ∀ {c : Dict ℕ MappedModel × List ActivePhase},
      collectActivePhases n active g = .ok c →
      Dict.Related (Operated network g) active c.1 := fun hc =>
    (collectActivePhases_related hc).mono fun _ _ _ ⟨_, hlisted⟩ => activePhases_run hlisted
  cases simulateCommunication_cases h with
  | quiet hcollect => exact hoperated hcollect
  | simulated hcollect hneeds hanswer hupdate =>
    exact ((hoperated hcollect).trans (recordCoActive_related _ _ _) Operated.trans).trans
      (updatePhaseLatencies_related (needsInitialSimulation_ne_nil hneeds) hanswer
        (simulating_collected hs hcollect).recordCoActive hupdate) Operated.trans

end Orchestrator

end ChipSim
