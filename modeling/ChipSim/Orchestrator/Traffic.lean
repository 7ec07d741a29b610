import ChipSim.MappedModel.Progress
import ChipSim.Orchestrator.Operations
import ChipSim.TrafficCalculator

/-!
# Traffic matrices never fail

The mapper only maps to chiplets of the system, so the traffic of a prepared model, scaled or not,
only names chiplets of the system, and `_create_traffic_matrix` does not raise. Collecting the
active phases of such models always succeeds.
-/

namespace ChipSim

open Lib

/-! ## The traffic of a prepared model -/

namespace PhaseSchedule

theorem Configured.traffic {strategy : WeightLoadingStrategy} {s : PhaseSchedule}
    (h : Configured strategy s) {p : ℕ} {phase : Phase} (hp : s.phases.get? p = some phase) :
    phase.traffic = none := by
  rcases h.phase_cases hp with ⟨l, hl, rfl⟩ | ⟨l, hl, rfl⟩ | ⟨j, hj, rfl⟩
  · rw [h.get?_compute hl, Option.some.injEq] at hp
    rw [← hp, Phase.traffic, Phase.addDependency, defaultPhase_kind_even]
  · rw [h.get?_activation hl, Option.some.injEq] at hp
    rw [← hp, Phase.traffic, defaultPhase_kind_odd]
  · rw [h.get?_weight hj, Option.some.injEq] at hp
    rw [← hp]
    rfl

end PhaseSchedule

namespace MappedModel

open TrafficCalculator

theorem setTraffic_traffic {phase : Phase} {t t' : TrafficMatrixDict}
    (h : (phase.setTraffic t).traffic = some t') : t' = t := by
  unfold Phase.traffic Phase.setTraffic at h
  cases hk : phase.kind <;> rw [hk] at h <;> cases h <;> rfl

/-- What holds of the traffic a source can return holds of the traffic of all phases. -/
theorem calculateAllTraffic_traffic {m m' : MappedModel} {source : TrafficSource}
    {P : TrafficMatrixDict → Prop} (h : m.calculateAllTraffic source = .ok m')
    (hnone : ∀ p phase, m.phases.get? p = some phase → phase.traffic = none)
    (hact : ∀ l t, source.activation m.modelDef m.modelMetrics m.mapping l = .ok t → P t)
    (hweight : ∀ ls t, source.weightLoading m.modelMetrics m.mapping ls = .ok t → P t) :
    ∀ p phase t, m'.phases.get? p = some phase → phase.traffic = some t → P t := by
  refine (foldlM_invariant (fun m' : MappedModel => (∃ d, m' = { m with phases := d }) ∧
    ∀ p phase t, m'.phases.get? p = some phase → phase.traffic = some t → P t) h ⟨⟨_, rfl⟩, ?_⟩
    ?_).2
  · intro p phase t hp ht
    rw [hnone p phase hp] at ht
    cases ht
  · rintro ⟨p, phase⟩ he _ m'' ⟨⟨d, rfl⟩, hd⟩ hstep
    obtain ⟨phase', hphase', hm''⟩ := bind_eq_ok.mp hstep
    have hnone' := hnone p phase (Dict.mem_entries_iff.mp he)
    have hnew : ∀ t, phase'.traffic = some t → P t := by
      intro t ht
      unfold calculatePhaseTraffic at hphase'
      split at hphase'
      · cases hphase'
        rw [hnone'] at ht
        cases ht
      · obtain ⟨t', ht', hset⟩ := bind_eq_ok.mp hphase'
        cases hset
        rw [setTraffic_traffic ht]
        exact hact _ _ ht'
      · obtain ⟨t', ht', hset⟩ := bind_eq_ok.mp hphase'
        cases hset
        rw [setTraffic_traffic ht]
        exact hweight _ _ ht'
    cases hm''
    refine ⟨⟨_, rfl⟩, fun q phase'' t hq ht => ?_⟩
    dsimp only at hq
    rw [Dict.get?_set] at hq
    split at hq
    · cases hq
      exact hnew t ht
    · exact hd q phase'' t hq ht

theorem updateAllLayerComputeMetrics_schedule (m : MappedModel) :
    m.updateAllLayerComputeMetrics.toPhaseSchedule = m.toPhaseSchedule := by
  obtain ⟨d, hd⟩ := updateAllLayerComputeMetrics_eq m
  rw [hd]

/-- All phases only send between chiplets of a system of `n` chiplets. -/
def ValidTraffic (n : ℕ) (m : MappedModel) : Prop :=
  ∀ p phase t, m.phases.get? p = some phase → phase.traffic = some t → ValidIds n t

theorem ValidTraffic.of_schedule {n : ℕ} {m m' : MappedModel} (h : ValidTraffic n m)
    (hs : m'.toPhaseSchedule = m.toPhaseSchedule) : ValidTraffic n m' := by
  unfold ValidTraffic
  rw [hs]
  exact h

theorem validTraffic_prepare {a : Args} {strategy : WeightLoadingStrategy}
    {chunks : List (ℕ × ℕ × ℕ × ChunkResult)} {tc : TrafficCalculator} {s : System}
    {m : MappedModel} (hL : 0 < a.numLayers) (hmap : ValidMapping s.numChiplets a.mapping)
    (h : prepare a strategy chunks (tc.source s) = .ok m) : ValidTraffic s.numChiplets m := by
  obtain ⟨m', hm', rfl⟩ := prepare_ok h
  have hmapping := (builtFrom_storedChunks a strategy chunks).mapping
  have htraffic := calculateAllTraffic_traffic (P := ValidIds s.numChiplets) hm' ?_ ?_ ?_
  · exact htraffic
  · intro p phase hp
    rw [updateAllLayerComputeMetrics_schedule] at hp
    exact (PhaseSchedule.configured_scheduled a strategy hL).traffic hp
  · intro l t ht
    cases ht
    exact validIds_activation _ _ _ (hmapping.symm ▸ hmap) _
  · intro ls t ht
    exact validIds_weightLoading (hmapping.symm ▸ hmap) ht

/-- Scaling changes amounts and drops connections, but adds none. -/
theorem validIds_getPhaseTraffic {n : ℕ} {traffic : Option TrafficMatrixDict}
    (h : ∀ t, traffic = some t → ValidIds n t) (scaleFactor : ℚ) :
    ValidIds n (getPhaseTraffic traffic scaleFactor) := by
  unfold getPhaseTraffic
  split
  · exact validIds_empty
  · next t =>
    split
    · exact h t rfl
    · intro src dests hsrc
      rw [Dict.get?_mapValues] at hsrc
      obtain ⟨dests', hdests', rfl⟩ := Option.map_eq_some_iff.mp hsrc
      obtain ⟨hs, hd⟩ := h t rfl src dests' hdests'
      refine ⟨hs, fun dst hdst => hd dst ?_⟩
      obtain ⟨v, hv⟩ := Dict.mem_iff.mp hdst
      rw [Dict.get?_filterMapValues] at hv
      obtain ⟨amount, hamount, -⟩ := Option.bind_eq_some_iff.mp hv
      exact Dict.mem_of_get? hamount

end MappedModel

/-! ## Collecting -/

namespace Orchestrator

open MappedModel TrafficCalculator

variable {n : ℕ} {g : ℚ} {active : Dict ℕ MappedModel}

theorem createTrafficMatrix_ok {t : TrafficMatrixDict} (h : ValidIds n t) (modelIdx inputIdx : ℕ)
    (layerIdx : ℤ) : ∃ matrix, createTrafficMatrix n t modelIdx inputIdx layerIdx = .ok matrix := by
  refine foldlM_ok fun e he matrix => ?_
  obtain ⟨hsrc, hdst⟩ := h e.1 e.2 (Dict.mem_entries_iff.mp he)
  rw [if_pos hsrc]
  refine foldlM_ok fun f hf matrix => ?_
  rw [if_pos (hdst f.1 (Dict.mem_of_get? (Dict.mem_entries_iff.mp hf)))]
  exact ⟨_, rfl⟩

theorem collectPhases_ok {k : ℕ} {m : MappedModel} {listed : List PhaseInstance}
    (h : ValidTraffic n m) (hlisted : ∀ x ∈ listed, Listed m x) :
    ∃ phases, collectPhases n k m listed = .ok phases := by
  refine foldlM_ok fun x hx acc => ?_
  obtain ⟨phase, hphase, hactive⟩ := (hlisted x hx).active
  rw [getItem_eq_ok.mpr hphase, ok_bind]
  split
  · next traffic hcomm htraffic =>
    split
    · obtain ⟨f, hf, -⟩ := hactive.scaled hcomm
      rw [htraffic, Option.some.injEq] at hf
      obtain ⟨matrix, hmatrix⟩ := createTrafficMatrix_ok
        (hf ▸ validIds_getPhaseTraffic (h _ _ · hphase) f) k x.inputIdx
        (ActivePhase.layerIdx phase)
      rw [hmatrix]
      exact ⟨_, rfl⟩
    · exact ⟨_, rfl⟩
  · exact ⟨_, rfl⟩

theorem collectActivePhases_ok (hs : ∀ k m, active.get? k = some m → Shape m)
    (ht : ∀ k m, active.get? k = some m → ValidTraffic n m) :
    ∃ c, collectActivePhases n active g = .ok c := by
  refine foldlM_ok fun e he acc => ?_
  have hget := Dict.mem_entries_iff.mp he
  obtain ⟨r, hr⟩ := (hs e.1 e.2 hget).getActivePhases g
  have hadv : Advances nonNegative g e.2 r.1 := getActivePhases_advances hr
  obtain ⟨phases, hphases⟩ := collectPhases_ok (k := e.1)
    ((ht e.1 e.2 hget).of_schedule hadv.schedule) (getActivePhases_listed (hs e.1 e.2 hget) hr)
  rw [hr, ok_bind, hphases]
  exact ⟨_, rfl⟩

end Orchestrator

end ChipSim
