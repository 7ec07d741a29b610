import Mathlib.Algebra.BigOperators.Ring.List
import ChipSim.MappedModel.KnownTimes
import ChipSim.MappedModel.Synchronised
import ChipSim.ModelSummary
import ChipSim.TrafficCalculator.WeightLoading

/-!
# Weight loading in the model summary

A synchronisation copies the latency and the traffic of a weight loading phase to every layer it
loads, and the summary adds them up over the layers. With just-in-time loading a phase loads one
layer, so the sums are those over the phases. With all-at-once loading the only phase loads all
layers, and it is counted once for each of them (`weightLoading_summary_iff`).
-/

namespace ChipSim

open Lib

namespace PhaseSchedule

/-! ## The phases that load weights -/

/-- The places and the layers of the weight loading phases of a schedule. -/
structure WeightPlan (strategy : WeightLoadingStrategy) (s : PhaseSchedule) : Prop where
  mem : ∀ p, p ∈ s.phases ↔ p < 2 * s.numLayers - 1 + weightPhaseCount strategy s.numLayers
  isWeightLoading : ∀ p phase, s.phases.get? p = some phase →
    phase.isWeightLoading = decide (2 * s.numLayers - 1 ≤ p)
  layers : ∀ j phase, s.phases.get? (2 * s.numLayers - 1 + j) = some phase →
    phase.layersToLoad = weightLayers strategy s.numLayers j

variable {strategy : WeightLoadingStrategy} {s : PhaseSchedule}

theorem Configured.weightPlan (h : Configured strategy s) : WeightPlan strategy s where
  mem := h.mem_phases
  isWeightLoading _ _ hp := h.isWeightLoading hp
  layers j phase hj := by
    have hlt : j < weightPhaseCount strategy s.numLayers := by
      have := (h.mem_phases _).mp (Dict.mem_of_get? hj)
      omega
    rw [h.get?_weight hlt, Option.some.injEq] at hj
    rw [← hj]
    rfl

/-- The phase that loads a layer. -/
theorem WeightPlan.loads_iff (h : WeightPlan strategy s) {p l : ℕ} {phase : Phase}
    (hp : s.phases.get? p = some phase) : l ∈ phase.layersToLoad ↔
      l < s.numLayers ∧ p = weightPhaseId strategy s.numLayers l := by
  have hweight := h.isWeightLoading p phase hp
  by_cases hle : 2 * s.numLayers - 1 ≤ p
  · obtain ⟨j, rfl⟩ := Nat.exists_eq_add_of_le hle
    have hj : j < weightPhaseCount strategy s.numLayers := by
      have := (h.mem _).mp (Dict.mem_of_get? hp)
      omega
    rw [h.layers j phase hp]
    constructor
    · intro hl
      obtain ⟨hlt, hid⟩ := mem_weightLayers hj hl
      exact ⟨hlt, hid.symm⟩
    · rintro ⟨hlt, hid⟩
      obtain ⟨j', -, hid', hl⟩ := weightPhaseId_eq strategy s.numLayers l hlt
      have : j = j' := by omega
      exact this ▸ hl
  · rw [decide_eq_false hle] at hweight
    have hnone : phase.layersToLoad = [] := by
      unfold Phase.isWeightLoading at hweight
      unfold Phase.layersToLoad
      cases hkind : phase.kind with
      | weightLoading ls t => rw [hkind] at hweight; cases hweight
      | _ => rfl
    rw [hnone]
    refine iff_of_false List.not_mem_nil ?_
    rintro ⟨hlt, rfl⟩
    obtain ⟨j, -, hid, -⟩ := weightPhaseId_eq strategy s.numLayers l hlt
    omega

/-- How often a weight loading phase appears among the phases of the layers. -/
def copies (strategy : WeightLoadingStrategy) (L : ℕ) : ℕ :=
  match strategy with
  | .allAtOnce => L
  | .justInTime => 1

/-- A sum over the phases of the layers counts every phase once for each layer it loads. -/
theorem sum_weightPhaseId {γ : Type*} [AddCommMonoid γ] (strategy : WeightLoadingStrategy) (L : ℕ)
    (f : ℕ → γ) :
    ((List.range L).map fun l => f (weightPhaseId strategy L l)).sum =
      copies strategy L • ((List.range (weightPhaseCount strategy L)).map fun j =>
        f (2 * L - 1 + j)).sum := by
  cases strategy with
  | allAtOnce => simp [weightPhaseId, weightPhaseCount, copies]
  | justInTime => rw [copies, one_nsmul]; rfl

/-- A sum over the weight loading phases. -/
theorem WeightPlan.sum_weight {γ : Type*} [AddCommMonoid γ] (h : WeightPlan strategy s)
    (f : ℕ → Phase → γ) :
    (s.phases.entries.map fun e => if e.2.isWeightLoading then f e.1 e.2 else 0).sum =
      ((List.range (weightPhaseCount strategy s.numLayers)).map fun j =>
        ((s.phases.get? (2 * s.numLayers - 1 + j)).map
          (f (2 * s.numLayers - 1 + j))).getD 0).sum := by
  have hperm : s.phases.keys.Perm
      (List.range (2 * s.numLayers - 1 + weightPhaseCount strategy s.numLayers)) := by
    rw [List.perm_ext_iff_of_nodup s.phases.nodup_keys List.nodup_range]
    intro p
    rw [← Dict.mem_def, h.mem, List.mem_range]
  rw [Dict.sum_entries_keys (fun (p : ℕ) (phase : Phase) =>
      if phase.isWeightLoading then f p phase else 0),
    (hperm.map _).sum_eq, List.range_add, List.map_append, List.sum_append, List.map_map]
  have hvalue : ∀ p, ((s.phases.get? p).map fun phase =>
      if phase.isWeightLoading then f p phase else 0).getD 0 =
      if 2 * s.numLayers - 1 ≤ p then ((s.phases.get? p).map (f p)).getD 0 else 0 := by
    intro p
    cases hp : s.phases.get? p with
    | none => simp
    | some phase => simp [h.isWeightLoading p phase hp]
  have hzero : ((List.range (2 * s.numLayers - 1)).map fun p => ((s.phases.get? p).map fun phase =>
      if phase.isWeightLoading then f p phase else 0).getD 0).sum = 0 := by
    refine List.sum_eq_zero fun v hv => ?_
    obtain ⟨p, hp, rfl⟩ := List.mem_map.mp hv
    rw [hvalue, if_neg (not_le.mpr (List.mem_range.mp hp))]
  rw [hzero, zero_add]
  congr 1
  refine List.map_congr_left fun j _ => ?_
  rw [Function.comp_apply, hvalue, if_pos (Nat.le_add_right _ _)]

end PhaseSchedule

namespace MappedModel

open PhaseSchedule ModelSummaryComputer

variable {a : Args} {strategy : WeightLoadingStrategy} {chunks : List (ℕ × ℕ × ℕ × ChunkResult)}
  {source : TrafficSource} {ok : Guard} {g g₀ : ℚ} {m m₀ : MappedModel}

theorem weightPlan_prepare (hL : 0 < a.numLayers)
    (h : prepare a strategy chunks source = .ok m) : WeightPlan strategy m.toPhaseSchedule := by
  have hnum : m.numLayers = (scheduled a strategy).numLayers :=
    congrArg Config.numLayers
      ((prepare_builtFrom h).config.trans (config_scheduled a strategy).symm)
  have hplan : WeightPlan strategy (scheduled a strategy).toPhaseSchedule :=
    (configured_scheduled a strategy hL).weightPlan
  have hrel := prepare_related h
  refine ⟨fun p => ?_, fun p phase hp => ?_, fun j phase hp => ?_⟩
  · rw [hrel.mem, hplan.mem, hnum]
  · obtain ⟨phase₀, hp₀, htraffic⟩ := hrel.values p phase hp
    rw [(sameShape_of_setTraffic (calculatePhaseTraffic_cases htraffic)).isWeightLoading,
      hplan.isWeightLoading p phase₀ hp₀, hnum]
  · obtain ⟨phase₀, hp₀, htraffic⟩ := hrel.values _ phase hp
    rw [hnum] at hp₀ ⊢
    rw [(sameShape_of_setTraffic (calculatePhaseTraffic_cases htraffic)).layersToLoad,
      hplan.layers j phase₀ hp₀]

/-! ## What is recorded -/

/-- The positive part of a latency. -/
def positivePart (v : ℚ) : ℚ := if 0 < v then v else 0

/-- The positive latencies of the instances of all weight loading phases. -/
def positiveWeightLoadingLatency (m : MappedModel) : ℚ :=
  ((List.range m.numInputs).map fun i =>
    ((m.instancesOf i Phase.isWeightLoading).map fun x => positivePart x.latencyUs).sum).sum

/-- The packets of all weight loading phases. -/
def weightLoadingPackets (m : MappedModel) : ℕ :=
  m.phases.sumOf fun phase =>
    if phase.isWeightLoading then packets (phase.traffic.getD .empty) else 0

/-- The latency an instance contributes, if it exists. -/
def latencyOf (m : MappedModel) (i p : ℕ) : ℚ :=
  ((m.instance? i p).map fun x => positivePart x.latencyUs).getD 0

/-- The packets a phase contributes. -/
def packetsOf (m : MappedModel) (p : ℕ) : ℕ :=
  ((m.phases.get? p).map fun phase => packets (phase.traffic.getD .empty)).getD 0

theorem positiveWeightLoadingLatency_eq (h : WeightPlan strategy m.toPhaseSchedule) :
    m.positiveWeightLoadingLatency = ((List.range m.numInputs).map fun i =>
      ((List.range (weightPhaseCount strategy m.numLayers)).map fun j =>
        m.latencyOf i (2 * m.numLayers - 1 + j)).sum).sum := by
  unfold positiveWeightLoadingLatency instancesOf
  congr 1
  refine List.map_congr_left fun i _ => ?_
  rw [sum_map_filterMap]
  have hentries : ∀ e : ℕ × Phase,
      ((if e.2.isWeightLoading then m.instance? i e.1 else none).map fun x =>
        positivePart x.latencyUs).getD 0 =
      if e.2.isWeightLoading then m.latencyOf i e.1 else 0 := by
    intro e
    by_cases he : e.2.isWeightLoading <;> simp [he, latencyOf]
  simp only [hentries]
  rw [h.sum_weight fun p _ => m.latencyOf i p]
  congr 1
  refine List.map_congr_left fun j hj => ?_
  obtain ⟨phase, hphase⟩ := Dict.mem_iff.mp ((h.mem (2 * m.numLayers - 1 + j)).mpr
    (Nat.add_lt_add_left (List.mem_range.mp hj) _))
  rw [hphase]
  rfl

theorem weightLoadingPackets_eq (h : WeightPlan strategy m.toPhaseSchedule) :
    m.weightLoadingPackets = ((List.range (weightPhaseCount strategy m.numLayers)).map fun j =>
      m.packetsOf (2 * m.numLayers - 1 + j)).sum := by
  unfold weightLoadingPackets Dict.sumOf Dict.values
  rw [List.map_map]
  exact h.sum_weight fun _ phase => packets (phase.traffic.getD .empty)

/-- The records of the weight loading phases, as old as they may be: a latency is recorded only
where there is an instance, and a traffic only of the phase. -/
structure WeightRecords (strategy : WeightLoadingStrategy) (m : MappedModel) : Prop where
  latency : ∀ i l v, m.layerRecords.weightLoadingLatency.get2? i l = some v →
    l < m.numLayers ∧ ∃ x, m.instance? i (weightPhaseId strategy m.numLayers l) = some x
  traffic : ∀ l t, m.layerRecords.weightLoadingTraffic.get? l = some t →
    l < m.numLayers ∧ ∃ phase,
      m.phases.get? (weightPhaseId strategy m.numLayers l) = some phase ∧ phase.traffic = some t

/-- The instances that load the weights of a layer: that of its phase. -/
theorem WeightPlan.mem_instancesOf (hplan : WeightPlan strategy m.toPhaseSchedule) (hs : Shape m)
    {i l : ℕ} {x : PhaseInstance} :
    x ∈ m.instancesOf i (fun phase => l ∈ phase.layersToLoad) ↔
      l < m.numLayers ∧ m.instance? i (weightPhaseId strategy m.numLayers l) = some x := by
  rw [MappedModel.mem_instancesOf]
  constructor
  · rintro ⟨p, phase, hp, hl, hx⟩
    obtain ⟨hlt, rfl⟩ := (hplan.loads_iff hp).mp (of_decide_eq_true hl)
    exact ⟨hlt, hx⟩
  · rintro ⟨hlt, hx⟩
    obtain ⟨-, phase, hp, -⟩ := (hs.exist i _).mp ⟨x, hx⟩
    exact ⟨_, phase, hp, decide_eq_true ((hplan.loads_iff hp).mpr ⟨hlt, rfl⟩), hx⟩

/-- The latency recorded for a layer by a synchronisation. -/
theorem WeightRecords.latency_sync (hrec : WeightRecords strategy m)
    (hplan : WeightPlan strategy m.toPhaseSchedule) (hs : Shape m) (i l : ℕ) :
    m.syncPhaseMetricsToLayers.layerRecords.weightLoadingLatency.get2? i l =
      if l < m.numLayers then
        (m.instance? i (weightPhaseId strategy m.numLayers l)).map PhaseInstance.latencyUs
      else none := by
  have hold : (¬ ∃ x, l < m.numLayers ∧
      m.instance? i (weightPhaseId strategy m.numLayers l) = some x) →
      m.layerRecords.weightLoadingLatency.get2? i l =
        if l < m.numLayers then
          (m.instance? i (weightPhaseId strategy m.numLayers l)).map PhaseInstance.latencyUs
        else none := by
    intro hnone
    have hleft : m.layerRecords.weightLoadingLatency.get2? i l = none := by
      refine Option.eq_none_iff_forall_ne_some.mpr fun v hv => ?_
      obtain ⟨hl, x, hx⟩ := hrec.latency i l v hv
      exact hnone ⟨x, hl, hx⟩
    rw [hleft]
    split
    · next hl =>
      rw [Option.eq_none_iff_forall_ne_some.mpr fun x hx => hnone ⟨x, hl, hx⟩]
      rfl
    · rfl
  rw [weightLoadingLatency_sync]
  split
  · rcases (m.instancesOf i fun phase => l ∈ phase.layersToLoad).eq_nil_or_concat with
      hnil | ⟨xs, x, hxs⟩
    · rw [hnil, List.foldl_nil]
      refine hold ?_
      rintro ⟨x, hx⟩
      have := (WeightPlan.mem_instancesOf hplan hs).mpr hx
      rw [hnil] at this
      cases this
    · have hmem : x ∈ m.instancesOf i fun phase => l ∈ phase.layersToLoad := by
        rw [hxs, List.concat_eq_append]
        exact List.mem_append_right _ (List.mem_singleton.mpr rfl)
      obtain ⟨hl, hx⟩ := (WeightPlan.mem_instancesOf hplan hs).mp hmem
      rw [hxs, List.concat_eq_append, List.foldl_append, List.foldl_cons, List.foldl_nil, if_pos hl,
        hx]
      rfl
  · next hi =>
    refine hold ?_
    rintro ⟨x, -, hx⟩
    exact hi ((hs.exist i _).mp ⟨x, hx⟩).1

/-- The traffic recorded for a layer by a synchronisation. -/
theorem traffic_sync_cases (hplan : WeightPlan strategy m.toPhaseSchedule) (l : ℕ) :
    (l < m.numLayers ∧ ∃ phase,
      m.phases.get? (weightPhaseId strategy m.numLayers l) = some phase ∧
        m.syncPhaseMetricsToLayers.layerRecords.weightLoadingTraffic.get? l = phase.traffic) ∨
    ((∀ p phase, m.phases.get? p = some phase → LayerRecords.loadsFor l phase = false) ∧
      m.syncPhaseMetricsToLayers.layerRecords.weightLoadingTraffic.get? l =
        m.layerRecords.weightLoadingTraffic.get? l) := by
  rw [weightLoadingTraffic_sync]
  rcases foldl_overwrite (fun phase => LayerRecords.loadsFor l phase = true) Phase.traffic
    m.phases.values (m.layerRecords.weightLoadingTraffic.get? l) with
    ⟨phase, hphase, hloads, hfold⟩ | ⟨hnone, hfold⟩
  · obtain ⟨⟨p, _⟩, he, rfl⟩ := List.mem_map.mp hphase
    have hp := Dict.mem_entries_iff.mp he
    unfold LayerRecords.loadsFor at hloads
    rw [Bool.and_eq_true, decide_eq_true_eq] at hloads
    obtain ⟨hl, rfl⟩ := (hplan.loads_iff hp).mp hloads.1
    exact .inl ⟨hl, _, hp, hfold⟩
  · refine .inr ⟨fun p phase hp => ?_, hfold⟩
    exact Bool.eq_false_iff.mpr
      (hnone phase (List.mem_map.mpr ⟨_, Dict.mem_entries_iff.mpr hp, rfl⟩))

/-- The packets recorded for a layer by a synchronisation. -/
theorem WeightRecords.packets_sync (hrec : WeightRecords strategy m)
    (hplan : WeightPlan strategy m.toPhaseSchedule) (l : ℕ) :
    ((m.syncPhaseMetricsToLayers.layerRecords.weightLoadingTraffic.get? l).map packets).getD 0 =
      if l < m.numLayers then m.packetsOf (weightPhaseId strategy m.numLayers l) else 0 := by
  unfold packetsOf
  rcases traffic_sync_cases hplan l with ⟨hl, phase, hp, htraffic⟩ | ⟨hnone, htraffic⟩
  · rw [htraffic, if_pos hl, hp]
    cases ht : phase.traffic with
    | none => simp [ht, show packets .empty = 0 from rfl]
    | some t => simp [ht]
  · rw [htraffic]
    cases hold : m.layerRecords.weightLoadingTraffic.get? l with
    | some t =>
      obtain ⟨hl, phase, hp, ht⟩ := hrec.traffic l t hold
      rw [if_pos hl, hp]
      simp [ht]
    | none =>
      by_cases hl : l < m.numLayers
      · rw [if_pos hl]
        cases hp : m.phases.get? (weightPhaseId strategy m.numLayers l) with
        | none => rfl
        | some phase =>
          -- the traffic is missing or empty, or it would have been copied
          have hloads := hnone _ phase hp
          have hmem : l ∈ phase.layersToLoad := (hplan.loads_iff hp).mpr ⟨hl, rfl⟩
          unfold LayerRecords.loadsFor at hloads
          cases ht : phase.traffic with
          | none => simp [ht, show packets .empty = 0 from rfl]
          | some t =>
            simp only [hmem, ht, decide_true, Bool.true_and, Option.any_some, Bool.not_eq_false',
              List.isEmpty_iff] at hloads
            simp [ht, packets, Dict.sumOf, Dict.values, hloads]
      · rw [if_neg hl]
        rfl

theorem WeightRecords.advance (hrec : WeightRecords strategy m)
    (hplan : WeightPlan strategy m.toPhaseSchedule) (hs : Shape m) {m' : MappedModel}
    (hadv : Advance ok g m m') : WeightRecords strategy m' := by
  have hL : m'.numLayers = m.numLayers := congrArg PhaseSchedule.numLayers hadv.schedule
  have hphases : m'.phases = m.phases := congrArg PhaseSchedule.phases hadv.schedule
  constructor
  · intro i l v hv
    rw [hL]
    have hsome : l < m.numLayers ∧
        ∃ x, m.instance? i (weightPhaseId strategy m.numLayers l) = some x := by
      rcases hadv.layerRecords_eq with hr | rfl
      · rw [hr] at hv
        exact hrec.latency i l v hv
      · rw [hrec.latency_sync hplan hs] at hv
        split at hv
        · next hl =>
          obtain ⟨x, hx, -⟩ := Option.map_eq_some_iff.mp hv
          exact ⟨hl, x, hx⟩
        · cases hv
    obtain ⟨hl, x, hx⟩ := hsome
    obtain ⟨y, hy, -⟩ := hadv.instance_next hs hx
    exact ⟨hl, y, hy⟩
  · intro l t ht
    rw [hL, hphases]
    rcases hadv.layerRecords_eq with hr | rfl
    · rw [hr] at ht
      exact hrec.traffic l t ht
    · rcases traffic_sync_cases hplan l with ⟨hl, phase, hp, htraffic⟩ | ⟨-, htraffic⟩
      · exact ⟨hl, phase, hp, htraffic.symm.trans ht⟩
      · exact hrec.traffic l t (htraffic.symm.trans ht)

/-- The records of a model in the course of a run. -/
theorem weightRecords_of_run (hL : 0 < a.numLayers)
    (hprep : prepare a strategy chunks source = .ok m₀) (hrun : Run ok g₀ m₀ g m) :
    WeightPlan strategy m.toPhaseSchedule ∧ Shape m ∧ WeightRecords strategy m := by
  have hplan₀ := weightPlan_prepare hL hprep
  refine hrun.invariant (P := fun _ m =>
    WeightPlan strategy m.toPhaseSchedule ∧ Shape m ∧ WeightRecords strategy m)
    ⟨hplan₀, (prepare_initial hL hprep).shape, ?_⟩ (fun _ _ _ _ h => h) ?_
  · obtain ⟨_, _, _, _, hrecords⟩ := prepare_unsynced hprep
    constructor
    · intro i l v hv
      rw [hrecords] at hv
      exact absurd hv (by simp [LayerRecords.new, LayerRecords.get2?_byInput])
    · intro l t ht
      rw [hrecords] at ht
      cases ht
  · rintro g m m' ⟨hplan, hs, hrec⟩ hadv
    refine ⟨?_, hs.advance hadv, hrec.advance hplan hs hadv⟩
    rw [hadv.schedule]
    exact hplan

end MappedModel

/-! ## The summary -/

namespace ModelSummaryComputer

open MappedModel PhaseSchedule

theorem positiveSum_nonneg (d : Dict ℕ ℚ) : 0 ≤ positiveSum d := by
  refine List.sum_nonneg fun v hv => ?_
  obtain ⟨w, -, rfl⟩ := List.mem_map.mp hv
  split
  · next h => exact h.le
  · exact le_rfl

/-- Every input adds its latency; an input that is not valid has none. -/
theorem sumWeightLoading_addInput (r : LayerRecords) (t : Totals) (i : ℕ) :
    (t.addInput r i).sumWeightLoading =
      t.sumWeightLoading + positiveSum (r.weightLoadingLatency.getD i .empty) := by
  show (t.addLatencies (.ofRecords r i)).sumWeightLoading = _
  unfold Totals.addLatencies
  split
  · rfl
  · next hvalid =>
    have hle : ¬ 0 < positiveSum (r.weightLoadingLatency.getD i .empty) := fun hpos =>
      hvalid (decide_eq_true (.inr (.inr hpos)))
    rw [le_antisymm (not_lt.mp hle) (positiveSum_nonneg _), add_zero]

theorem sumWeightLoading_foldl (r : LayerRecords) (is : List ℕ) (t : Totals) :
    (is.foldl (Totals.addInput r) t).sumWeightLoading = t.sumWeightLoading +
      (is.map fun i => positiveSum (r.weightLoadingLatency.getD i .empty)).sum := by
  induction is generalizing t with
  | nil => simp
  | cons i is ih =>
    rw [List.foldl_cons, ih, sumWeightLoading_addInput, List.map_cons, List.sum_cons, add_assoc]

theorem summarize_weightLoading {k : ℕ} {m : MappedModel} {s : ModelSummary}
    (h : summarize k m = .ok s) :
    s.sumWeightLoadingLatencyAllInputs = ((List.range m.numInputs).map fun i =>
        positiveSum (m.layerRecords.weightLoadingLatency.getD i .empty)).sum ∧
      s.totalWeightLoadingTraffic = totalTraffic m.layerRecords.weightLoadingTraffic := by
  unfold summarize at h
  iterate 6 obtain ⟨_, -, h⟩ := bind_eq_ok.mp h
  cases h
  refine ⟨?_, rfl⟩
  dsimp only
  rw [sumWeightLoading_foldl, zero_add]

/-- Every summary is that of a retired model. -/
theorem computeModelSummaryMetrics_get? {retired : Dict ℕ MappedModel} {d : Dict ℕ ModelSummary}
    (h : computeModelSummaryMetrics retired = .ok d) {k : ℕ} {s : ModelSummary}
    (hk : d.get? k = some s) : ∃ m, retired.get? k = some m ∧ summarize k m = .ok s := by
  unfold computeModelSummaryMetrics at h
  obtain ⟨_, -, h⟩ := bind_eq_ok.mp h
  obtain ⟨d', hloop, h⟩ := bind_eq_ok.mp h
  obtain ⟨_, -, h⟩ := bind_eq_ok.mp h
  cases h
  refine foldlM_invariant (fun d : Dict ℕ ModelSummary => ∀ k s, d.get? k = some s →
    ∃ m, retired.get? k = some m ∧ summarize k m = .ok s) hloop (fun _ _ h => by cases h) ?_ k s hk
  intro e he d d' ih hstep k s hk
  obtain ⟨s', hs', hset⟩ := bind_eq_ok.mp hstep
  cases hset
  rw [Dict.get?_set] at hk
  split at hk
  · next heq =>
    cases hk
    exact ⟨e.2, heq ▸ Dict.mem_entries_iff.mp he, heq ▸ hs'⟩
  · exact ih k s hk

section

variable {a : Args} {strategy : WeightLoadingStrategy} {m : MappedModel}

/-- The weight loading latency summed over the layers of an input. -/
theorem positiveSum_sync (hrec : WeightRecords strategy m)
    (hplan : WeightPlan strategy m.toPhaseSchedule) (hs : Shape m) (i : ℕ) :
    positiveSum (m.syncPhaseMetricsToLayers.layerRecords.weightLoadingLatency.getD i .empty) =
      copies strategy m.numLayers •
        ((List.range (weightPhaseCount strategy m.numLayers)).map fun j =>
          m.latencyOf i (2 * m.numLayers - 1 + j)).sum := by
  have hget : ∀ l, (m.syncPhaseMetricsToLayers.layerRecords.weightLoadingLatency.getD i
      .empty).get? l = if l < m.numLayers then
        (m.instance? i (weightPhaseId strategy m.numLayers l)).map PhaseInstance.latencyUs
      else none := by
    intro l
    rw [← hrec.latency_sync hplan hs i l]
    unfold Dict.getD Dict.get2?
    cases m.syncPhaseMetricsToLayers.layerRecords.weightLoadingLatency.get? i <;> rfl
  unfold positiveSum
  rw [← sum_weightPhaseId strategy m.numLayers (m.latencyOf i),
    Dict.sumOf_eq_sum _ _ (List.nodup_range (n := m.numLayers))]
  · congr 1
    refine List.map_congr_left fun l hl => ?_
    rw [hget, if_pos (List.mem_range.mp hl)]
    unfold latencyOf positivePart
    cases m.instance? i (weightPhaseId strategy m.numLayers l) <;> rfl
  · intro l hl
    obtain ⟨v, hv⟩ := Dict.mem_iff.mp hl
    rw [hget] at hv
    split at hv
    · next hlt => exact List.mem_range.mpr hlt
    · cases hv

/-- The packets summed over the layers. -/
theorem totalTraffic_sync (hrec : WeightRecords strategy m)
    (hplan : WeightPlan strategy m.toPhaseSchedule) :
    totalTraffic m.syncPhaseMetricsToLayers.layerRecords.weightLoadingTraffic =
      copies strategy m.numLayers * m.weightLoadingPackets := by
  rw [weightLoadingPackets_eq hplan, ← Nat.nsmul_eq_mul,
    ← sum_weightPhaseId strategy m.numLayers m.packetsOf]
  unfold totalTraffic
  rw [Dict.sumOf_eq_sum _ _ (List.nodup_range (n := m.numLayers))]
  · congr 1
    refine List.map_congr_left fun l hl => ?_
    rw [hrec.packets_sync hplan, if_pos (List.mem_range.mp hl)]
  · intro l hl
    obtain ⟨t, ht⟩ := Dict.mem_iff.mp hl
    rcases traffic_sync_cases hplan l with ⟨hlt, -⟩ | ⟨-, hold⟩
    · exact List.mem_range.mpr hlt
    · exact List.mem_range.mpr (hrec.traffic l t (hold.symm.trans ht)).1

/-- **The summary of weight loading** is the sum over the phases, once for each copy. -/
theorem summarize_sync (hrec : WeightRecords strategy m)
    (hplan : WeightPlan strategy m.toPhaseSchedule) (hs : Shape m) {k : ℕ} {s : ModelSummary}
    (h : summarize k m.syncPhaseMetricsToLayers = .ok s) :
    s.sumWeightLoadingLatencyAllInputs =
        copies strategy m.numLayers * m.positiveWeightLoadingLatency ∧
      s.totalWeightLoadingTraffic = copies strategy m.numLayers * m.weightLoadingPackets := by
  obtain ⟨hlatency, htraffic⟩ := summarize_weightLoading h
  refine ⟨?_, ?_⟩
  · rw [hlatency, positiveWeightLoadingLatency_eq hplan, ← List.sum_map_mul_left]
    congr 1
    refine List.map_congr_left fun i _ => ?_
    rw [positiveSum_sync hrec hplan hs, nsmul_eq_mul]
  · rw [htraffic, totalTraffic_sync hrec hplan]

end

/-- **Weight loading in the summary.** The summary of a synchronised model gives the sums over its
weight loading phases exactly if the phases are not copied to several layers, or have neither
latency nor packets. -/
theorem weightLoading_summary_iff (a : Args) (strategy : WeightLoadingStrategy)
    (chunks : List (ℕ × ℕ × ℕ × ChunkResult)) (source : TrafficSource) (ok : Guard) (g₀ g : ℚ)
    (m₀ m : MappedModel) (retired : Dict ℕ MappedModel) (d : Dict ℕ ModelSummary) (k : ℕ)
    (s : ModelSummary) (hL : 0 < a.numLayers) (hprep : prepare a strategy chunks source = .ok m₀)
    (hrun : Run ok g₀ m₀ g m) (hretired : retired.get? k = some m.syncPhaseMetricsToLayers)
    (hsummary : computeModelSummaryMetrics retired = .ok d) (hk : d.get? k = some s) :
    (s.sumWeightLoadingLatencyAllInputs = m.positiveWeightLoadingLatency ∧
      s.totalWeightLoadingTraffic = m.weightLoadingPackets) ↔
    (strategy = .allAtOnce → 1 < a.numLayers →
      m.positiveWeightLoadingLatency = 0 ∧ m.weightLoadingPackets = 0) := by
  obtain ⟨hplan, hs, hrec⟩ := weightRecords_of_run hL hprep hrun
  obtain ⟨m', hm', hsum⟩ := computeModelSummaryMetrics_get? hsummary hk
  rw [hretired, Option.some.injEq] at hm'
  subst hm'
  have hnum : m.numLayers = a.numLayers :=
    (congrArg PhaseSchedule.numLayers hrun.schedule).trans
      (congrArg Config.numLayers (prepare_builtFrom hprep).config)
  obtain ⟨hlatency, htraffic⟩ := summarize_sync hrec hplan hs hsum
  rw [hlatency, htraffic, hnum]
  cases strategy with
  | justInTime => simp [copies]
  | allAtOnce =>
    simp only [copies, forall_const]
    by_cases hone : 1 < a.numLayers
    · have hne : (a.numLayers : ℚ) ≠ 1 := by exact_mod_cast hone.ne'
      simp only [hone, forall_const]
      refine and_congr ?_ ?_
      · rw [mul_left_eq_self₀, or_iff_right hne]
      · rw [mul_left_eq_self₀, or_iff_right hone.ne']
    · have hone' : a.numLayers = 1 := by omega
      simp [hone']

/-! ## Two layers -/

/-- A complete run with all weights loaded in `10` microseconds. -/
def loadedAtOnce : List (ℚ × TickOp) :=
  [(0, .activePhases), (0, .updateLatency 0 3 10), (0, .phaseTiming), (10, .activePhases),
    (10, .phaseTiming), (12, .activePhases), (12, .phaseTiming), (13, .activePhases),
    (13, .phaseTiming), (14, .activePhases), (14, .updateLatency 0 1 1), (14, .phaseTiming),
    (15, .activePhases), (15, .phaseTiming), (16, .activePhases), (16, .phaseTiming),
    (19, .activePhases), (19, .phaseTiming), (20, .activePhases), (20, .phaseTiming)]

/-- A complete run with the weights of each layer loaded in `10` microseconds. -/
def loadedInTime : List (ℚ × TickOp) :=
  [(0, .activePhases), (0, .updateLatency 0 3 10), (0, .phaseTiming), (10, .activePhases),
    (10, .phaseTiming), (12, .activePhases), (12, .phaseTiming), (13, .activePhases),
    (13, .phaseTiming), (14, .activePhases), (14, .updateLatency 0 1 1), (14, .phaseTiming),
    (15, .activePhases), (15, .phaseTiming), (16, .activePhases), (16, .updateLatency 0 4 10),
    (16, .phaseTiming), (26, .activePhases), (26, .phaseTiming), (27, .activePhases),
    (27, .phaseTiming), (30, .activePhases), (30, .phaseTiming), (31, .activePhases),
    (31, .phaseTiming)]

/-- A property of the complete model that some operations lead to, and of its summary. -/
def checkSummary (strategy : WeightLoadingStrategy) (ops : List (ℚ × TickOp))
    (check : MappedModel → ModelSummary → Bool) : Bool :=
  ((prepare oneInput strategy twoLayersChunks twoLayersTraffic).toOption.bind
    fun m₀ => (m₀.tickAll ops).toOption).any fun m => m.isComplete 31 &&
      ((computeModelSummaryMetrics (.ofList [(0, m.syncPhaseMetricsToLayers)])).toOption.bind
        fun d => d.get? 0).any (check m)

theorem of_checkSummary (strategy : WeightLoadingStrategy) (ops : List (ℚ × TickOp))
    (check : MappedModel → ModelSummary → Bool) (h : checkSummary strategy ops check = true) :
    ∃ m₀ m d s, prepare oneInput strategy twoLayersChunks twoLayersTraffic = .ok m₀ ∧
      m₀.tickAll ops = .ok m ∧ m.isComplete 31 = true ∧
      computeModelSummaryMetrics (.ofList [(0, m.syncPhaseMetricsToLayers)]) = .ok d ∧
      d.get? 0 = some s ∧ check m s = true := by
  obtain ⟨m, hm, hcheck⟩ := (Option.any_eq_true _ _).mp h
  obtain ⟨m₀, hm₀, hm⟩ := Option.bind_eq_some_iff.mp hm
  rw [Bool.and_eq_true, Option.any_eq_true] at hcheck
  obtain ⟨hdone, s, hs, hcheck⟩ := hcheck
  obtain ⟨d, hd, hs⟩ := Option.bind_eq_some_iff.mp hs
  exact ⟨m₀, m, d, s, toOption_eq_some.mp hm₀, toOption_eq_some.mp hm, hdone,
    toOption_eq_some.mp hd, hs, hcheck⟩

/-- Each phase is counted once with just-in-time loading. -/
theorem weightLoading_summary_inTime : ∃ (m₀ m : MappedModel) (d : Dict ℕ ModelSummary)
    (s : ModelSummary), prepare oneInput .justInTime twoLayersChunks twoLayersTraffic = .ok m₀ ∧
      Run nonNegative 0 m₀ 31 m ∧ m.isComplete 31 = true ∧
      computeModelSummaryMetrics (.ofList [(0, m.syncPhaseMetricsToLayers)]) = .ok d ∧
      d.get? 0 = some s ∧ m.positiveWeightLoadingLatency = 20 ∧ m.weightLoadingPackets = 16 ∧
      s.sumWeightLoadingLatencyAllInputs = m.positiveWeightLoadingLatency ∧
      s.totalWeightLoadingTraffic = m.weightLoadingPackets := by
  obtain ⟨m₀, m, d, s, h₀, hops, hdone, hsummary, hs, hcheck⟩ := of_checkSummary .justInTime
    loadedInTime
    (fun m _ => decide (m.positiveWeightLoadingLatency = 20 ∧ m.weightLoadingPackets = 16))
    (by decide +kernel)
  have hrun : Run nonNegative 0 m₀ 31 m :=
    Run.tickAll .start (by decide +kernel) (by simp [loadedInTime, nonNegative]) hops
  obtain ⟨hlatency, hpackets⟩ := of_decide_eq_true hcheck
  refine ⟨m₀, m, d, s, h₀, hrun, hdone, hsummary, hs, hlatency, hpackets, ?_⟩
  exact (weightLoading_summary_iff oneInput .justInTime twoLayersChunks twoLayersTraffic
    nonNegative 0 31 m₀ m _ d 0 s (by decide) h₀ hrun rfl hsummary hs).mpr fun h => by cases h

/-- With all-at-once loading the only phase, of latency `10` and with `8` packets, is counted once
for each of the two layers. -/
theorem weightLoading_counted_twice : ∃ (m₀ m : MappedModel) (d : Dict ℕ ModelSummary)
    (s : ModelSummary), prepare oneInput .allAtOnce twoLayersChunks twoLayersTraffic = .ok m₀ ∧
      Run nonNegative 0 m₀ 20 m ∧ m.isComplete 31 = true ∧
      computeModelSummaryMetrics (.ofList [(0, m.syncPhaseMetricsToLayers)]) = .ok d ∧
      d.get? 0 = some s ∧
      m.positiveWeightLoadingLatency = 10 ∧ s.sumWeightLoadingLatencyAllInputs = 20 ∧
      m.weightLoadingPackets = 8 ∧ s.totalWeightLoadingTraffic = 16 := by
  obtain ⟨m₀, m, d, s, h₀, hops, hdone, hsummary, hs, hcheck⟩ := of_checkSummary .allAtOnce
    loadedAtOnce
    (fun m s => decide (m.positiveWeightLoadingLatency = 10 ∧
      s.sumWeightLoadingLatencyAllInputs = 20 ∧ m.weightLoadingPackets = 8 ∧
      s.totalWeightLoadingTraffic = 16))
    (by decide +kernel)
  have hrun : Run nonNegative 0 m₀ 20 m :=
    Run.tickAll .start (by decide +kernel) (by simp [loadedAtOnce, nonNegative]) hops
  exact ⟨m₀, m, d, s, h₀, hrun, hdone, hsummary, hs, of_decide_eq_true hcheck⟩

end ModelSummaryComputer

end ChipSim
