import ChipSim.MappedModel.KnownTimes
import ChipSim.TrafficCalculator.WeightLoading

/-!
# Recorded starts of layers

The start recorded for a layer is that of its weight loading or of its compute phase, whichever
was known first; it is not after the start of the compute phase. In a complete model the largest
chunk of the layer, counted from the recorded start, has therefore ended by the current time.
-/

namespace ChipSim

open Lib

namespace MappedModel

variable {a : Args} {strategy : WeightLoadingStrategy} {chunks : List (ℕ × ℕ × ℕ × ChunkResult)}
  {m : MappedModel} {phase : Phase} {t : ℚ} {d : Dict ℕ (ℕ × ChunkResult)}
  {source : TrafficSource}

/-! ## Compute latencies -/

theorem latency_le_layerLatency {e : ℕ × ℕ × ChunkResult} (he : e ∈ d.entries)
    (ht : e.2.2.latencyUs = some t) : t ≤ layerLatency d := by
  unfold layerLatency Dict.values
  obtain ⟨l₁, l₂, hl⟩ := List.append_of_mem (List.mem_map_of_mem (f := Prod.snd) he)
  rw [hl, List.foldl_append, List.foldl_cons, ht]
  refine List.foldlRecOn (motive := fun u : ℚ => t ≤ u) l₂ _ (le_max_right _ _) fun u hu c _ => ?_
  split
  · exact hu.trans (le_max_left _ _)
  · exact hu

theorem setLayerComputeMetrics_schedule (m : MappedModel) (l : ℕ) (d : Dict ℕ (ℕ × ChunkResult)) :
    (m.setLayerComputeMetrics l d).toPhaseSchedule = m.toPhaseSchedule := by
  unfold setLayerComputeMetrics
  split
  · rfl
  · refine List.foldlRecOn
      (motive := fun m' : MappedModel => m'.toPhaseSchedule = m.toPhaseSchedule) _ _ rfl
      fun m' hm' i _ => ?_
    split
    · exact hm'
    · exact hm'

/-- The metrics of a layer are written to the instances of its compute phase. -/
theorem instance?_setLayerComputeMetrics {l c' : ℕ} (hc' : m.layerToComputePhase.get? l = some c')
    (d : Dict ℕ (ℕ × ChunkResult)) (i c : ℕ) :
    (m.setLayerComputeMetrics l d).instance? i c =
      if i < m.numInputs ∧ c = c' then (m.instance? i c).map fun x =>
        { x with latencyUs := layerLatency d, energyFj := layerEnergy d }
      else m.instance? i c := by
  unfold setLayerComputeMetrics
  rw [hc']
  dsimp only
  rw [foldl_update (fun m : MappedModel => m.instance? i c)
    (fun x? => if c = c' then x?.map fun x =>
      { x with latencyUs := layerLatency d, energyFj := layerEnergy d } else x?) i]
  · by_cases hi : i < m.numInputs <;> by_cases hcc : c = c' <;> simp [hi, hcc]
  · intro m j
    by_cases hij : j = i
    · subst hij
      rw [if_pos rfl]
      by_cases hcc : c = c'
      · subst hcc
        rw [if_pos rfl]
        cases hx : m.instance? j c with
        | none => exact hx
        | some x => simp [instance?_setInstance]
      · rw [if_neg hcc]
        cases hx : m.instance? j c' with
        | none => rfl
        | some x => simp [instance?_setInstance, hcc]
    · rw [if_neg hij]
      cases hx : m.instance? j c' with
      | none => rfl
      | some x => simp [instance?_setInstance, Ne.symm hij]
  · intro x?
    by_cases hcc : c = c'
    · simp only [if_pos hcc]
      cases x? <;> rfl
    · simp only [if_neg hcc]

/-- The compute phase of a layer has the given latency, for every input. -/
def ComputesFor (m : MappedModel) (c : ℕ) (v : ℚ) : Prop :=
  ∀ i < m.numInputs, ∀ x, m.instance? i c = some x → x.latencyUs = v

/-- The latency of a layer is that of its largest chunk. -/
theorem updateAllLayerComputeMetrics_latency
    (hinj : ∀ l l' c, m.layerToComputePhase.get? l = some c → m.layerToComputePhase.get? l' = some c
      → l = l') {l c : ℕ} (hd : m.chunkResults.get? l = some d)
    (hc : m.layerToComputePhase.get? l = some c) :
    m.updateAllLayerComputeMetrics.ComputesFor c (layerLatency d) := by
  obtain ⟨es, es', hes⟩ := List.append_of_mem (Dict.mem_entries_iff.mpr hd)
  have hnodup := m.chunkResults.nodup
  rw [hes, List.map_append, List.map_cons] at hnodup
  have hlater : ∀ e ∈ es', e.1 ≠ l := by
    intro e he hel
    have := (List.nodup_cons.mp (List.nodup_append.mp hnodup).2.1).1
    exact this (List.mem_map.mpr ⟨e, he, hel⟩)
  unfold updateAllLayerComputeMetrics
  rw [hes, List.foldl_append, List.foldl_cons]
  have hbefore : (es.foldl (fun m e => m.setLayerComputeMetrics e.1 e.2) m).toPhaseSchedule =
      m.toPhaseSchedule :=
    List.foldlRecOn (motive := fun m' : MappedModel => m'.toPhaseSchedule = m.toPhaseSchedule) _ _
      rfl fun m' hm' e _ => (setLayerComputeMetrics_schedule m' e.1 e.2).trans hm'
  -- the metrics are set by the entry of the layer, and the later ones are for other phases
  refine (List.foldlRecOn (motive := fun m' : MappedModel =>
    m'.toPhaseSchedule = m.toPhaseSchedule ∧ m'.ComputesFor c (layerLatency d)) _ _ ?_ ?_).2
  · refine ⟨(setLayerComputeMetrics_schedule ..).trans hbefore, ?_⟩
    intro i hi x hx
    rw [setLayerComputeMetrics_schedule] at hi
    rw [instance?_setLayerComputeMetrics (by rw [hbefore]; exact hc), if_pos ⟨hi, rfl⟩] at hx
    obtain ⟨y, -, rfl⟩ := Option.map_eq_some_iff.mp hx
    rfl
  · rintro m' ⟨hsched, hlat⟩ e he
    refine ⟨(setLayerComputeMetrics_schedule m' e.1 e.2).trans hsched, ?_⟩
    intro i hi x hx
    rw [setLayerComputeMetrics_schedule] at hi
    cases hc' : m'.layerToComputePhase.get? e.1 with
    | none =>
      unfold setLayerComputeMetrics at hx
      rw [hc'] at hx
      exact hlat i hi x hx
    | some c' =>
      have hne : c ≠ c' := by
        rintro rfl
        rw [hsched] at hc'
        exact hlater e he (hinj e.1 l c hc' hc)
      rw [instance?_setLayerComputeMetrics hc', if_neg fun h => hne h.2] at hx
      exact hlat i hi x hx

/-- The model before its compute metrics are stored. -/
def withChunks (a : Args) (strategy : WeightLoadingStrategy)
    (chunks : List (ℕ × ℕ × ℕ × ChunkResult)) : MappedModel :=
  { scheduled a strategy with chunkResults := storedChunks chunks }

/-- Afterwards a preparation assigns traffic to the phases and marks layers in the records. -/
theorem prepare_withChunks (h : prepare a strategy chunks source = .ok m) :
    m.phaseInstances = (withChunks a strategy chunks).updateAllLayerComputeMetrics.phaseInstances ∧
      m.numInputs = (withChunks a strategy chunks).updateAllLayerComputeMetrics.numInputs ∧
      m.layerToComputePhase = (scheduled a strategy).layerToComputePhase := by
  obtain ⟨m', hm', rfl⟩ := prepare_ok h
  obtain ⟨d, hd, -⟩ := retrafficked_calculateAllTraffic hm'
  have htable : (withChunks a strategy chunks).updateAllLayerComputeMetrics.layerToComputePhase =
      (scheduled a strategy).layerToComputePhase := by
    obtain ⟨inst, hinst⟩ := updateAllLayerComputeMetrics_eq (withChunks a strategy chunks)
    rw [hinst]
    rfl
  rw [hd]
  exact ⟨rfl, rfl, htable⟩

theorem prepare_computesFor (hL : 0 < a.numLayers) (h : prepare a strategy chunks source = .ok m)
    {p l : ℕ} (hp : m.phases.get? p = some phase) (hkind : phase.kind = .compute l)
    (hd : m.chunkResults.get? l = some d) :
    m.ComputesFor p (layerLatency d) := by
  obtain ⟨hinst, hnum, htable⟩ := prepare_withChunks h
  have hclosed : ∀ l, (scheduled a strategy).layerToComputePhase.get? l =
      if l < (scheduled a strategy).numLayers then some (2 * l) else none :=
    (PhaseSchedule.configured_scheduled a strategy hL).compute
  have hinj : ∀ l l' c, (scheduled a strategy).layerToComputePhase.get? l = some c →
      (scheduled a strategy).layerToComputePhase.get? l' = some c → l = l' := by
    intro l l' c hl hl'
    rw [hclosed] at hl hl'
    split at hl
    · split at hl'
      · rw [Option.some.injEq] at hl hl'
        omega
      · cases hl'
    · cases hl
  have hlayer := ((prepare_initial hL h).wellFormed.compute_layer p phase l hp hkind).2
  rw [htable] at hlayer
  rw [(prepare_builtFrom h).chunkResults] at hd
  have hlat : (withChunks a strategy chunks).updateAllLayerComputeMetrics.ComputesFor p
      (layerLatency d) :=
    updateAllLayerComputeMetrics_latency (m := withChunks a strategy chunks) hinj hd hlayer
  intro i hi x hx
  rw [hnum] at hi
  refine hlat i hi x ?_
  unfold instance? at hx ⊢
  rw [← hinst]
  exact hx

/-! ## Activations wait for their layer -/

/-- Every activation phase depends on the compute phase of its layer. -/
def ActivationsWait (s : PhaseSchedule) : Prop :=
  ∀ p phase l t, s.phases.get? p = some phase → phase.kind = .activationComm l t →
    ∃ c cphase, c ∈ phase.dependencies ∧ s.phases.get? c = some cphase ∧ cphase.kind = .compute l

theorem activationsWait_configured {s : PhaseSchedule}
    (h : PhaseSchedule.Configured strategy s) : ActivationsWait s := by
  intro p phase l t hp hkind
  rcases h.phase_cases hp with ⟨l', hl, rfl⟩ | ⟨l', hl, rfl⟩ | ⟨j, hj, rfl⟩
  · rw [h.get?_compute hl, Option.some.injEq] at hp
    rw [← hp, Phase.addDependency, PhaseSchedule.defaultPhase_kind_even] at hkind
    cases hkind
  · rw [h.get?_activation hl, Option.some.injEq] at hp
    subst hp
    rw [PhaseSchedule.defaultPhase_kind_odd] at hkind
    cases hkind
    refine ⟨2 * l, _, ?_, h.get?_compute (by omega),
      PhaseSchedule.defaultPhase_kind_even s.modelIdx l⟩
    simp [PhaseSchedule.defaultPhase]
  · rw [h.get?_weight hj, Option.some.injEq] at hp
    rw [← hp] at hkind
    cases hkind

theorem activationsWait_prepare (hL : 0 < a.numLayers)
    (h : prepare a strategy chunks source = .ok m) : ActivationsWait m.toPhaseSchedule := by
  have hwait : ActivationsWait (scheduled a strategy).toPhaseSchedule :=
    activationsWait_configured (PhaseSchedule.configured_scheduled a strategy hL)
  have hrel := prepare_related h
  intro p phase l t hp hkind
  obtain ⟨phase₀, hp₀, htraffic⟩ := hrel.values p phase hp
  have hcases := calculatePhaseTraffic_cases htraffic
  obtain ⟨t₀, hkind₀⟩ : ∃ t₀, phase₀.kind = .activationComm l t₀ := by
    obtain rfl | ⟨t', rfl⟩ := hcases
    · exact ⟨t, hkind⟩
    · unfold Phase.setTraffic at hkind
      cases hk : phase₀.kind with
      | compute l' => rw [hk] at hkind; cases hkind
      | activationComm l' t₀ => rw [hk] at hkind; cases hkind; exact ⟨t₀, rfl⟩
      | weightLoading ls t₀ => rw [hk] at hkind; cases hkind
  obtain ⟨c, cphase, hdep, hc, hcompute⟩ := hwait p phase₀ l t₀ hp₀ hkind₀
  obtain ⟨cphase', hc', htraffic'⟩ := hrel.get? hc
  refine ⟨c, cphase', ?_, hc', ?_⟩
  · rw [(sameShape_of_setTraffic hcases).dependencies]
    exact hdep
  · exact ((sameShape_of_setTraffic (calculatePhaseTraffic_cases htraffic')).kind_compute l).mpr
      hcompute

/-! ## Runs -/

/-- Latencies are recorded for running communications only, and are not negative. -/
def measured : Guard
  | _, m, .updateLatency i p newLatency => 0 ≤ newLatency ∧ m.RunningComm i p
  | _, _, _ => True

theorem nonNegative_of_measured (g : ℚ) (m : MappedModel) (op : TickOp) (h : measured g m op) :
    nonNegative g m op :=
  nonNegative_of_updates measured (fun _ _ _ _ _ h => h.1) g m op h

/-- The compute phases take the latency of their layer, and the recorded start of a layer is that
of its weight loading or of its compute phase. -/
structure LayerStarts (g : ℚ) (m : MappedModel) : Prop extends KnownStarts g m where
  waits : ActivationsWait m.toPhaseSchedule
  latencies : ∀ p phase l d, m.phases.get? p = some phase → phase.kind = .compute l →
    m.chunkResults.get? l = some d → m.ComputesFor p (layerLatency d)
  completions : ∀ i p phase l x, m.phases.get? p = some phase → phase.kind = .compute l →
    m.instance? i p = some x → x.state = .complete →
      x.completionTimeUs = x.startTimeUs + x.latencyUs
  starts : ∀ i l t, m.layerRecords.startTimeUs.get2? i l = some t → 0 ≤ t ∧
    ∃ p phase x, m.phases.get? p = some phase ∧ l ∈ phase.layerIndices ∧
      (∀ l t, phase.kind ≠ .activationComm l t) ∧ m.instance? i p = some x ∧ x.startTimeUs = t

theorem prepare_layerStarts (hL : 0 < a.numLayers) (hN : 0 < a.numInputs)
    (h0 : 0 ≤ a.modelStartTimeUs) (h : prepare a strategy chunks source = .ok m) (g : ℚ) :
    LayerStarts g m := by
  have hbuilt := prepare_builtFrom h
  have hinit := prepare_initial hL h
  refine ⟨hinit.knownStarts ?_ ?_ g, activationsWait_prepare hL h, ?_, ?_, ?_⟩
  · rw [hbuilt.numInputs_eq]
    exact hN
  · rw [hbuilt.modelStart]
    exact h0
  · intro p phase l d hp hkind hd
    exact prepare_computesFor hL h hp hkind hd
  · intro i p phase l x _ _ hx hc
    rw [(hinit.instances.fresh i p x hx).state] at hc
    cases hc
  · intro i l t ht
    obtain ⟨_, _, _, _, hr⟩ := prepare_unsynced h
    rw [hr] at ht
    exact absurd ht (by simp [LayerRecords.new, LayerRecords.get2?_byInput])

/-- What a step does to a compute phase. -/
theorem Advance.compute_change {g : ℚ} {m m' : MappedModel} (hadv : Advance measured g m m')
    {i p l : ℕ} {x y : PhaseInstance} (hp : m.phases.get? p = some phase)
    (hkind : phase.kind = .compute l) (hx : m.instance? i p = some x)
    (hy : m'.instance? i p = some y) :
    y.latencyUs = x.latencyUs ∧ (y = x ∨
      (y.state = .complete → y.completionTimeUs = y.startTimeUs + y.latencyUs)) := by
  cases hadv.change hx hy with
  | same hxy => exact ⟨by rw [hxy], .inl hxy⟩
  | handled hset hg hphase hstate hmet hxy hm' =>
    rw [hp, Option.some.injEq] at hphase
    subst hphase
    rw [hxy]
    have hcompute : phase.isCompute = true := by rw [Phase.isCompute, hkind]
    have hnot : ∀ {P : Prop}, phase.isCompute = false → P := fun hcomm => by
      rw [hcompute] at hcomm
      cases hcomm
    have hh := handlePhase_handling m g i p phase x
    generalize m.handlePhase g i p phase x = o at hh ⊢
    cases hh with
    | computeBegins hk hs => exact ⟨rfl, .inr fun h => by cases h⟩
    | computeGoesOn hk hs he => exact ⟨rfl, .inr fun h => absurd h hstate⟩
    | computeEnds hk hs he => exact ⟨rfl, .inr fun _ => rfl⟩
    | commBegins hk hs hl ht => exact hnot hk
    | commEmpty hk hs hl ht => exact hnot hk
    | commEnds hk hs hl he => exact hnot hk
    | commDrops hk hs hl ht => exact hnot hk
    | skipped hw hall hs => exact hnot (isCompute_of_isWeightLoading hw)
    | _ => exact ⟨rfl, .inr fun h => absurd h hstate⟩
  | latency hok hxy =>
    obtain ⟨-, phase', x', hp', hcomm, -⟩ := hok
    rw [hp, Option.some.injEq] at hp'
    subst hp'
    rw [Phase.isCompute, hkind] at hcomm
    cases hcomm
  | times hset hphase hstate hmet hxy =>
    refine ⟨by rw [hxy, fillTimes_latency], .inr fun hc => ?_⟩
    rw [hxy, fillTimes_state] at hc
    exact absurd hc hstate

section

variable {g : ℚ} {m m' : MappedModel}

/-- Everything a phase with a known start waits for has completed by then. -/
theorem KnownStarts.startsAfter_of_known (h : KnownStarts g m) {i p : ℕ} {x : PhaseInstance}
    (hp : m.phases.get? p = some phase) (hx : m.instance? i p = some x) (hstart : 0 ≤ x.startTimeUs)
    :
    DepsComplete m i p phase ∧ StartsAfter m i p phase x.startTimeUs := by
  by_cases hs : x.state = .notStarted
  · obtain ⟨-, hdeps, hcalc⟩ := h.known i p phase x hp hx hs hstart
    refine ⟨hdeps, ?_⟩
    rw [hcalc]
    exact startsAfter_calculated m i p phase
  · exact ⟨h.depsComplete hp hx hs, h.startsAfter i p phase x hp hx hs⟩

/-- A complete dependency of a phase with a known start, with its own times. -/
theorem KnownStarts.dependency (h : KnownStarts g m) {i p d : ℕ} {x y : PhaseInstance}
    (hp : m.phases.get? p = some phase) (hx : m.instance? i p = some x) (hstart : 0 ≤ x.startTimeUs)
    (hd : d ∈ phase.dependencies) (hy : m.instance? i d = some y) :
    0 ≤ y.startTimeUs ∧ y.startTimeUs ≤ x.startTimeUs := by
  obtain ⟨hdeps, hafter⟩ := h.startsAfter_of_known hp hx hstart
  have hc : y.state = .complete := completeOrAbsent_eq_true.mp (hdeps.deps d hd) y hy
  have hstarted : y.state ≠ .notStarted := by rw [hc]; decide
  obtain ⟨-, dphase, hdp, -⟩ := (h.exist i d).mp ⟨y, hy⟩
  refine ⟨?_, ?_⟩
  · exact (h.inputTimes i (h.started i d y hy hstarted)).trans
      (h.startsAfter i d dphase y hdp hy hstarted).input
  · exact (h.complete i d y hy hc).1.trans (hafter.deps d hd y hy)

/-- The compute phase of a layer has an instance for every input that has one of another phase. -/
theorem Shape.exists_compute (h : Shape m) {i p c l : ℕ} {x : PhaseInstance} {cphase : Phase}
    (hx : m.instance? i p = some x) (hc : m.phases.get? c = some cphase)
    (hkind : cphase.kind = .compute l) : ∃ y, m.instance? i c = some y := by
  obtain ⟨hi, -⟩ := (h.exist i p).mp ⟨x, hx⟩
  exact (h.exist i c).mpr
    ⟨hi, cphase, hc, skipsInstance_of_not_weight (isWeightLoading_of_compute hkind)⟩

/-- What a synchronisation records. -/
theorem LayerStarts.sync_starts (h : LayerStarts g m) {i l : ℕ}
    (ht : m.syncPhaseMetricsToLayers.layerRecords.startTimeUs.get2? i l = some t) : 0 ≤ t ∧
      ∃ p phase x, m.phases.get? p = some phase ∧ l ∈ phase.layerIndices ∧
        (∀ l t, phase.kind ≠ .activationComm l t) ∧ m.instance? i p = some x ∧
        x.startTimeUs = t := by
  rw [startTimeUs_sync] at ht
  split at ht
  · obtain ⟨h0, hfrom, -, hall⟩ := foldl_earlierTime _ (fun s hs => (h.starts i l s hs).1) ht
    rcases hfrom with hold | ⟨x, hx, hxt⟩
    · exact h.starts i l t hold
    · refine ⟨h0, ?_⟩
      obtain ⟨p, phase, hp, hl, hxp⟩ := mem_instancesOf.mp hx
      have hl' : l ∈ phase.layerIndices := of_decide_eq_true hl
      cases hkind : phase.kind with
      | compute l' => exact ⟨p, phase, x, hp, hl', by simp [hkind], hxp, hxt⟩
      | weightLoading ls t' => exact ⟨p, phase, x, hp, hl', by simp [hkind], hxp, hxt⟩
      | activationComm l' t' =>
        -- its compute phase has started before, so that start is the one recorded
        obtain ⟨c, cphase, hdep, hc, hcompute⟩ := h.waits p phase l' t' hp hkind
        obtain ⟨y, hy⟩ := h.toShape.exists_compute hxp hc hcompute
        obtain ⟨hy0, hyx⟩ := h.dependency hp hxp (by rw [hxt]; exact h0) hdep hy
        have hll : l = l' := by simpa [Phase.layerIndices, hkind] using hl'
        have hlc : l ∈ cphase.layerIndices := by simp [Phase.layerIndices, hcompute, hll]
        have hle : t ≤ y.startTimeUs :=
          hall y (mem_instancesOf.mpr ⟨c, cphase, hc, decide_eq_true hlc, hy⟩) hy0
        exact ⟨c, cphase, y, hc, hlc, by simp [hcompute], hy, le_antisymm (hxt ▸ hyx) hle⟩
  · exact h.starts i l t ht

theorem LayerStarts.advance (h : LayerStarts g m) (hadv : Advance measured g m m') :
    LayerStarts g m' := by
  have hadv' : Advance nonNegative g m m' := hadv.mono nonNegative_of_measured
  have hsched := hadv.schedule
  refine ⟨h.toKnownStarts.advance hadv', by rw [hsched]; exact h.waits, ?_, ?_, ?_⟩
  · intro p phase l d hp hkind hd i hi y hy
    rw [hsched] at hp hi
    rw [hadv.kept.2.1] at hd
    obtain ⟨x, hx, -⟩ := hadv.instance_cases hy
    rw [(hadv.compute_change hp hkind hx hy).1]
    exact h.latencies p phase l d hp hkind hd i hi x hx
  · intro i p phase l y hp hkind hy hc
    rw [hsched] at hp
    obtain ⟨x, hx, -⟩ := hadv.instance_cases hy
    rcases (hadv.compute_change hp hkind hx hy).2 with rfl | hsum
    · exact h.completions i p phase l y hp hkind hx hc
    · exact hsum hc
  · intro i l t ht
    have hold : 0 ≤ t ∧ ∃ p phase x, m.phases.get? p = some phase ∧ l ∈ phase.layerIndices ∧
        (∀ l t, phase.kind ≠ .activationComm l t) ∧ m.instance? i p = some x ∧
        x.startTimeUs = t := by
      rcases hadv.layerRecords_eq with hrec | rfl
      · rw [hrec] at ht
        exact h.starts i l t ht
      · exact h.sync_starts ht
    obtain ⟨h0, p, phase, x, hp, hl, hkind, hx, hxt⟩ := hold
    obtain ⟨y, hy, -⟩ := hadv.instance_next h.toShape hx
    refine ⟨h0, p, phase, y, by rw [hsched]; exact hp, hl, hkind, hy, ?_⟩
    rw [h.start_eq hadv' hx hy (by rw [hxt]; exact h0), hxt]

theorem LayerStarts.later {g' : ℚ} (hg : g ≤ g') (h : LayerStarts g m) : LayerStarts g' m :=
  ⟨h.toKnownStarts.later hg, h.waits, h.latencies, h.completions, h.starts⟩

/-- **Recorded starts.** In a complete model the recorded start of a layer is not after the start
of its compute phase, which has run for the latency of every chunk of the layer. -/
theorem LayerStarts.computed (h : LayerStarts g m) (hdone : m.modelCompletionTimeUs ≠ -1) {i l : ℕ}
    (ht : m.layerRecords.startTimeUs.get2? i l = some t) (hl : l < m.numLayers) :
    ∃ c cphase y, m.phases.get? c = some cphase ∧ cphase.kind = .compute l ∧
      m.instance? i c = some y ∧ t ≤ y.startTimeUs ∧ y.completionTimeUs ≤ g ∧
      ∀ d e v, m.chunkResults.get? l = some d → e ∈ d.entries → e.2.2.latencyUs = some v →
        y.startTimeUs + v ≤ y.completionTimeUs := by
  obtain ⟨h0, p, phase, x, hp, hlp, hkind, hx, hxt⟩ := h.starts i l t ht
  obtain ⟨c, cphase, -, hc, hcompute⟩ := h.wellFormed.compute_phase l hl
  obtain ⟨y, hy⟩ := h.toShape.exists_compute hx hc hcompute
  have hyc : y.state = .complete := ((h.toRecorded.model_complete hdone).1 i c y hy).1
  have hstarted : y.state ≠ .notStarted := by rw [hyc]; decide
  have hy0 : 0 ≤ y.startTimeUs := (h.inputTimes i (h.started i c y hy hstarted)).trans
    (h.startsAfter i c cphase y hc hy hstarted).input
  refine ⟨c, cphase, y, hc, hcompute, hy, ?_, (h.complete i c y hy hyc).2, ?_⟩
  -- the recorded start is that of the compute phase or of the weights it waits for
  · cases hk : phase.kind with
    | compute l' =>
      have hll : l = l' := by simpa [Phase.layerIndices, hk] using hlp
      subst hll
      have hpc : p = c := by
        have h₁ := (h.wellFormed.compute_layer p phase l hp hk).2
        have h₂ := (h.wellFormed.compute_layer c cphase l hc hcompute).2
        rw [h₁, Option.some.injEq] at h₂
        exact h₂
      subst hpc
      rw [hx, Option.some.injEq] at hy
      rw [← hxt, hy]
    | activationComm l' t' => exact absurd hk (hkind l' t')
    | weightLoading ls t' =>
      have hw : phase.isWeightLoading = true := by rw [Phase.isWeightLoading, hk]
      have hload : l ∈ phase.layersToLoad := by
        simpa [Phase.layersToLoad, Phase.layerIndices, hk] using hlp
      obtain ⟨w, wphase, hwl, hdep, -⟩ := h.wellFormed.weight_dep c cphase l hc hcompute
      have hpw := (h.wellFormed.weight_layers p phase hp hw).2 l hload
      rw [hwl, Option.some.injEq] at hpw
      subst hpw
      rw [← hxt]
      exact (h.dependency hc hy hy0 hdep hx).2
  · intro d e v hd he hv
    have hi : i < m.numInputs := ((h.exist i c).mp ⟨y, hy⟩).1
    rw [h.completions i c cphase l y hc hcompute hy hyc,
      h.latencies c cphase l d hc hcompute hd i hi y hy]
    exact add_le_add_right (latency_le_layerLatency he hv) _

/-- In a complete model every chunk of a layer, counted from its recorded start, has ended by
now. -/
theorem LayerStarts.chunk_within (h : LayerStarts g m) (hdone : m.modelCompletionTimeUs ≠ -1)
    {i l : ℕ} {t v : ℚ} (ht : m.layerRecords.startTimeUs.get2? i l = some t) (hl : l < m.numLayers)
    (hd : m.chunkResults.get? l = some d) {e : ℕ × ℕ × ChunkResult} (he : e ∈ d.entries)
    (hv : e.2.2.latencyUs = some v) :
    0 ≤ t ∧ t + v ≤ g := by
  obtain ⟨c, cphase, y, -, -, -, hle, hend, hchunk⟩ := h.computed hdone ht hl
  refine ⟨(h.starts i l t ht).1, ?_⟩
  calc t + v ≤ y.startTimeUs + v := add_le_add_left hle v
    _ ≤ y.completionTimeUs := hchunk d e v hd he hv
    _ ≤ g := hend

end

end MappedModel

end ChipSim
