import ChipSim.Lib.Lists
import ChipSim.MappedModel.Records

/-!
# What a synchronisation records

`sync_phase_metrics_to_layers` goes through the inputs and the phases. An entry of a record belongs
to one input and one layer, and only the phases of that layer write it, so the entry afterwards is
the result of their writes in the order of the phases (`sync_record`).
-/

namespace ChipSim

open Lib

/-! ## One phase instance -/

/-- The recorded start after one more instance: the earlier of the two, unless unknown. -/
def earlierTime (t? : Option ℚ) (t : ℚ) : Option ℚ :=
  if 0 ≤ t then
    match t? with
    | none => some t
    | some s => if s < 0 ∨ t < s then some t else some s
  else t?

/-- The recorded completion after one more instance: the later of the two, unless unknown. -/
def laterTime (t? : Option ℚ) (t : ℚ) : Option ℚ :=
  if 0 ≤ t then
    match t? with
    | none => some t
    | some s => if s < t then some t else some s
  else t?

theorem earlierTime_idem (t? : Option ℚ) (t : ℚ) :
    earlierTime (earlierTime t? t) t = earlierTime t? t := by
  unfold earlierTime
  by_cases ht : 0 ≤ t
  · simp only [if_pos ht]
    cases t? with
    | none => simp [not_lt.mpr ht]
    | some s =>
      by_cases hs : s < 0 ∨ t < s
      · simp [hs, not_lt.mpr ht]
      · simp [hs]
  · simp [ht]

theorem laterTime_idem (t? : Option ℚ) (t : ℚ) :
    laterTime (laterTime t? t) t = laterTime t? t := by
  unfold laterTime
  by_cases ht : 0 ≤ t
  · simp only [if_pos ht]
    cases t? with
    | none => simp
    | some s =>
      by_cases hs : s < t
      · simp [hs]
      · simp [hs]
  · simp [ht]

namespace LayerRecords

variable (r : LayerRecords) (i l : ℕ) (phase : Phase) (x : PhaseInstance)

theorem syncMetrics_startTimeUs : (r.syncMetrics i phase x).startTimeUs = r.startTimeUs := by
  unfold syncMetrics
  split
  · rfl
  · rfl
  · exact List.foldlRecOn (motive := fun s : LayerRecords => s.startTimeUs = r.startTimeUs) _ _ rfl
      fun _ hs _ _ => hs

theorem syncMetrics_completionTimeUs :
    (r.syncMetrics i phase x).completionTimeUs = r.completionTimeUs := by
  unfold syncMetrics
  split
  · rfl
  · rfl
  · exact List.foldlRecOn
      (motive := fun s : LayerRecords => s.completionTimeUs = r.completionTimeUs) _ _ rfl
      fun _ hs _ _ => hs

theorem get2?_syncStart (j k : ℕ) : (r.syncStart j k x).startTimeUs.get2? i l =
    if i = j ∧ l = k then earlierTime (r.startTimeUs.get2? i l) x.startTimeUs
    else r.startTimeUs.get2? i l := by
  by_cases hjk : i = j ∧ l = k
  · obtain ⟨rfl, rfl⟩ := hjk
    unfold syncStart earlierTime
    cases hold : r.startTimeUs.get2? i l with
    | none => split <;> simp [Dict.get2?_set2, hold]
    | some s =>
      split
      · by_cases hs : s < 0 ∨ x.startTimeUs < s
        · simp [hs, Dict.get2?_set2]
        · simp [hs, hold]
      · simp [hold]
  · rw [if_neg hjk]
    unfold syncStart
    split
    · split
      · rw [Dict.get2?_set2, if_neg hjk]
      · split
        · rw [Dict.get2?_set2, if_neg hjk]
        · rfl
    · rfl

theorem get2?_syncCompletion (j k : ℕ) : (r.syncCompletion j k x).completionTimeUs.get2? i l =
    if i = j ∧ l = k then laterTime (r.completionTimeUs.get2? i l) x.completionTimeUs
    else r.completionTimeUs.get2? i l := by
  by_cases hjk : i = j ∧ l = k
  · obtain ⟨rfl, rfl⟩ := hjk
    unfold syncCompletion laterTime
    cases hold : r.completionTimeUs.get2? i l with
    | none => split <;> simp [Dict.get2?_set2, hold]
    | some s =>
      split
      · by_cases hs : s < x.completionTimeUs
        · simp [hs, Dict.get2?_set2]
        · simp [hs, hold]
      · simp [hold]
  · rw [if_neg hjk]
    unfold syncCompletion
    split
    · split
      · rw [Dict.get2?_set2, if_neg hjk]
      · split
        · rw [Dict.get2?_set2, if_neg hjk]
        · rfl
    · rfl

theorem syncStart_completionTimeUs (j k : ℕ) :
    (r.syncStart j k x).completionTimeUs = r.completionTimeUs := by
  unfold syncStart
  split
  · split
    · rfl
    · split <;> rfl
  · rfl

theorem syncCompletion_startTimeUs (j k : ℕ) :
    (r.syncCompletion j k x).startTimeUs = r.startTimeUs := by
  unfold syncCompletion
  split
  · split
    · rfl
    · split <;> rfl
  · rfl

theorem startTimeUs_syncPhase (j : ℕ) : (r.syncPhase j phase x).startTimeUs.get2? i l =
    if i = j ∧ l ∈ phase.layerIndices then earlierTime (r.startTimeUs.get2? i l) x.startTimeUs
    else r.startTimeUs.get2? i l := by
  unfold syncPhase
  rw [foldl_update (fun r : LayerRecords => r.startTimeUs.get2? i l)
    (fun t => if i = j then earlierTime t x.startTimeUs else t) l]
  · rw [syncMetrics_startTimeUs]
    by_cases hij : i = j <;> by_cases hl : l ∈ phase.layerIndices <;> simp [hij, hl]
  · intro r k
    rw [syncCompletion_startTimeUs, get2?_syncStart]
    by_cases hij : i = j <;> by_cases hk : k = l <;> simp [hij, hk, Ne.symm]
  · intro t
    by_cases hij : i = j
    · simp only [if_pos hij, earlierTime_idem]
    · simp only [if_neg hij]

theorem completionTimeUs_syncPhase (j : ℕ) : (r.syncPhase j phase x).completionTimeUs.get2? i l =
    if i = j ∧ l ∈ phase.layerIndices then
      laterTime (r.completionTimeUs.get2? i l) x.completionTimeUs
    else r.completionTimeUs.get2? i l := by
  unfold syncPhase
  rw [foldl_update (fun r : LayerRecords => r.completionTimeUs.get2? i l)
    (fun t => if i = j then laterTime t x.completionTimeUs else t) l]
  · rw [syncMetrics_completionTimeUs]
    by_cases hij : i = j <;> by_cases hl : l ∈ phase.layerIndices <;> simp [hij, hl]
  · intro r k
    rw [get2?_syncCompletion, syncStart_completionTimeUs]
    by_cases hij : i = j <;> by_cases hk : k = l <;> simp [hij, hk, Ne.symm]
  · intro t
    by_cases hij : i = j
    · simp only [if_pos hij, laterTime_idem]
    · simp only [if_neg hij]

theorem syncTimes_weightLoading (j : ℕ) (ls : List ℕ) :
    let s := ls.foldl (fun r l => (r.syncStart j l x).syncCompletion j l x) r
    s.weightLoadingLatency = r.weightLoadingLatency ∧
      s.weightLoadingTraffic = r.weightLoadingTraffic := by
  refine List.foldlRecOn (motive := fun s : LayerRecords =>
    s.weightLoadingLatency = r.weightLoadingLatency ∧
      s.weightLoadingTraffic = r.weightLoadingTraffic) _ _ ⟨rfl, rfl⟩ fun s hs k _ => ?_
  have hstart : ∃ d, s.syncStart j k x = { s with startTimeUs := d } := by
    unfold syncStart
    split
    · split
      · exact ⟨_, rfl⟩
      · split <;> exact ⟨_, rfl⟩
    · exact ⟨_, rfl⟩
  obtain ⟨d, hd⟩ := hstart
  rw [hd]
  unfold syncCompletion
  split
  · split
    · exact hs
    · split <;> exact hs
  · exact hs

/-- The latency of a weight loading phase is recorded for all layers it loads. -/
theorem weightLoadingLatency_syncPhase (j : ℕ) :
    (r.syncPhase j phase x).weightLoadingLatency.get2? i l =
      if i = j ∧ l ∈ phase.layersToLoad then some x.latencyUs
      else r.weightLoadingLatency.get2? i l := by
  unfold syncPhase
  rw [(syncTimes_weightLoading ..).1]
  unfold syncMetrics Phase.layersToLoad
  cases phase.kind with
  | compute k => simp
  | activationComm k t => simp
  | weightLoading ls t =>
    rw [foldl_update (fun r : LayerRecords => r.weightLoadingLatency.get2? i l)
      (fun t => if i = j then some x.latencyUs else t) l]
    · by_cases hij : i = j <;> by_cases hl : l ∈ ls <;> simp [hij, hl]
    · intro r k
      rw [Dict.get2?_set2]
      by_cases hij : i = j <;> by_cases hk : k = l <;> simp [hij, hk, Ne.symm]
    · intro t
      by_cases hij : i = j <;> simp [hij]

theorem weightLoadingTraffic_syncPhase (j : ℕ) :
    (r.syncPhase j phase x).weightLoadingTraffic = r.weightLoadingTraffic := by
  unfold syncPhase
  rw [(syncTimes_weightLoading ..).2]
  unfold syncMetrics
  split
  · rfl
  · rfl
  · exact List.foldlRecOn
      (motive := fun s : LayerRecords => s.weightLoadingTraffic = r.weightLoadingTraffic) _ _ rfl
      fun _ hs _ _ => hs

/-- The phase loads weights of the layer, and its traffic is copied. -/
def loadsFor (l : ℕ) (phase : Phase) : Bool :=
  l ∈ phase.layersToLoad && phase.traffic.any fun t => !t.entries.isEmpty

/-- The traffic of a weight loading phase is recorded for all layers it loads. -/
theorem weightLoadingTraffic_syncTraffic :
    (r.syncTraffic phase).weightLoadingTraffic.get? l =
      if loadsFor l phase then phase.traffic else r.weightLoadingTraffic.get? l := by
  unfold syncTraffic loadsFor Phase.layersToLoad Phase.traffic
  rcases phase.kind with k | ⟨k, _ | t⟩ | ⟨ls, _ | t⟩
  · simp
  · simp
  · by_cases ht : t.entries.isEmpty <;> simp [ht]
  · simp
  · by_cases ht : t.entries.isEmpty
    · simp [ht]
    · dsimp only
      rw [if_neg ht, foldl_update (fun r : LayerRecords => r.weightLoadingTraffic.get? l)
        (fun _ => some t) l]
      · have hne : t.entries ≠ [] := by simpa using ht
        simp [hne]
      · intro r k
        rw [Dict.get?_set]
        by_cases hk : k = l <;> simp [hk, Ne.symm]
      · exact fun _ => rfl

/-- Copying the traffic leaves the records of latencies and times alone. -/
theorem syncTraffic_eq (r : LayerRecords) (phase : Phase) :
    ∃ a w, r.syncTraffic phase =
      { r with activationCommTraffic := a, weightLoadingTraffic := w } := by
  unfold syncTraffic
  split
  · split <;> exact ⟨_, _, rfl⟩
  · split
    · exact ⟨_, _, rfl⟩
    · exact List.foldlRecOn (motive := fun s : LayerRecords => ∃ a w, s =
          { r with activationCommTraffic := a, weightLoadingTraffic := w }) _ _ ⟨_, _, rfl⟩
        fun s hs l _ => by
          obtain ⟨a, w, rfl⟩ := hs
          exact ⟨_, _, rfl⟩
  · exact ⟨_, _, rfl⟩

end LayerRecords

namespace MappedModel

/-! ## The whole model -/

/-- The instances of an input whose phases are `covered`, in the order of the phases. -/
def instancesOf (m : MappedModel) (i : ℕ) (covered : Phase → Bool) : List PhaseInstance :=
  m.phases.entries.filterMap fun e => if covered e.2 then m.instance? i e.1 else none

theorem mem_instancesOf {m : MappedModel} {i : ℕ} {covered : Phase → Bool} {x : PhaseInstance} :
    x ∈ m.instancesOf i covered ↔ ∃ p phase, m.phases.get? p = some phase ∧
      covered phase = true ∧ m.instance? i p = some x := by
  unfold instancesOf
  rw [List.mem_filterMap]
  constructor
  · rintro ⟨⟨p, phase⟩, hp, hx⟩
    by_cases hc : covered phase = true
    · rw [if_pos hc] at hx
      exact ⟨p, phase, Dict.mem_entries_iff.mp hp, hc, hx⟩
    · rw [if_neg hc] at hx
      cases hx
  · rintro ⟨p, phase, hp, hc, hx⟩
    exact ⟨(p, phase), Dict.mem_entries_iff.mpr hp, by rw [if_pos hc, hx]⟩

section

variable {τ : Type*} (π : LayerRecords → τ) {upd : τ → PhaseInstance → τ} {i : ℕ}
  {covered : Phase → Bool}

theorem syncInput_record (hphase : ∀ r j phase x, π (r.syncPhase j phase x) =
      if i = j ∧ covered phase = true then upd (π r) x else π r)
    (m : MappedModel) (r : LayerRecords) (j : ℕ) :
    π (m.syncInput r j) = if j = i then (m.instancesOf i covered).foldl upd (π r) else π r := by
  unfold syncInput instancesOf
  induction m.phases.entries generalizing r with
  | nil => simp
  | cons e es ih =>
    rw [List.foldl_cons, ih]
    by_cases hij : j = i
    · subst hij
      simp only [if_true, List.filterMap_cons]
      by_cases hc : covered e.2 = true
      · simp only [if_pos hc]
        cases hx : m.instance? j e.1 with
        | none => rfl
        | some x => rw [List.foldl_cons, hphase, if_pos ⟨rfl, hc⟩]
      · simp only [if_neg hc]
        cases hx : m.instance? j e.1 with
        | none => rfl
        | some x => rw [hphase, if_neg fun h => hc h.2]
    · rw [if_neg hij, if_neg hij]
      cases hx : m.instance? j e.1 with
      | none => rfl
      | some x => rw [hphase, if_neg fun h => hij h.1.symm]

/-- **Synchronisation.** A record that only the covered phases of one input write is, afterwards,
the result of their writes. -/
theorem sync_record (hphase : ∀ r j phase x, π (r.syncPhase j phase x) =
      if i = j ∧ covered phase = true then upd (π r) x else π r)
    (htraffic : ∀ r phase, π (LayerRecords.syncTraffic r phase) = π r)
    (m : MappedModel) : π m.syncPhaseMetricsToLayers.layerRecords =
      if i < m.numInputs then (m.instancesOf i covered).foldl upd (π m.layerRecords)
      else π m.layerRecords := by
  have hall : ∀ (phases : List Phase) (r : LayerRecords),
      π (phases.foldl LayerRecords.syncTraffic r) = π r := by
    intro phases r
    exact List.foldlRecOn (motive := fun s => π s = π r) _ _ rfl
      fun s hs phase _ => (htraffic s phase).trans hs
  show π (m.phases.values.foldl LayerRecords.syncTraffic _) = _
  rw [hall, foldl_update_nodup π (fun t => (m.instancesOf i covered).foldl upd t) i
    (fun r j => syncInput_record π hphase m r j) List.nodup_range]
  simp only [List.mem_range]

end

/-- The recorded start of a layer is written by the phases of the layer. -/
theorem startTimeUs_sync (m : MappedModel) (i l : ℕ) :
    m.syncPhaseMetricsToLayers.layerRecords.startTimeUs.get2? i l =
      if i < m.numInputs then
        (m.instancesOf i fun phase => l ∈ phase.layerIndices).foldl
          (fun t x => earlierTime t x.startTimeUs) (m.layerRecords.startTimeUs.get2? i l)
      else m.layerRecords.startTimeUs.get2? i l := by
  refine sync_record (fun r => r.startTimeUs.get2? i l) ?_ ?_ m
  · intro r j phase x
    simp only [r.startTimeUs_syncPhase, decide_eq_true_eq]
  · intro r phase
    obtain ⟨a, w, h⟩ := r.syncTraffic_eq phase
    rw [h]

theorem earlierTime_spec {t? : Option ℚ} (hold : ∀ s, t? = some s → 0 ≤ s) (x : ℚ) :
    (earlierTime t? x = t? ∨ 0 ≤ x ∧ earlierTime t? x = some x) ∧
      (0 ≤ x → ∃ s, earlierTime t? x = some s ∧ s ≤ x) ∧
      ∀ s, t? = some s → ∃ s', earlierTime t? x = some s' ∧ s' ≤ s := by
  unfold earlierTime
  by_cases hx : 0 ≤ x
  · simp only [if_pos hx]
    cases t? with
    | none => exact ⟨.inr ⟨hx, rfl⟩, fun _ => ⟨x, rfl, le_rfl⟩, fun s hs => by cases hs⟩
    | some s =>
      dsimp only
      split
      · next hlt =>
        have hxs : x ≤ s := (hlt.resolve_left (not_lt.mpr (hold s rfl))).le
        refine ⟨.inr ⟨hx, rfl⟩, fun _ => ⟨x, rfl, le_rfl⟩, fun s' hs' => ?_⟩
        cases hs'
        exact ⟨x, rfl, hxs⟩
      · next hlt =>
        rw [not_or] at hlt
        exact ⟨.inl rfl, fun _ => ⟨s, rfl, not_lt.mp hlt.2⟩, fun s' hs' => ⟨s', hs', le_rfl⟩⟩
  · rw [if_neg hx]
    exact ⟨.inl rfl, fun h => absurd h hx, fun s hs => ⟨s, hs, le_rfl⟩⟩

/-- The earliest of some start times is the old one or one of them, and none of those that are
known is before it. -/
theorem foldl_earlierTime (xs : List PhaseInstance) {t? : Option ℚ}
    (hold : ∀ s, t? = some s → 0 ≤ s)
    {t : ℚ} (h : xs.foldl (fun t x => earlierTime t x.startTimeUs) t? = some t) :
    0 ≤ t ∧ (t? = some t ∨ ∃ x ∈ xs, x.startTimeUs = t) ∧ (∀ s, t? = some s → t ≤ s) ∧
      ∀ x ∈ xs, 0 ≤ x.startTimeUs → t ≤ x.startTimeUs := by
  induction xs generalizing t? with
  | nil =>
    have ht : t? = some t := h
    refine ⟨hold t ht, .inl ht, fun s hs => ?_, by simp⟩
    rw [ht, Option.some.injEq] at hs
    exact hs.le
  | cons x xs ih =>
    obtain ⟨hcases, hnew, hkeep⟩ := earlierTime_spec hold x.startTimeUs
    have hold' : ∀ s, earlierTime t? x.startTimeUs = some s → 0 ≤ s := by
      intro s hs
      rcases hcases with heq | ⟨hx, heq⟩
      · exact hold s (heq ▸ hs)
      · rw [heq, Option.some.injEq] at hs
        exact hs ▸ hx
    obtain ⟨h0, hfrom, hle, hall⟩ := ih hold' h
    refine ⟨h0, ?_, ?_, ?_⟩
    · rcases hfrom with hfrom | ⟨y, hy, hyt⟩
      · rcases hcases with heq | ⟨-, heq⟩
        · exact .inl (heq ▸ hfrom)
        · rw [heq, Option.some.injEq] at hfrom
          exact .inr ⟨x, List.mem_cons_self, hfrom⟩
      · exact .inr ⟨y, List.mem_cons_of_mem x hy, hyt⟩
    · intro s hs
      obtain ⟨s', hs', hle'⟩ := hkeep s hs
      exact (hle s' hs').trans hle'
    · intro y hy hy0
      rcases List.mem_cons.mp hy with rfl | hy
      · obtain ⟨s, hs, hsx⟩ := hnew hy0
        exact (hle s hs).trans hsx
      · exact hall y hy hy0

/-- The recorded completion of a layer is written by the phases of the layer. -/
theorem completionTimeUs_sync (m : MappedModel) (i l : ℕ) :
    m.syncPhaseMetricsToLayers.layerRecords.completionTimeUs.get2? i l =
      if i < m.numInputs then
        (m.instancesOf i fun phase => l ∈ phase.layerIndices).foldl
          (fun t x => laterTime t x.completionTimeUs) (m.layerRecords.completionTimeUs.get2? i l)
      else m.layerRecords.completionTimeUs.get2? i l := by
  refine sync_record (fun r => r.completionTimeUs.get2? i l) ?_ ?_ m
  · intro r j phase x
    simp only [r.completionTimeUs_syncPhase, decide_eq_true_eq]
  · intro r phase
    obtain ⟨a, w, h⟩ := r.syncTraffic_eq phase
    rw [h]

/-- The recorded weight loading latency of a layer is that of the last phase that loads it. -/
theorem weightLoadingLatency_sync (m : MappedModel) (i l : ℕ) :
    m.syncPhaseMetricsToLayers.layerRecords.weightLoadingLatency.get2? i l =
      if i < m.numInputs then
        (m.instancesOf i fun phase => l ∈ phase.layersToLoad).foldl (fun _ x => some x.latencyUs)
          (m.layerRecords.weightLoadingLatency.get2? i l)
      else m.layerRecords.weightLoadingLatency.get2? i l := by
  refine sync_record (fun r => r.weightLoadingLatency.get2? i l) ?_ ?_ m
  · intro r j phase x
    simp only [r.weightLoadingLatency_syncPhase, decide_eq_true_eq]
  · intro r phase
    obtain ⟨a, w, h⟩ := r.syncTraffic_eq phase
    rw [h]

/-- The recorded weight loading traffic of a layer is that of the last phase that loads it. -/
theorem weightLoadingTraffic_sync (m : MappedModel) (l : ℕ) :
    m.syncPhaseMetricsToLayers.layerRecords.weightLoadingTraffic.get? l =
      m.phases.values.foldl
        (fun t phase => if LayerRecords.loadsFor l phase = true then phase.traffic else t)
        (m.layerRecords.weightLoadingTraffic.get? l) := by
  have hinputs : ((List.range m.numInputs).foldl m.syncInput m.layerRecords).weightLoadingTraffic =
      m.layerRecords.weightLoadingTraffic := by
    refine List.foldlRecOn (motive := fun r : LayerRecords =>
      r.weightLoadingTraffic = m.layerRecords.weightLoadingTraffic) _ _ rfl fun r hr i _ => ?_
    refine List.foldlRecOn (motive := fun r : LayerRecords =>
      r.weightLoadingTraffic = m.layerRecords.weightLoadingTraffic) _ _ hr fun r hr e _ => ?_
    split
    · rw [LayerRecords.weightLoadingTraffic_syncPhase, hr]
    · exact hr
  rw [← hinputs]
  exact (List.foldl_hom (fun r : LayerRecords => r.weightLoadingTraffic.get? l)
    fun r phase => (r.weightLoadingTraffic_syncTraffic l phase).symm).symm

/-- A recorded completion is an old one or that of a phase of the layer. -/
theorem completionTimeUs_sync_cases {m : MappedModel} {i l : ℕ} {t : ℚ}
    (h : m.syncPhaseMetricsToLayers.layerRecords.completionTimeUs.get2? i l = some t) :
    m.layerRecords.completionTimeUs.get2? i l = some t ∨
      0 ≤ t ∧ ∃ p phase x, m.phases.get? p = some phase ∧ l ∈ phase.layerIndices ∧
        m.instance? i p = some x ∧ x.completionTimeUs = t := by
  rw [completionTimeUs_sync] at h
  split at h
  · refine List.foldlRecOn (motive := fun t? => ∀ t, t? = some t →
        m.layerRecords.completionTimeUs.get2? i l = some t ∨
        0 ≤ t ∧ ∃ p phase x, m.phases.get? p = some phase ∧ l ∈ phase.layerIndices ∧
          m.instance? i p = some x ∧ x.completionTimeUs = t) _ _ (fun _ ht => .inl ht) ?_ t h
    intro t? ih x hx t ht
    obtain ⟨p, phase, hp, hl, hxp⟩ := mem_instancesOf.mp hx
    have hnew : 0 ≤ x.completionTimeUs → x.completionTimeUs = t →
        0 ≤ t ∧ ∃ p phase x, m.phases.get? p = some phase ∧ l ∈ phase.layerIndices ∧
          m.instance? i p = some x ∧ x.completionTimeUs = t := fun h0 ht =>
      ⟨ht ▸ h0, p, phase, x, hp, of_decide_eq_true hl, hxp, ht⟩
    unfold laterTime at ht
    split at ht
    · next h0 =>
      split at ht
      · exact .inr (hnew h0 (Option.some.inj ht))
      · next s =>
        split at ht
        · exact .inr (hnew h0 (Option.some.inj ht))
        · exact ih t ht
    · exact ih t ht
  · exact .inl h

end MappedModel

end ChipSim
