import ChipSim.Lib.Binning
import ChipSim.MappedModel.Phases

/-!
# Utilization over time

`compute_utilization_over_time` marks, for every layer of every retired model, the time points at
which the chiplets of the layer compute, send activations or load weights, and in a fourth
dictionary those at which they do any of it. The flags `0` and `1` are Booleans.
-/

namespace ChipSim

open Lib

/-- The inputs of the utilization computer. -/
structure UtilizationComputer where
  retiredMappedModels : Dict ℕ MappedModel
  globalTimeUs : ℚ
  numChiplets : ℤ

/-- The activity of each chiplet at each time point. -/
abbrev ActivityAtTimeStep := Dict ℚ (Dict ℕ Bool)

/-- One value for each kind of activity. -/
structure Activities (α : Type) where
  compute : α
  activationComm : α
  weightLoading : α
  combined : α

/-- The same function for all kinds of activity. -/
def Activities.map {α β : Type} (f : α → β) (a : Activities α) : Activities β :=
  ⟨f a.compute, f a.activationComm, f a.weightLoading, f a.combined⟩

/-- The metrics of one kind of activity. -/
structure ActivityMetrics where
  atTimeStep : ActivityAtTimeStep
  overTime : Dict ℕ (List Bool)
  systemUtilizationPct : List ℚ

/-- The metrics of all kinds of activity at the time points. -/
structure UtilizationMetrics where
  timePoints : List ℚ
  activities : Activities ActivityMetrics

namespace UtilizationComputer

/-- For ceiling operations. -/
def epsilon : ℚ := 1 / 10 ^ 9

variable (uc : UtilizationComputer)

/-- The chiplets of all mappings. -/
def allSystemChipletIds : List ℕ :=
  (uc.retiredMappedModels.values.flatMap fun m =>
    m.mapping.flatMap fun e => e.2.map Prod.fst).dedup

/-- The number of chiplets that utilization refers to. -/
def effectiveTotalChiplets : ℤ :=
  if 0 < uc.numChiplets then uc.numChiplets else uc.allSystemChipletIds.length

/-- `np.arange(0, global_time_us + time_step_us, time_step_us)`. -/
def timePoints (timeStepUs : ℚ) : List ℚ :=
  (List.range ⌈(uc.globalTimeUs + timeStepUs) / timeStepUs⌉₊).map fun t : ℕ => t * timeStepUs

/-! ## Marking -/

/-- `if cid in activity[tp]: activity[tp][cid] = 1`. -/
def markChiplet (tp : ℚ) (activity : ActivityAtTimeStep) (cid : ℕ) : ActivityAtTimeStep :=
  match activity.get2? tp cid with
  | some _ => activity.set2 tp cid true
  | none => activity

/-- `range(start_tp_idx, end_tp_idx)` for an interval. -/
def timeIndices (numTimePoints : ℕ) (timeStepUs startTime endTime : ℚ) : List ℕ :=
  let startIdx := max 0 ⌊startTime / timeStepUs⌋
  let endIdx := min (numTimePoints : ℤ) ⌈(endTime - epsilon) / timeStepUs⌉
  List.range' startIdx.toNat (endIdx - startIdx).toNat

/-- Mark some chiplets throughout an interval. -/
def markInterval (timePoints : List ℚ) (timeStepUs : ℚ) (chiplets : List ℕ) (startTime endTime : ℚ)
    (activity : ActivityAtTimeStep) : ActivityAtTimeStep :=
  (timeIndices timePoints.length timeStepUs startTime endTime).foldl (fun activity t =>
    chiplets.foldl (markChiplet (timePoints.getD t 0)) activity) activity

/-- The start and the latencies of a layer for one input. -/
structure LayerTimes where
  startTime : ℚ
  computeLatency : ℚ
  activationCommLatency : ℚ
  weightLoadingLatency : ℚ

/-- Mark the activities of one layer. -/
def markLayer (timePoints : List ℚ) (timeStepUs : ℚ) (chiplets : List ℕ) (times : LayerTimes)
    (a : Activities ActivityAtTimeStep) : Activities ActivityAtTimeStep :=
  let start := times.startTime
  let compute := max 0 times.computeLatency
  let activationComm := max 0 times.activationCommLatency
  let weightLoading := max 0 times.weightLoadingLatency
  let mark := markInterval timePoints timeStepUs chiplets
  { compute :=
      if 0 ≤ start ∧ 0 < compute then mark start (start + compute) a.compute else a.compute
    activationComm :=
      if 0 ≤ start ∧ 0 < activationComm then
        mark (start + compute) (start + compute + activationComm) a.activationComm
      else a.activationComm
    -- weights are assumed to be loaded right before the layer computes
    weightLoading :=
      if 0 ≤ start ∧ 0 < weightLoading then mark (start - weightLoading) start a.weightLoading
      else a.weightLoading
    combined :=
      if 0 ≤ start ∧ (0 < compute ∨ 0 < activationComm ∨ 0 < weightLoading) then
        mark (start - weightLoading) (start + compute + activationComm) a.combined
      else a.combined }

/-- `{cid for cid, _ in layer_to_chiplets_map.get(layer_idx, [])}`. -/
def chipletsForLayer (m : MappedModel) (layerIdx : ℕ) : List ℕ :=
  (((Dict.ofList m.mapping).getD layerIdx []).map Prod.fst).dedup

/-- Mark the layers of one input, if all of its times are there. -/
def markInput (timePoints : List ℚ) (timeStepUs : ℚ) (m : MappedModel)
    (a : Activities ActivityAtTimeStep) (inputIdx : ℕ) : Activities ActivityAtTimeStep :=
  match m.layerRecords.startTimeUs.get? inputIdx, m.layerRecords.computeLatency.get? inputIdx,
    m.layerRecords.activationCommLatency.get? inputIdx,
    m.layerRecords.weightLoadingLatency.get? inputIdx with
  | some starts, some computes, some activationComms, some weightLoadings =>
    (List.range m.numLayers).foldl (fun a l =>
      let chiplets := chipletsForLayer m l
      if chiplets.isEmpty then a
      else markLayer timePoints timeStepUs chiplets
        ⟨starts.getD l (-1), computes.getD l 0, activationComms.getD l 0, weightLoadings.getD l 0⟩
        a) a
  | _, _, _, _ => a

/-- Mark the activities of all models. -/
def markModels (timeStepUs : ℚ) (a : Activities ActivityAtTimeStep) :
    Activities ActivityAtTimeStep :=
  uc.retiredMappedModels.values.foldl (fun a m =>
    (List.range m.numInputs).foldl (markInput (uc.timePoints timeStepUs) timeStepUs m) a) a

/-! ## Metrics -/

/-- `_calculate_derived_utilization_metrics`, together with the activity itself. -/
def calculateDerivedUtilizationMetrics (timePoints : List ℚ) (activity : ActivityAtTimeStep) :
    ActivityMetrics where
  atTimeStep := activity
  overTime := .comprehension uc.allSystemChipletIds fun cid =>
    timePoints.map fun tp => (activity.get2? tp cid).getD false
  systemUtilizationPct := timePoints.map fun tp =>
    if 0 < uc.effectiveTotalChiplets then
      ((uc.allSystemChipletIds.filter fun cid => (activity.get2? tp cid).getD false).length : ℚ) /
        uc.effectiveTotalChiplets * 100
    else 0

/-- `_set_default_utilization_metrics`. -/
def defaultUtilizationMetrics (timePoints : List ℚ) (activity : ActivityAtTimeStep)
    (percentages : List ℚ) : UtilizationMetrics where
  timePoints := timePoints
  activities := ⟨⟨activity, .empty, percentages⟩, ⟨activity, .empty, percentages⟩,
    ⟨activity, .empty, percentages⟩, ⟨activity, .empty, percentages⟩⟩

/-- Nothing is marked yet. -/
def noActivity (timeStepUs : ℚ) : ActivityAtTimeStep :=
  .comprehension (uc.timePoints timeStepUs) fun _ =>
    .comprehension uc.allSystemChipletIds fun _ => false

/-- `compute_utilization_over_time`. -/
def computeUtilizationOverTime (timeStepUs : ℚ) : UtilizationMetrics :=
  let timePoints := uc.timePoints timeStepUs
  if uc.retiredMappedModels.entries = [] ∨ uc.globalTimeUs ≤ 0 ∨ timeStepUs ≤ 0 then
    defaultUtilizationMetrics [] .empty []
  else if uc.allSystemChipletIds = [] then
    defaultUtilizationMetrics timePoints (.comprehension timePoints fun _ => .empty)
      (timePoints.map fun _ => 0)
  else if timePoints = [] then defaultUtilizationMetrics timePoints .empty []
  else
    let none := uc.noActivity timeStepUs
    { timePoints := timePoints
      activities := (uc.markModels timeStepUs ⟨none, none, none, none⟩).map
        (uc.calculateDerivedUtilizationMetrics timePoints) }

/-! ## Combined activity -/

/-- The flag of the combined activity is there if the other three are, and is set if one of them
is. -/
inductive Joined : Option Bool → Option Bool → Option Bool → Option Bool → Prop
  | missing : Joined none none none none
  | flag (c a w : Bool) : Joined (some c) (some a) (some w) (some (c || a || w))

/-! ### One interval -/

theorem mem_timeIndices {n t : ℕ} {timeStepUs startTime endTime : ℚ} :
    t ∈ timeIndices n timeStepUs startTime endTime ↔
      t < n ∧ InBins timeStepUs epsilon startTime endTime t := by
  unfold timeIndices InBins
  dsimp only
  rw [List.mem_range'_1]
  omega

/-- A flag stays as it is or is set, and is set for sure under a condition. -/
inductive Marked (p : Prop) : Option Bool → Option Bool → Prop
  | missing : Marked p none none
  | flag {f f' : Bool} (h : f' = true ↔ f = true ∨ p) : Marked p (some f) (some f')

theorem Marked.of_not {p : Prop} (hp : ¬p) (f : Option Bool) : Marked p f f := by
  cases f with
  | none => exact .missing
  | some f => exact .flag (or_iff_left hp).symm

theorem Marked.trans {p q : Prop} {f f' f'' : Option Bool} (h : Marked p f f')
    (h' : Marked q f' f'') : Marked (p ∨ q) f f'' := by
  cases h with
  | missing =>
    cases h'
    exact .missing
  | flag hiff =>
    cases h' with
    | flag hiff' => exact .flag (by rw [hiff', hiff, or_assoc])

/-- Flags stay joined when the fourth one is set whenever one of the others is. -/
theorem Joined.marked {p q r : Prop} {c c' a a' w w' x x' : Option Bool} (h : Joined c a w x)
    (hc : Marked p c c') (ha : Marked q a a') (hw : Marked r w w')
    (hx : Marked ((p ∨ q) ∨ r) x x') : Joined c' a' w' x' := by
  cases h with
  | missing =>
    cases hc
    cases ha
    cases hw
    cases hx
    exact .missing
  | flag c a w =>
    cases hc with | @flag _ c' hc =>
    cases ha with | @flag _ a' ha =>
    cases hw with | @flag _ w' hw =>
    cases hx with | @flag _ x' hx =>
    have heq : x' = (c' || a' || w') := by
      rw [Bool.eq_iff_iff, Bool.or_eq_true, Bool.or_eq_true, hx, hc, ha, hw, Bool.or_eq_true,
        Bool.or_eq_true, or_or_or_comm,
        or_or_or_comm (a := c = true)]
    exact heq ▸ .flag c' a' w'

/-- `a'` has the flags of `a`, and in addition those of `P` are set. -/
def Marks (P : ℚ → ℕ → Prop) (a a' : ActivityAtTimeStep) : Prop :=
  ∀ tp cid, Marked (P tp cid) (a.get2? tp cid) (a'.get2? tp cid)

section

variable {P Q : ℚ → ℕ → Prop} {a a' a'' : ActivityAtTimeStep}

theorem Marks.refl (a : ActivityAtTimeStep) : Marks (fun _ _ => False) a a :=
  fun _ _ => Marked.of_not not_false _

theorem Marks.congr (h : Marks P a a') (hPQ : ∀ tp cid, P tp cid ↔ Q tp cid) : Marks Q a a' :=
  fun tp cid => propext (hPQ tp cid) ▸ h tp cid

theorem Marks.trans (h : Marks P a a') (h' : Marks Q a' a'') :
    Marks (fun tp cid => P tp cid ∨ Q tp cid) a a'' :=
  fun tp cid => (h tp cid).trans (h' tp cid)

/-- A loop marks what its passes mark. -/
theorem marks_foldl {ι : Type} {f : ActivityAtTimeStep → ι → ActivityAtTimeStep}
    {P : ι → ℚ → ℕ → Prop} (step : ∀ a i, Marks (P i) a (f a i)) (l : List ι)
    (a : ActivityAtTimeStep) : Marks (fun tp cid => ∃ i ∈ l, P i tp cid) a (l.foldl f a) := by
  induction l generalizing a with
  | nil => exact (Marks.refl a).congr fun tp cid => by simp
  | cons i l ih =>
    exact ((step a i).trans (ih (f a i))).congr fun tp cid => by rw [List.exists_mem_cons_iff]

end

theorem marks_markChiplet (tp : ℚ) (a : ActivityAtTimeStep) (cid : ℕ) :
    Marks (fun tp' cid' => tp' = tp ∧ cid' = cid) a (markChiplet tp a cid) := by
  intro tp' cid'
  by_cases heq : tp' = tp ∧ cid' = cid
  · obtain ⟨rfl, rfl⟩ := heq
    unfold markChiplet
    cases hflag : a.get2? tp' cid' with
    | none =>
      dsimp only
      rw [hflag]
      exact .missing
    | some flag =>
      dsimp only
      rw [Dict.get2?_set2, if_pos ⟨rfl, rfl⟩]
      exact .flag (by simp)
  · have hsame : (markChiplet tp a cid).get2? tp' cid' = a.get2? tp' cid' := by
      unfold markChiplet
      split
      · rw [Dict.get2?_set2, if_neg heq]
      · rfl
    rw [hsame]
    exact Marked.of_not heq _

/-- An interval marks its chiplets at its time points. -/
theorem marks_markInterval (timePoints : List ℚ) (timeStepUs : ℚ) (chiplets : List ℕ)
    (startTime endTime : ℚ) (a : ActivityAtTimeStep) :
    Marks (fun tp cid => ∃ t < timePoints.length, InBins timeStepUs epsilon startTime endTime t ∧
      tp = timePoints.getD t 0 ∧ cid ∈ chiplets) a
      (markInterval timePoints timeStepUs chiplets startTime endTime a) := by
  have hpoint : ∀ (a : ActivityAtTimeStep) (t : ℕ),
      Marks (fun tp cid => tp = timePoints.getD t 0 ∧ cid ∈ chiplets) a
        (chiplets.foldl (markChiplet (timePoints.getD t 0)) a) := fun a t =>
    (marks_foldl (fun a cid => marks_markChiplet _ a cid) chiplets a).congr fun tp cid => by
      simp [and_comm]
  refine (marks_foldl hpoint _ a).congr fun tp cid => ?_
  simp only [mem_timeIndices, and_assoc]

/-! ### One layer -/

/-- **Joints.** The range of the whole activity of a layer consists of the ranges of its parts. -/
theorem inBins_parts (start : ℚ) {timeStepUs compute activationComm weightLoading : ℚ} {t : ℤ}
    (hstep : epsilon < timeStepUs) (hc : 0 ≤ compute) (ha : 0 ≤ activationComm)
    (hw : 0 ≤ weightLoading) :
    (0 < compute ∨ 0 < activationComm ∨ 0 < weightLoading) ∧
        InBins timeStepUs epsilon (start - weightLoading) (start + compute + activationComm) t ↔
      ((0 < compute ∧ InBins timeStepUs epsilon start (start + compute) t) ∨
        (0 < activationComm ∧
          InBins timeStepUs epsilon (start + compute) (start + compute + activationComm) t)) ∨
      (0 < weightLoading ∧ InBins timeStepUs epsilon (start - weightLoading) start t) := by
  have hpos : 0 < timeStepUs := lt_trans (by norm_num [epsilon]) hstep
  constructor
  · rintro ⟨hsome, ht⟩
    -- a part of no length lies in the range of a part next to it
    rcases ht.split hpos hstep start with hload | hrest
    · rcases hw.eq_or_lt with rfl | hw
      · rw [sub_zero] at hload
        rcases hc.eq_or_lt with rfl | hc
        · have ha : 0 < activationComm := by simpa using hsome
          exact Or.inl (Or.inr ⟨ha, hload.mono hpos (by linarith) (by linarith)⟩)
        · exact Or.inl (Or.inl ⟨hc, hload.mono hpos le_rfl (by linarith)⟩)
      · exact Or.inr ⟨hw, hload⟩
    · rcases hrest.split hpos hstep (start + compute) with hcompute | hcomm
      · rcases hc.eq_or_lt with rfl | hc
        · rcases hw.eq_or_lt with rfl | hw
          · have ha : 0 < activationComm := by simpa using hsome
            exact Or.inl (Or.inr ⟨ha, hcompute.mono hpos (by linarith) (by linarith)⟩)
          · exact Or.inr ⟨hw, hcompute.mono hpos (by linarith) (by linarith)⟩
        · exact Or.inl (Or.inl ⟨hc, hcompute⟩)
      · rcases ha.eq_or_lt with rfl | ha
        · rcases hc.eq_or_lt with rfl | hc
          · have hw : 0 < weightLoading := by simpa using hsome
            exact Or.inr ⟨hw, hcomm.mono hpos (by linarith) (by linarith)⟩
          · exact Or.inl (Or.inl ⟨hc, hcomm.mono hpos (by linarith) (by linarith)⟩)
        · exact Or.inl (Or.inr ⟨ha, hcomm⟩)
  · rintro ((⟨hpart, ht⟩ | ⟨hpart, ht⟩) | ⟨hpart, ht⟩)
    · exact ⟨Or.inl hpart, ht.mono hpos (by linarith) (by linarith)⟩
    · exact ⟨Or.inr (Or.inl hpart), ht.mono hpos (by linarith) (by linarith)⟩
    · exact ⟨Or.inr (Or.inr hpart), ht.mono hpos (by linarith) (by linarith)⟩

/-- The flags of all chiplets at all time points are joined. -/
def AllJoined (a : Activities ActivityAtTimeStep) : Prop :=
  ∀ tp cid, Joined (a.compute.get2? tp cid) (a.activationComm.get2? tp cid)
    (a.weightLoading.get2? tp cid) (a.combined.get2? tp cid)

/-- An interval that is marked under a condition. -/
theorem marks_ite (timePoints : List ℚ) (timeStepUs : ℚ) (chiplets : List ℕ) (p : Prop)
    [Decidable p] (startTime endTime : ℚ) (a : ActivityAtTimeStep) :
    Marks (fun tp cid => ∃ t < timePoints.length,
        (p ∧ InBins timeStepUs epsilon startTime endTime t) ∧
          tp = timePoints.getD t 0 ∧ cid ∈ chiplets) a
      (if p then markInterval timePoints timeStepUs chiplets startTime endTime a else a) := by
  split
  · next hp =>
    refine (marks_markInterval timePoints timeStepUs chiplets startTime endTime a).congr
      fun tp cid => ?_
    simp only [hp, true_and]
  · next hp => exact (Marks.refl a).congr fun tp cid => by simp [hp]

/-- What is marked in the first three dictionaries, and all of it in the fourth, keeps the flags
joined. -/
theorem AllJoined.marks {a a' : Activities ActivityAtTimeStep} (h : AllJoined a)
    {C A W X : ℚ → ℕ → Prop} (hc : Marks C a.compute a'.compute)
    (ha : Marks A a.activationComm a'.activationComm)
    (hw : Marks W a.weightLoading a'.weightLoading) (hx : Marks X a.combined a'.combined)
    (hX : ∀ tp cid, X tp cid ↔ (C tp cid ∨ A tp cid) ∨ W tp cid) : AllJoined a' := by
  intro tp cid
  have hx' := hx tp cid
  rw [hX tp cid] at hx'
  exact (h tp cid).marked (hc tp cid) (ha tp cid) (hw tp cid) hx'

/-- **One layer.** Marking the activities of a layer keeps the flags joined. -/
theorem AllJoined.markLayer {timePoints : List ℚ} {timeStepUs : ℚ} {chiplets : List ℕ}
    {times : LayerTimes} {a : Activities ActivityAtTimeStep} (h : AllJoined a)
    (hstep : epsilon < timeStepUs) :
    AllJoined (markLayer timePoints timeStepUs chiplets times a) := by
  refine h.marks (marks_ite _ _ _ _ _ _ _) (marks_ite _ _ _ _ _ _ _) (marks_ite _ _ _ _ _ _ _)
    (marks_ite _ _ _ _ _ _ _) fun tp cid => ?_
  have hparts := fun t : ℤ => inBins_parts times.startTime (t := t) hstep
    (le_max_left 0 times.computeLatency) (le_max_left 0 times.activationCommLatency)
    (le_max_left 0 times.weightLoadingLatency)
  have hpoint : ∀ t : ℕ, (0 ≤ times.startTime ∧ _) ∧ _ ↔ (_ ∨ _) ∨ _ := fun t => by
    rw [and_assoc, hparts t, and_or_left, and_or_left, ← and_assoc, ← and_assoc, ← and_assoc]
  simp only [hpoint]
  simp only [or_and_right, and_or_left, exists_or]

/-! ### All models -/

section

variable {timeStepUs : ℚ} {a : Activities ActivityAtTimeStep}

theorem AllJoined.markInput (h : AllJoined a) (hstep : epsilon < timeStepUs)
    (timePoints : List ℚ) (m : MappedModel) (inputIdx : ℕ) :
    AllJoined (markInput timePoints timeStepUs m a inputIdx) := by
  unfold UtilizationComputer.markInput
  split
  · refine List.foldlRecOn (motive := AllJoined) _ _ h fun a ha l _ => ?_
    dsimp only
    split
    · exact ha
    · exact ha.markLayer hstep
  · exact h

/-- **All layers.** The flags stay joined in the loops over models, inputs and layers. -/
theorem AllJoined.markModels (h : AllJoined a) (hstep : epsilon < timeStepUs) :
    AllJoined (uc.markModels timeStepUs a) := by
  refine List.foldlRecOn (motive := AllJoined) _ _ h fun a ha m _ => ?_
  exact List.foldlRecOn (motive := AllJoined) _ _ ha fun a ha i _ => ha.markInput hstep _ m i

/-- Dictionaries without a set flag are joined. -/
theorem allJoined_of_unset {activity : ActivityAtTimeStep}
    (h : ∀ tp cid, activity.get2? tp cid ≠ some true) :
    AllJoined ⟨activity, activity, activity, activity⟩ := by
  intro tp cid
  dsimp only
  cases hflag : activity.get2? tp cid with
  | none => exact .missing
  | some flag =>
    cases flag with
    | false => exact .flag false false false
    | true => exact absurd hflag (h tp cid)

theorem noActivity_unset (tp : ℚ) (cid : ℕ) :
    (uc.noActivity timeStepUs).get2? tp cid ≠ some true := by
  unfold noActivity Dict.get2?
  rw [Dict.get?_comprehension]
  split
  · rw [Option.bind_some, Dict.get?_comprehension]
    split <;> simp
  · simp

end

/-- The combined activity of each chiplet at each time point, also as a list over time, is the
disjunction of the other activities. -/
structure CombinedIsOr (r : Activities ActivityMetrics) : Prop where
  atTimeStep : ∀ tp cid, Joined (r.compute.atTimeStep.get2? tp cid)
    (r.activationComm.atTimeStep.get2? tp cid) (r.weightLoading.atTimeStep.get2? tp cid)
    (r.combined.atTimeStep.get2? tp cid)
  overTime : ∀ cid (t : ℕ), Joined ((r.compute.overTime.get? cid).bind (·[t]?))
    ((r.activationComm.overTime.get? cid).bind (·[t]?))
    ((r.weightLoading.overTime.get? cid).bind (·[t]?))
    ((r.combined.overTime.get? cid).bind (·[t]?))

theorem Joined.getD {c a w x : Option Bool} (h : Joined c a w x) :
    Joined (some (c.getD false)) (some (a.getD false)) (some (w.getD false))
      (some (x.getD false)) := by
  cases h with
  | missing => exact .flag false false false
  | flag c a w => exact .flag c a w

theorem AllJoined.derived {a : Activities ActivityAtTimeStep} (h : AllJoined a)
    (timePoints : List ℚ) :
    CombinedIsOr (a.map (uc.calculateDerivedUtilizationMetrics timePoints)) where
  atTimeStep := h
  overTime cid t := by
    unfold Activities.map calculateDerivedUtilizationMetrics
    simp only [Dict.get?_comprehension]
    by_cases hcid : cid ∈ uc.allSystemChipletIds
    · simp only [if_pos hcid, Option.bind_some, List.getElem?_map]
      cases timePoints[t]? with
      | none => exact .missing
      | some tp => exact (h tp cid).getD
    · simp only [if_neg hcid, Option.bind_none]
      exact .missing

theorem combinedIsOr_default {timePoints : List ℚ} {activity : ActivityAtTimeStep}
    {percentages : List ℚ} (h : ∀ tp cid, activity.get2? tp cid ≠ some true) :
    CombinedIsOr (defaultUtilizationMetrics timePoints activity percentages).activities where
  atTimeStep := allJoined_of_unset h
  overTime _ _ := .missing

/-- **Combined activity.** With time steps above the tolerance, at every time point a chiplet is
active if it computes, sends activations or loads weights, and only then. -/
theorem combined_activity (timeStepUs : ℚ) (hstep : epsilon < timeStepUs) :
    CombinedIsOr (uc.computeUtilizationOverTime timeStepUs).activities := by
  unfold computeUtilizationOverTime
  dsimp only
  split
  · exact combinedIsOr_default fun tp cid => by simp [Dict.get2?]
  · split
    · refine combinedIsOr_default fun tp cid => ?_
      unfold Dict.get2?
      rw [Dict.get?_comprehension]
      split <;> simp
    · split
      · exact combinedIsOr_default fun tp cid => by simp [Dict.get2?]
      · exact ((allJoined_of_unset uc.noActivity_unset).markModels uc hstep).derived uc _

/-- One retired model with a single layer on one chiplet. -/
def oneLayer (globalTimeUs : ℚ) (times : LayerTimes) : UtilizationComputer where
  retiredMappedModels := .ofList [(0,
    { modelIdx := 0
      numLayers := 1
      numInputs := 1
      communicationMethod := .pipelined
      weightStationary := true
      modelName := "one-layer"
      mapping := [(0, [(1, 100)])]
      modelDef := ⟨.empty⟩
      modelMetrics := []
      modelStartTimeUs := 0
      inputStartTimeUs := [0]
      inputCompletionTimeUs := [globalTimeUs]
      modelCompletionTimeUs := globalTimeUs
      usedCapacity := [1]
      phaseInstances := .empty
      weightsLoaded := .empty
      layerRecords :=
        { startTimeUs := .ofList [(0, .ofList [(0, times.startTime)])]
          computeLatency := .ofList [(0, .ofList [(0, times.computeLatency)])]
          activationCommLatency := .ofList [(0, .ofList [(0, times.activationCommLatency)])]
          weightLoadingLatency := .ofList [(0, .ofList [(0, times.weightLoadingLatency)])] } })]
  globalTimeUs := globalTimeUs
  numChiplets := 1

/-- A layer that loads weights from `1/4` on, computes from `3/2` to `2` and sends until `9/4`. -/
theorem combined_activity_oneLayer :
    CombinedIsOr
      ((oneLayer 4 ⟨3 / 2, 1 / 2, 1 / 4, 5 / 4⟩).computeUtilizationOverTime 1).activities ∧
      ((oneLayer 4 ⟨3 / 2, 1 / 2, 1 / 4, 5 / 4⟩).computeUtilizationOverTime
        1).activities.combined.overTime.get? 1 = some [true, true, true, false, false] :=
  ⟨combined_activity _ 1 (by decide +kernel), by decide +kernel⟩

/-- With a time step of the tolerance, there is a gap between computing for two steps and sending
for two steps. -/
theorem combined_activity_gap :
    let r := ((oneLayer (4 / 10 ^ 9) ⟨0, 2 / 10 ^ 9, 2 / 10 ^ 9, 0⟩).computeUtilizationOverTime
      (1 / 10 ^ 9)).activities
    r.compute.overTime.get? 1 = some [true, false, false, false, false] ∧
      r.activationComm.overTime.get? 1 = some [false, false, true, false, false] ∧
      r.weightLoading.overTime.get? 1 = some [false, false, false, false, false] ∧
      r.combined.overTime.get? 1 = some [true, true, true, false, false] := by
  decide +kernel

end UtilizationComputer

end ChipSim
