import ChipSim.MappedModel.Timing

/-!
# The schedule that is built

With `L` layers the compute phase of layer `l` has id `2 * l`, its activation communication phase
(for `l + 1 < L`) has id `2 * l + 1`, and the weight loading phases follow from id `2 * L - 1` on.
The closed form of the configured schedule (`Configured`) gives the facts every proof about
ticks rests on, collected in `PhaseSchedule.WellFormed`.
-/

namespace ChipSim

open Lib

namespace PhaseSchedule

/-! ## The default schedule -/

/-- Phase `p` as the constructor's first loop creates it. -/
def createdPhase (modelIdx p : ℕ) : Phase where
  phaseId := p
  modelIdx := modelIdx
  dependencies := if p % 2 = 1 then [p - 1] else []
  kind := if p % 2 = 1 then .activationComm (p / 2) none else .compute (p / 2)

/-- Phase `p` of the default schedule: each phase depends on the one before it. -/
def defaultPhase (modelIdx p : ℕ) : Phase where
  phaseId := p
  modelIdx := modelIdx
  dependencies := if p = 0 then [] else [p - 1]
  kind := if p % 2 = 1 then .activationComm (p / 2) none else .compute (p / 2)

/-- The number of phases of the first `k` of `L` layers. -/
def phaseCount (L k : ℕ) : ℕ := if k < L then 2 * k else 2 * L - 1

/-- The schedule after the phases of the first `k` layers were added. -/
structure LayersAdded (k : ℕ) (s : PhaseSchedule) : Prop where
  next : s.nextPhaseId = phaseCount s.numLayers k
  phases : ∀ p, s.phases.get? p =
    if p < phaseCount s.numLayers k then some (createdPhase s.modelIdx p) else none
  compute : ∀ l, s.layerToComputePhase.get? l = if l < k then some (2 * l) else none
  activation : ∀ l, s.layerToActivationCommPhase.get? l =
    if l < k ∧ l + 1 < s.numLayers then some (2 * l + 1) else none
  weight : s.layerToWeightCommPhase = .empty

theorem createdPhase_even (modelIdx l : ℕ) :
    createdPhase modelIdx (2 * l) =
      { phaseId := 2 * l, modelIdx := modelIdx, kind := .compute l } := by
  have h : 2 * l % 2 ≠ 1 := by omega
  have h' : 2 * l / 2 = l := by omega
  simp only [createdPhase, if_neg h, h']

theorem createdPhase_odd (modelIdx l : ℕ) :
    createdPhase modelIdx (2 * l + 1) =
      { phaseId := 2 * l + 1, modelIdx := modelIdx, dependencies := [2 * l],
        kind := .activationComm l none } := by
  have h : (2 * l + 1) % 2 = 1 := by omega
  have h' : (2 * l + 1) / 2 = l := by omega
  simp only [createdPhase, if_pos h, h', Nat.add_sub_cancel]

theorem layersAdded_addLayerPhases {s : PhaseSchedule} {k : ℕ} (h : LayersAdded k s)
    (hk : k < s.numLayers) : LayersAdded (k + 1) (s.addLayerPhases k) := by
  have hnext : s.nextPhaseId = 2 * k := by rw [h.next, phaseCount, if_pos hk]
  have hold : ∀ p, s.phases.get? p =
      if p < 2 * k then some (createdPhase s.modelIdx p) else none := by
    intro p
    rw [h.phases, phaseCount, if_pos hk]
  unfold addLayerPhases
  by_cases hlast : k + 1 < s.numLayers
  · rw [if_pos hlast]
    refine ⟨?_, ?_, ?_, ?_, h.weight⟩
    · simp [addActivationCommPhase, addComputePhase, addPhaseObject, phaseCount, hnext, hlast]
      omega
    · intro p
      simp only [addActivationCommPhase, addComputePhase, addPhaseObject, phaseCount, hnext, hlast,
        if_true, Dict.get?_set, hold]
      have hm : max (2 * k) (2 * k + 1) = 2 * k + 1 := by omega
      rw [hm]
      by_cases h1 : p = 2 * k + 1
      · rw [if_pos h1, if_pos (by omega), h1, createdPhase_odd]
      · by_cases h0 : p = 2 * k
        · rw [if_neg h1, if_pos h0, if_pos (by omega), h0, createdPhase_even]
        · rw [if_neg h1, if_neg h0]
          by_cases hp : p < 2 * k
          · rw [if_pos hp, if_pos (by omega)]
          · rw [if_neg hp, if_neg (by omega)]
    · intro l
      simp only [addActivationCommPhase, addComputePhase, addPhaseObject, hnext, Dict.get?_set,
        h.compute]
      by_cases hl : l = k
      · simp [hl]
      · rw [if_neg hl]
        congr 1
        exact propext ⟨fun _ => by omega, fun _ => by omega⟩
    · intro l
      simp only [addActivationCommPhase, addComputePhase, addPhaseObject, hnext, Dict.get?_set,
        h.activation]
      have hm : max (2 * k) (2 * k + 1) = 2 * k + 1 := by omega
      rw [hm]
      by_cases hl : l = k
      · simp [hl, hlast]
      · rw [if_neg hl]
        congr 1
        exact propext ⟨fun _ => by omega, fun _ => by omega⟩
  · rw [if_neg hlast]
    have hL : s.numLayers = k + 1 := by omega
    refine ⟨?_, ?_, ?_, ?_, h.weight⟩
    · simp [addComputePhase, addPhaseObject, phaseCount, hnext, hL]
      omega
    · intro p
      simp only [addComputePhase, addPhaseObject, phaseCount, hnext, hlast, if_false,
        Dict.get?_set, hold]
      by_cases h0 : p = 2 * k
      · rw [if_pos h0, if_pos (by omega), h0, createdPhase_even]
      · rw [if_neg h0]
        by_cases hp : p < 2 * k
        · rw [if_pos hp, if_pos (by omega)]
        · rw [if_neg hp, if_neg (by omega)]
    · intro l
      simp only [addComputePhase, addPhaseObject, hnext, Dict.get?_set, h.compute]
      by_cases hl : l = k
      · simp [hl]
      · rw [if_neg hl]
        congr 1
        exact propext ⟨fun _ => by omega, fun _ => by omega⟩
    · intro l
      simp only [addComputePhase, addPhaseObject, h.activation]
      congr 1
      exact propext ⟨fun _ => by omega, fun _ => by omega⟩

theorem layersAdded_foldl {s : PhaseSchedule} (h : LayersAdded 0 s) (k : ℕ)
    (hk : k ≤ s.numLayers) :
    LayersAdded k ((List.range k).foldl addLayerPhases s) ∧
      ((List.range k).foldl addLayerPhases s).numLayers = s.numLayers := by
  induction k with
  | zero => exact ⟨h, rfl⟩
  | succ k ih =>
    obtain ⟨hadd, hL⟩ := ih (by omega)
    rw [List.range_succ, List.foldl_append, List.foldl_cons, List.foldl_nil]
    refine ⟨layersAdded_addLayerPhases hadd (by omega), ?_⟩
    rw [← hL]
    unfold addLayerPhases
    split <;> rfl

/-! ## Loops over dependencies

Every loop that adds dependencies only updates phases; the lookup tables stay as they are. -/

/-- A loop each pass of which updates one phase. -/
theorem foldl_phases (step : PhaseSchedule → ℕ → PhaseSchedule) (ks : List ℕ) (key : ℕ → ℕ)
    (f : ℕ → Phase → Phase) (s : PhaseSchedule)
    (h : ∀ l ∈ ks, ∀ d : Dict ℕ Phase,
      step { s with phases := d } l = { s with phases := d.modify (key l) (f l) }) :
    ks.foldl step s =
      { s with phases := ks.foldl (fun d l => d.modify (key l) (f l)) s.phases } := by
  suffices hd : ∀ d : Dict ℕ Phase, ks.foldl step { s with phases := d } =
      { s with phases := ks.foldl (fun d l => d.modify (key l) (f l)) d } from hd s.phases
  induction ks with
  | nil => intro d; rfl
  | cons l ks ih =>
    intro d
    rw [List.foldl_cons, List.foldl_cons, h l List.mem_cons_self]
    exact ih (fun l' hl' => h l' (List.mem_cons_of_mem _ hl')) _

/-- The tables of a schedule whose default phases are in place. -/
structure DefaultTables (s : PhaseSchedule) : Prop where
  compute : ∀ l, s.layerToComputePhase.get? l = if l < s.numLayers then some (2 * l) else none
  activation : ∀ l, s.layerToActivationCommPhase.get? l =
    if l + 1 < s.numLayers then some (2 * l + 1) else none

theorem two_mul_injective : Function.Injective fun l : ℕ => 2 * l :=
  fun a b h => by simpa using h

/-- The closed form of the default schedule. -/
structure DefaultBuilt (s : PhaseSchedule) : Prop extends DefaultTables s where
  next : s.nextPhaseId = 2 * s.numLayers - 1
  phases : ∀ p, s.phases.get? p =
    if p < 2 * s.numLayers - 1 then some (defaultPhase s.modelIdx p) else none
  weight : s.layerToWeightCommPhase = .empty

theorem mem_range'_one {l n : ℕ} : l ∈ List.range' 1 (n - 1) ↔ 1 ≤ l ∧ l < n := by
  rw [List.mem_range'_1]
  omega

theorem linkComputePhase_eq {s : PhaseSchedule} (ht : DefaultTables s) {l : ℕ} (hl : 1 ≤ l)
    (hL : l < s.numLayers) (d : Dict ℕ Phase) :
    linkComputePhase { s with phases := d } l =
      { s with phases := d.modify (2 * l) (·.addDependency (2 * l - 1)) } := by
  have hc : s.layerToComputePhase.get? l = some (2 * l) := by rw [ht.compute, if_pos hL]
  have ha : s.layerToActivationCommPhase.get? (l - 1) = some (2 * l - 1) := by
    rw [ht.activation, if_pos (by omega)]
    congr 1
    omega
  simp only [linkComputePhase, hc, ha]
  rfl

theorem createdPhase_addDependency (modelIdx l : ℕ) (hl : 1 ≤ l) :
    (createdPhase modelIdx (2 * l)).addDependency (2 * l - 1) = defaultPhase modelIdx (2 * l) := by
  have h0 : 2 * l ≠ 0 := by omega
  simp [createdPhase, defaultPhase, Phase.addDependency, h0]

theorem createdPhase_eq_defaultPhase (modelIdx p : ℕ) (h : p % 2 = 1 ∨ p = 0) :
    createdPhase modelIdx p = defaultPhase modelIdx p := by
  rcases h with h | rfl
  · have h0 : p ≠ 0 := by omega
    simp [createdPhase, defaultPhase, h, h0]
  · simp [createdPhase, defaultPhase]

/-- The default schedule of a model with at least one layer. -/
theorem defaultBuilt (a : MappedModel.Args) (hL : 0 < a.numLayers) :
    DefaultBuilt a.emptySchedule.buildDefaultPhaseSchedule := by
  have hinit : LayersAdded 0 a.emptySchedule := by
    have hc : phaseCount a.numLayers 0 = 0 := if_pos hL
    refine ⟨hc.symm, ?_, ?_, ?_, rfl⟩ <;> intro p <;>
      simp [MappedModel.Args.emptySchedule, hc]
  obtain ⟨hadd, hnum⟩ := layersAdded_foldl hinit a.emptySchedule.numLayers le_rfl
  unfold buildDefaultPhaseSchedule
  set s := (List.range a.emptySchedule.numLayers).foldl addLayerPhases a.emptySchedule with hs
  rw [← hnum] at hadd ⊢
  have hpos : 0 < s.numLayers := by rw [hnum]; exact hL
  have hcount : phaseCount s.numLayers s.numLayers = 2 * s.numLayers - 1 := by
    rw [phaseCount, if_neg (lt_irrefl _)]
  have htab : DefaultTables s := by
    refine ⟨hadd.compute, fun l => ?_⟩
    rw [hadd.activation]
    congr 1
    exact propext ⟨fun h => h.2, fun h => ⟨by omega, h⟩⟩
  rw [foldl_phases linkComputePhase _ (fun l => 2 * l) (fun l ph => ph.addDependency (2 * l - 1)) s
    fun l hl d => linkComputePhase_eq htab (mem_range'_one.mp hl).1 (mem_range'_one.mp hl).2 d]
  refine ⟨⟨htab.compute, htab.activation⟩, hadd.next.trans hcount, ?_, hadd.weight⟩
  intro p
  simp only
  by_cases hp : ∃ l ∈ List.range' 1 (s.numLayers - 1), p = 2 * l
  · obtain ⟨l, hl, rfl⟩ := hp
    obtain ⟨h1, hlL⟩ := mem_range'_one.mp hl
    rw [Dict.get?_foldl_modify (fun l => 2 * l) _ _ _ two_mul_injective List.nodup_range' hl,
      hadd.phases, hcount, if_pos (by omega), if_pos (by omega), Option.map_some,
      createdPhase_addDependency _ _ h1]
  · push Not at hp
    rw [Dict.get?_foldl_modify_of_ne _ _ _ _ _ hp, hadd.phases, hcount]
    by_cases hlt : p < 2 * s.numLayers - 1
    · rw [if_pos hlt, if_pos hlt, createdPhase_eq_defaultPhase]
      by_contra hcon
      push Not at hcon
      exact hp (p / 2) (mem_range'_one.mpr ⟨by omega, by omega⟩) (by omega)
    · rw [if_neg hlt, if_neg hlt]

/-! ## Weight loading phases -/

/-- The id of the phase that loads the weights of layer `l`. -/
def weightPhaseId (strategy : WeightLoadingStrategy) (L l : ℕ) : ℕ :=
  match strategy with
  | .allAtOnce => 2 * L - 1
  | .justInTime => 2 * L - 1 + l

/-- The number of weight loading phases. -/
def weightPhaseCount (strategy : WeightLoadingStrategy) (L : ℕ) : ℕ :=
  match strategy with
  | .allAtOnce => 1
  | .justInTime => L

/-- The layers loaded by the `j`-th weight loading phase. -/
def weightLayers (strategy : WeightLoadingStrategy) (L j : ℕ) : List ℕ :=
  match strategy with
  | .allAtOnce => List.range L
  | .justInTime => [j]

/-- The weight loading phase with id `p`, before dependencies are configured. -/
def weightPhase (strategy : WeightLoadingStrategy) (modelIdx L p : ℕ) : Phase where
  phaseId := p
  modelIdx := modelIdx
  kind := .weightLoading (weightLayers strategy L (p - (2 * L - 1))) none

/-- The closed form of the schedule with `k` weight loading phases. -/
structure WeightsAdded (strategy : WeightLoadingStrategy) (k : ℕ) (s : PhaseSchedule) : Prop
    extends DefaultTables s where
  next : s.nextPhaseId = 2 * s.numLayers - 1 + k
  phases : ∀ p, s.phases.get? p =
    if p < 2 * s.numLayers - 1 then some (defaultPhase s.modelIdx p)
    else if p < 2 * s.numLayers - 1 + k then
      some (weightPhase strategy s.modelIdx s.numLayers p)
    else none

theorem weightsAdded_zero {s : PhaseSchedule} (strategy : WeightLoadingStrategy)
    (h : DefaultBuilt s) : WeightsAdded strategy 0 s := by
  refine ⟨h.toDefaultTables, h.next, fun p => ?_⟩
  rw [h.phases]
  by_cases hp : p < 2 * s.numLayers - 1
  · rw [if_pos hp, if_pos hp]
  · rw [if_neg hp, if_neg hp, if_neg (by omega)]

theorem weightsAdded_succ {s : PhaseSchedule} {strategy : WeightLoadingStrategy} {k : ℕ}
    (h : WeightsAdded strategy k s) :
    WeightsAdded strategy (k + 1)
      (s.addWeightLoadingPhase (weightLayers strategy s.numLayers k)) := by
  refine ⟨⟨h.compute, h.activation⟩, ?_, fun p => ?_⟩
  · simp only [addWeightLoadingPhase, addPhaseObject, h.next]
    omega
  · simp only [addWeightLoadingPhase, addPhaseObject, h.next, Dict.get?_set, h.phases]
    by_cases hp : p = 2 * s.numLayers - 1 + k
    · rw [if_pos hp, if_neg (by omega), if_pos (by omega), hp]
      simp [weightPhase]
    · rw [if_neg hp]
      by_cases h1 : p < 2 * s.numLayers - 1
      · rw [if_pos h1, if_pos h1]
      · rw [if_neg h1, if_neg h1]
        congr 1
        exact propext ⟨fun _ => by omega, fun _ => by omega⟩

theorem WeightsAdded.sort {s : PhaseSchedule} {strategy : WeightLoadingStrategy} {k : ℕ}
    (h : WeightsAdded strategy k s) : WeightsAdded strategy k s.sortExecutionOrder :=
  ⟨⟨h.compute, h.activation⟩, h.next, h.phases⟩

theorem weightTable_justInTime {s : PhaseSchedule} (h : DefaultBuilt s) (k : ℕ) :
    WeightsAdded .justInTime k
        (((List.range k).map fun l => [l]).foldl addWeightLoadingPhase s) ∧
      (((List.range k).map fun l => [l]).foldl addWeightLoadingPhase s).numLayers =
        s.numLayers ∧
      ∀ l, (((List.range k).map fun l => [l]).foldl
        addWeightLoadingPhase s).layerToWeightCommPhase.get? l =
          if l < k then some (2 * s.numLayers - 1 + l) else none := by
  induction k with
  | zero =>
    refine ⟨weightsAdded_zero _ h, rfl, fun l => ?_⟩
    simp [h.weight]
  | succ k ih =>
    obtain ⟨hadd, hnum, hweight⟩ := ih
    rw [List.range_succ, List.map_append, List.foldl_append, List.map_singleton, List.foldl_cons,
      List.foldl_nil]
    refine ⟨weightsAdded_succ hadd, hnum, fun l => ?_⟩
    simp only [addWeightLoadingPhase, List.foldl_cons, List.foldl_nil, Dict.get?_set, hadd.next,
      hnum, hweight]
    by_cases hl : l = k
    · simp [hl]
    · rw [if_neg hl]
      congr 1
      exact propext ⟨fun _ => by omega, fun _ => by omega⟩

theorem values_generateSchedule (strategy : WeightLoadingStrategy) (L : ℕ) :
    (WeightScheduler.generateSchedule strategy L).values =
      (List.range (weightPhaseCount strategy L)).map (weightLayers strategy L) := by
  cases strategy with
  | allAtOnce => exact Dict.values_comprehension [0] _ (List.nodup_singleton 0)
  | justInTime => exact Dict.values_comprehension _ _ List.nodup_range

/-- The schedule after the weight loading phases of a strategy were added. -/
theorem weightsAdded {s : PhaseSchedule} (strategy : WeightLoadingStrategy)
    (h : DefaultBuilt s) :
    let s' := s.addWeightLoadingPhases
      (WeightScheduler.generateSchedule strategy s.numLayers)
    WeightsAdded strategy (weightPhaseCount strategy s.numLayers) s' ∧
      s'.numLayers = s.numLayers ∧
      ∀ l, s'.layerToWeightCommPhase.get? l =
        if l < s.numLayers then some (weightPhaseId strategy s.numLayers l) else none := by
  simp only [addWeightLoadingPhases, values_generateSchedule]
  cases strategy with
  | allAtOnce =>
    refine ⟨?_, rfl, fun l => ?_⟩
    · exact (weightsAdded_succ (weightsAdded_zero .allAtOnce h)).sort
    · show (addWeightLoadingPhase s (List.range s.numLayers)).layerToWeightCommPhase.get? l = _
      simp only [addWeightLoadingPhase, Dict.get?_foldl_set, List.mem_range, h.next, h.weight,
        weightPhaseId, Dict.get?_empty]
  | justInTime =>
    obtain ⟨hadd, hnum, hweight⟩ := weightTable_justInTime h s.numLayers
    exact ⟨hadd.sort, hnum, hweight⟩

/-! ## Dependencies -/

/-- Phase `p` of the configured schedule. A compute phase also depends on the weights of its
layer; with just-in-time loading the weights of a layer wait for the layer before it. -/
def configuredPhase (strategy : WeightLoadingStrategy) (modelIdx L p : ℕ) : Option Phase :=
  if p < 2 * L - 1 then
    if p % 2 = 1 then some (defaultPhase modelIdx p)
    else some ((defaultPhase modelIdx p).addDependency (weightPhaseId strategy L (p / 2)))
  else if p < 2 * L - 1 + weightPhaseCount strategy L then
    if p = 2 * L - 1 then some (weightPhase strategy modelIdx L p)
    else some ((weightPhase strategy modelIdx L p).addDependency (2 * (p - (2 * L - 1)) - 1))
  else none

/-- The closed form of the configured schedule. -/
structure Configured (strategy : WeightLoadingStrategy) (s : PhaseSchedule) : Prop
    extends DefaultTables s where
  pos : 0 < s.numLayers
  weight : ∀ l, s.layerToWeightCommPhase.get? l =
    if l < s.numLayers then some (weightPhaseId strategy s.numLayers l) else none
  phases : ∀ p, s.phases.get? p = configuredPhase strategy s.modelIdx s.numLayers p

/-- Add a dependency unless it is there. -/
def ensure (dep : ℕ) (phase : Phase) : Phase :=
  if dep ∈ phase.dependencies then phase else phase.addDependency dep

section

variable {s : PhaseSchedule} {strategy : WeightLoadingStrategy}

theorem ensure_defaultPhase {modelIdx p w : ℕ} (h : p ≤ w) :
    ensure w (defaultPhase modelIdx p) = (defaultPhase modelIdx p).addDependency w := by
  have hw : w ∉ (defaultPhase modelIdx p).dependencies := by
    unfold defaultPhase
    by_cases hp : p = 0
    · simp [hp]
    · simp only [if_neg hp, List.mem_singleton]
      omega
  rw [ensure, if_neg hw]

theorem ensure_weightPhase (modelIdx L p d : ℕ) :
    ensure d (weightPhase strategy modelIdx L p) =
      (weightPhase strategy modelIdx L p).addDependency d := by
  rw [ensure, if_neg (by simp [weightPhase])]

theorem weightPhaseId_ge (L l : ℕ) : 2 * L - 1 ≤ weightPhaseId strategy L l := by
  cases strategy <;> simp [weightPhaseId]

/-- The loop that makes every compute phase depend on the weights of its layer. -/
theorem get?_foldl_ensure_compute {d : Dict ℕ Phase} {modelIdx L : ℕ} (w : ℕ → ℕ)
    (hw : ∀ l, 2 * L - 1 ≤ w l)
    (hd : ∀ p < 2 * L - 1, d.get? p = some (defaultPhase modelIdx p)) (p : ℕ) :
    ((List.range L).foldl (fun d l => d.modify (2 * l) (ensure (w l))) d).get? p =
      if p < 2 * L - 1 then
        if p % 2 = 1 then some (defaultPhase modelIdx p)
        else some ((defaultPhase modelIdx p).addDependency (w (p / 2)))
      else d.get? p := by
  by_cases hp : ∃ l ∈ List.range L, p = 2 * l
  · obtain ⟨l, hl, rfl⟩ := hp
    have hlL := List.mem_range.mp hl
    have hdiv : 2 * l / 2 = l := by omega
    rw [Dict.get?_foldl_modify (fun l => 2 * l) (fun l => ensure (w l)) _ _ two_mul_injective
      List.nodup_range hl, hd _ (by omega), if_pos (by omega), if_neg (by omega), hdiv,
      Option.map_some, ensure_defaultPhase]
    have := hw l
    omega
  · push Not at hp
    rw [Dict.get?_foldl_modify_of_ne (fun l => 2 * l) (fun l => ensure (w l)) _ _ _ hp]
    by_cases hlt : p < 2 * L - 1
    · have hodd : p % 2 = 1 := by
        by_contra hev
        exact hp (p / 2) (List.mem_range.mpr (by omega)) (by omega)
      rw [if_pos hlt, if_pos hodd, hd p hlt]
    · rw [if_neg hlt]

theorem dependOnWeightPhase_eq (ht : DefaultTables s) {l : ℕ} (hl : l < s.numLayers) (w : ℕ)
    (d : Dict ℕ Phase) :
    WeightScheduler.dependOnWeightPhase w { s with phases := d } l =
      { s with phases := d.modify (2 * l) (ensure w) } := by
  have hc : s.layerToComputePhase.get? l = some (2 * l) := by rw [ht.compute, if_pos hl]
  simp only [WeightScheduler.dependOnWeightPhase, hc]
  rfl

theorem delayWeightPhase_eq (ht : DefaultTables s)
    (hw : ∀ l, s.layerToWeightCommPhase.get? l =
      if l < s.numLayers then some (weightPhaseId .justInTime s.numLayers l) else none)
    {l : ℕ} (h1 : 1 ≤ l) (hl : l < s.numLayers) (d : Dict ℕ Phase) :
    WeightScheduler.delayWeightPhase { s with phases := d } l =
      { s with phases := d.modify (2 * s.numLayers - 1 + l) (ensure (2 * l - 1)) } := by
  have hwl : s.layerToWeightCommPhase.get? l = some (2 * s.numLayers - 1 + l) := by
    rw [hw, if_pos hl]; rfl
  have ha : s.layerToActivationCommPhase.get? (l - 1) = some (2 * l - 1) := by
    rw [ht.activation, if_pos (by omega)]
    congr 1
    omega
  simp only [WeightScheduler.delayWeightPhase, hwl, ha]
  rfl

theorem configured_allAtOnce (h : WeightsAdded .allAtOnce 1 s) (hpos : 0 < s.numLayers)
    (hw : ∀ l, s.layerToWeightCommPhase.get? l =
      if l < s.numLayers then some (weightPhaseId .allAtOnce s.numLayers l) else none) :
    Configured .allAtOnce (WeightScheduler.configureAllAtOnceDependencies s) := by
  have hw0 : s.layerToWeightCommPhase.get? 0 = some (2 * s.numLayers - 1) := by
    rw [hw, if_pos hpos]; rfl
  simp only [WeightScheduler.configureAllAtOnceDependencies, hw0]
  rw [foldl_phases _ _ (fun l => 2 * l) (fun _ => ensure (2 * s.numLayers - 1)) s fun l hl d =>
    dependOnWeightPhase_eq h.toDefaultTables (List.mem_range.mp hl) _ d]
  refine ⟨⟨h.compute, h.activation⟩, hpos, hw, fun p => ?_⟩
  simp only [sortExecutionOrder]
  rw [get?_foldl_ensure_compute (fun _ => 2 * s.numLayers - 1) (fun _ => le_rfl)
    (fun p hp => by rw [h.phases, if_pos hp]), h.phases, configuredPhase]
  simp only [weightPhaseId]
  by_cases hp : p < 2 * s.numLayers - 1
  · rw [if_pos hp, if_pos hp]
  · rw [if_neg hp, if_neg hp, if_neg hp]
    by_cases hp' : p < 2 * s.numLayers - 1 + 1
    · have hcount : p < 2 * s.numLayers - 1 + weightPhaseCount .allAtOnce s.numLayers := hp'
      rw [if_pos hp', if_pos hcount, if_pos (by omega)]
    · have hcount : ¬ p < 2 * s.numLayers - 1 + weightPhaseCount .allAtOnce s.numLayers := hp'
      rw [if_neg hp', if_neg hcount]

theorem configured_justInTime (h : WeightsAdded .justInTime s.numLayers s)
    (hpos : 0 < s.numLayers)
    (hw : ∀ l, s.layerToWeightCommPhase.get? l =
      if l < s.numLayers then some (weightPhaseId .justInTime s.numLayers l) else none) :
    Configured .justInTime (WeightScheduler.configureJitDependencies s) := by
  set L := s.numLayers with hL
  have hinj : Function.Injective fun l : ℕ => 2 * L - 1 + l := fun a b h => by simpa using h
  simp only [WeightScheduler.configureJitDependencies]
  rw [foldl_phases WeightScheduler.delayWeightPhase _ (fun l => 2 * L - 1 + l)
    (fun l => ensure (2 * l - 1)) s fun l hl d => delayWeightPhase_eq h.toDefaultTables hw
      (mem_range'_one.mp hl).1 (mem_range'_one.mp hl).2 d]
  set d := (List.range' 1 (L - 1)).foldl
    (fun d l => d.modify (2 * L - 1 + l) (ensure (2 * l - 1))) s.phases with hd
  -- the phases after the first loop: compute and activation phases are untouched
  have hlow : ∀ p < 2 * L - 1, d.get? p = some (defaultPhase s.modelIdx p) := by
    intro p hp
    rw [hd, Dict.get?_foldl_modify_of_ne (fun l => 2 * L - 1 + l)
      (fun l => ensure (2 * l - 1)) _ _ _ (fun l _ => by omega), h.phases, if_pos hp]
  have hhigh : ∀ l, 1 ≤ l → l < L → d.get? (2 * L - 1 + l) =
      some ((weightPhase .justInTime s.modelIdx L (2 * L - 1 + l)).addDependency (2 * l - 1)) := by
    intro l h1 hl
    rw [hd, Dict.get?_foldl_modify (fun l => 2 * L - 1 + l) (fun l => ensure (2 * l - 1)) _ _ hinj
      List.nodup_range' (mem_range'_one.mpr ⟨h1, hl⟩), h.phases, if_neg (by omega),
      if_pos (by omega), Option.map_some, ensure_weightPhase]
  have hrest : ∀ p, 2 * L - 1 ≤ p → (p = 2 * L - 1 ∨ 2 * L - 1 + L ≤ p) →
      d.get? p = s.phases.get? p := by
    intro p hp hor
    rw [hd, Dict.get?_foldl_modify_of_ne]
    intro l hl
    have := mem_range'_one.mp hl
    omega
  rw [foldl_phases WeightScheduler.dependOnOwnWeightPhase _ (fun l => 2 * l)
    (fun l => ensure (2 * L - 1 + l)) { s with phases := d } ?_]
  · refine ⟨⟨h.compute, h.activation⟩, hpos, hw, fun p => ?_⟩
    simp only [sortExecutionOrder]
    rw [get?_foldl_ensure_compute (fun l => 2 * L - 1 + l) (fun _ => by omega) hlow,
      configuredPhase]
    simp only [weightPhaseId, weightPhaseCount, ← hL]
    by_cases hp : p < 2 * L - 1
    · rw [if_pos hp, if_pos hp]
    · rw [if_neg hp, if_neg hp]
      by_cases hp0 : p = 2 * L - 1
      · rw [hrest p (by omega) (.inl hp0), h.phases, if_neg hp, if_pos (by omega),
          if_pos (by omega), if_pos hp0]
      · by_cases hp' : p < 2 * L - 1 + L
        · obtain ⟨l, rfl⟩ : ∃ l, p = 2 * L - 1 + l := ⟨p - (2 * L - 1), by omega⟩
          have hsub : 2 * L - 1 + l - (2 * L - 1) = l := by omega
          rw [hhigh l (by omega) (by omega), if_pos hp', if_neg hp0, hsub]
        · rw [hrest p (by omega) (.inr (by omega)), h.phases, if_neg hp, if_neg hp', if_neg hp']
  · intro l hl d'
    have hlL := List.mem_range.mp hl
    have hwl : s.layerToWeightCommPhase.get? l = some (2 * L - 1 + l) := by
      rw [hw, if_pos hlL]; rfl
    simp only [WeightScheduler.dependOnOwnWeightPhase, hwl]
    exact dependOnWeightPhase_eq h.toDefaultTables hlL _ d'

end

end PhaseSchedule

end ChipSim
