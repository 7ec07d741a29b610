import Mathlib.Algebra.Order.Floor.Ring
import Mathlib.Tactic.FieldSimp
import Mathlib.Tactic.Linarith
import ChipSim.ModelMapper.Allocation

/-!
# The shares of a layer

The allocation loop keeps two accounts: the resources still to be placed, an integer that is
reduced by rounded-up amounts, and the percentage still to be placed. The percentage left is never
less than the resources left require, so all shares are non-negative and add up to at most `100`.
-/

namespace ChipSim

open Lib Arithmetic

namespace ModelMapper

variable {s : System} {layer : LayerMetrics} {st st' : Allocation} {remaining : List ℤ}
  {chipletId : ℕ}

/-! ## One pass -/

/-- `units_needed_full`: the units of a chiplet that the whole layer would need. -/
def unitsFull (s : System) (layer : LayerMetrics) (chipletId : ℕ) : ℕ :=
  ((s.chiplet? chipletId).map fun c => calculateLayerRequirements layer.shape c.spec).getD 0

/-- What one pass of the allocation loop can do. -/
inductive AllocMove [Arithmetic] (s : System) (layer : LayerMetrics) (st : Allocation)
    (chipletId : ℕ) : Allocation → Prop
  | skip (h : st.resources ≤ 0 ∨ st.remaining.getD (chipletId - 1) 0 ≤ 0 ∨
      unitsFull s layer chipletId = 0) : AllocMove s layer st chipletId st
  | fit (hres : 0 < st.resources) (havail : 0 < st.remaining.getD (chipletId - 1) 0)
      (hfull : 0 < unitsFull s layer chipletId)
      (hfit : unitsNeeded layer.crossbarsRequired st.resources (unitsFull s layer chipletId) ≤
        st.remaining.getD (chipletId - 1) 0) :
      AllocMove s layer st chipletId
        { remaining := st.remaining.set (chipletId - 1) (st.remaining.getD (chipletId - 1) 0 -
            unitsNeeded layer.crossbarsRequired st.resources (unitsFull s layer chipletId))
          action := addAt st.action (chipletId - 1) st.percentage
          resources := 0
          percentage := 0 }
  | fill {share : ℚ} (hres : 0 < st.resources) (havail : 0 < st.remaining.getD (chipletId - 1) 0)
      (hfull : 0 < unitsFull s layer chipletId)
      (hfit : st.remaining.getD (chipletId - 1) 0 <
        unitsNeeded layer.crossbarsRequired st.resources (unitsFull s layer chipletId))
      (hshare : share =
        fl (st.remaining.getD (chipletId - 1) 0 * 100 / unitsFull s layer chipletId)) :
      AllocMove s layer st chipletId
        { remaining := st.remaining.set (chipletId - 1) 0
          action := addAt st.action (chipletId - 1) share
          resources := st.resources - ⌈fl (fl (share * layer.crossbarsRequired) / 100)⌉
          percentage := fl (st.percentage - share) }

theorem allocate_move [Arithmetic] (s : System) (layer : LayerMetrics) (st : Allocation)
    (chipletId : ℕ) : AllocMove s layer st chipletId (allocate s layer st chipletId) := by
  unfold allocate
  split
  · next hres => exact .skip (.inl hres)
  · next hres =>
    dsimp only
    split
    · next havail => exact .skip (.inr (.inl havail))
    · next havail =>
      split
      · next hfull => exact .skip (.inr (.inr hfull))
      · next hfull =>
        have hfull' := Nat.pos_of_ne_zero hfull
        split
        · next hfit => exact .fit (not_le.mp hres) (not_le.mp havail) hfull' hfit
        · next hfit => exact .fill (not_le.mp hres) (not_le.mp havail) hfull' (not_le.mp hfit) rfl

/-- The resources fit on a chiplet exactly when its units cover them. -/
theorem unitsNeeded_le {required full : ℕ} (hr : 0 < required) {resources available : ℤ} :
    unitsNeeded required resources full ≤ available ↔
      (resources * full : ℚ) ≤ available * required := by
  unfold unitsNeeded
  rw [if_pos hr, fl_exact, Int.ceil_le, div_le_iff₀ (by exact_mod_cast hr)]

theorem unitsNeeded_pos {required full : ℕ} (hr : 0 < required) {resources : ℤ}
    (hres : 0 < resources) (hfull : 0 < full) : 0 < unitsNeeded required resources full := by
  rw [← not_le, unitsNeeded_le hr, not_le, Int.cast_zero, zero_mul]
  exact mul_pos (by exact_mod_cast hres) (by exact_mod_cast hfull)

/-! ## Lists -/

theorem sum_addAt {l : List ℚ} {i : ℕ} (h : i < l.length) (v : ℚ) :
    (addAt l i v).sum = l.sum + v := by
  unfold addAt
  induction l generalizing i with
  | nil => cases h
  | cons a l ih =>
    cases i with
    | zero =>
      simp only [List.set_cons_zero, List.sum_cons, List.getD_cons_zero, fl_exact]
      ring
    | succ i =>
      simp only [List.set_cons_succ, List.sum_cons, List.getD_cons_succ]
      rw [ih (Nat.lt_of_succ_lt_succ h), add_assoc]

theorem getD_addAt {l : List ℚ} {i : ℕ} (h : i < l.length) (v : ℚ) (k : ℕ) :
    (addAt l i v).getD k 0 = l.getD k 0 + if k = i then v else 0 := by
  unfold addAt
  rw [getD_set h]
  split
  · next hk => rw [hk, fl_exact]
  · rw [add_zero]

/-! ## The two accounts -/

/-- The state of the loop after the chiplets in `done`. -/
structure Allocated (layer : LayerMetrics) (remaining : List ℤ) (done : List ℕ) (st : Allocation) :
    Prop where
  length : st.remaining.length = remaining.length
  actionLength : st.action.length = remaining.length
  resources_nonneg : 0 ≤ st.resources
  resources_le : st.resources ≤ layer.crossbarsRequired
  accounts : (st.resources * 100 : ℚ) ≤ st.percentage * layer.crossbarsRequired
  percentage : 0 ≤ st.percentage
  sum : st.action.sum + st.percentage = 100
  action : ∀ k, 0 ≤ st.action.getD k 0
  le : ∀ k, st.remaining.getD k 0 ≤ remaining.getD k 0
  used : ∀ k, 0 < st.action.getD k 0 ↔ st.remaining.getD k 0 < remaining.getD k 0
  untouched : ∀ k, k + 1 ∉ done →
    st.action.getD k 0 = 0 ∧ st.remaining.getD k 0 = remaining.getD k 0

theorem allocated_start (layer : LayerMetrics) {n : ℕ} (hlen : remaining.length = n) :
    Allocated layer remaining []
      { remaining := remaining
        action := List.replicate n 0
        resources := layer.crossbarsRequired
        percentage := 100 } where
  length := rfl
  actionLength := List.length_replicate.trans hlen.symm
  resources_nonneg := Int.natCast_nonneg _
  resources_le := le_rfl
  accounts := by
    push_cast
    linarith
  percentage := by norm_num
  sum := by simp
  action k := (getD_replicate n k (0 : ℚ)).ge
  le _ := le_rfl
  used k := by
    rw [getD_replicate]
    exact ⟨fun h => absurd h (lt_irrefl _), fun h => absurd h (lt_irrefl _)⟩
  untouched k _ := ⟨getD_replicate n k 0, rfl⟩

theorem Allocated.mono {done done' : List ℕ} (h : Allocated layer remaining done st)
    (hsub : done ⊆ done') : Allocated layer remaining done' st :=
  { h with untouched := fun k hk => h.untouched k fun hk' => hk (hsub hk') }

/-- A share is placed on a chiplet that has not been visited. -/
theorem Allocated.place {done : List ℕ} (h : Allocated layer remaining done st)
    (hid : 1 ≤ chipletId ∧ chipletId ≤ remaining.length) (hnew : chipletId ∉ done)
    (left resources : ℤ) {share : ℚ} (hshare : 0 < share) (hshare_le : share ≤ st.percentage)
    (hleft_lt : left < st.remaining.getD (chipletId - 1) 0)
    (hres : 0 ≤ resources) (hres_le : resources ≤ st.resources)
    (haccounts : (resources * 100 : ℚ) ≤ (st.percentage - share) * layer.crossbarsRequired) :
    Allocated layer remaining (chipletId :: done)
      { remaining := st.remaining.set (chipletId - 1) left
        action := addAt st.action (chipletId - 1) share
        resources := resources
        percentage := st.percentage - share } := by
  have hrem : chipletId - 1 < st.remaining.length := by rw [h.length]; omega
  have hact : chipletId - 1 < st.action.length := by rw [h.actionLength]; omega
  have hbefore := h.untouched (chipletId - 1) (by rwa [Nat.sub_add_cancel hid.1])
  rw [hbefore.2] at hleft_lt
  refine ⟨?_, ?_, hres, hres_le.trans h.resources_le, haccounts, sub_nonneg.mpr hshare_le, ?_,
    fun k => ?_, fun k => ?_, fun k => ?_, fun k hk => ?_⟩
  · rw [List.length_set, h.length]
  · rw [addAt, List.length_set, h.actionLength]
  · rw [sum_addAt hact]
    linarith [h.sum]
  · dsimp only
    rw [getD_addAt hact]
    split
    · linarith [h.action k]
    · linarith [h.action k]
  · dsimp only
    rw [getD_set hrem]
    split
    · next hk => rw [hk]; exact hleft_lt.le
    · exact h.le k
  · dsimp only
    rw [getD_set hrem, getD_addAt hact]
    by_cases hk : k = chipletId - 1
    · subst hk
      rw [if_pos rfl, if_pos rfl, hbefore.1, zero_add]
      exact ⟨fun _ => hleft_lt, fun _ => hshare⟩
    · rw [if_neg hk, if_neg hk, add_zero]
      exact h.used k
  · dsimp only
    rw [List.mem_cons, not_or] at hk
    have hne : k ≠ chipletId - 1 := by omega
    rw [getD_set hrem, getD_addAt hact, if_neg hne, if_neg hne, add_zero]
    exact h.untouched k hk.2

/-- A filled chiplet takes what its units are worth. -/
theorem share_mul {full required : ℕ} {free : ℤ} {share : ℚ} (hshare : share = free * 100 / full) :
    share * required / 100 = free * required / full := by
  rw [hshare]
  ring

/-- A chiplet that is filled holds less than what is left, in both accounts. -/
theorem Allocated.fill_lt {done : List ℕ} (h : Allocated layer remaining done st) {full : ℕ}
    {free : ℤ} {share : ℚ} (hres : 0 < st.resources) (hfull : 0 < full)
    (hfit : free < unitsNeeded layer.crossbarsRequired st.resources full)
    (hshare : share = free * 100 / full) :
    share * layer.crossbarsRequired / 100 < st.resources ∧ share < st.percentage := by
  have hpos : 0 < layer.crossbarsRequired := by
    have := h.resources_le
    omega
  have hr : (0 : ℚ) < layer.crossbarsRequired := by exact_mod_cast hpos
  have hless : share * layer.crossbarsRequired / 100 < st.resources := by
    rw [← not_le, unitsNeeded_le hpos, not_le] at hfit
    rw [share_mul hshare, div_lt_iff₀ (by exact_mod_cast hfull)]
    exact hfit
  refine ⟨hless, lt_of_mul_lt_mul_right ?_ hr.le⟩
  linarith [h.accounts]

/-- **One pass.** The accounts stay in order. -/
theorem Allocated.move {done : List ℕ} (h : Allocated layer remaining done st)
    (hid : 1 ≤ chipletId ∧ chipletId ≤ remaining.length) (hnew : chipletId ∉ done)
    (hmove : AllocMove s layer st chipletId st') :
    Allocated layer remaining (chipletId :: done) st' := by
  cases hmove with
  | skip => exact h.mono (List.subset_cons_self _ _)
  | fit hres havail hfull hfit =>
    have hpos : 0 < layer.crossbarsRequired := by
      have := h.resources_le
      omega
    have hr : (0 : ℚ) < layer.crossbarsRequired := by exact_mod_cast hpos
    have hneeded := unitsNeeded_pos hpos hres hfull
    -- the resources left need a positive percentage
    have hres' : (0 : ℚ) < st.resources := by exact_mod_cast hres
    have hmul : 0 < st.percentage * layer.crossbarsRequired := by linarith [h.accounts]
    have hplace := h.place hid hnew (st.remaining.getD (chipletId - 1) 0 -
      unitsNeeded layer.crossbarsRequired st.resources (unitsFull s layer chipletId)) 0
      (pos_of_mul_pos_left hmul hr.le) le_rfl (by omega) le_rfl hres.le (by simp)
    rwa [sub_self] at hplace
  | fill hres havail hfull hfit hshare =>
    next share =>
    simp only [fl_exact] at hshare ⊢
    obtain ⟨hless, hlt⟩ := h.fill_lt hres hfull hfit hshare
    have hshare_pos : 0 < share := by
      have hfull' : (0 : ℚ) < unitsFull s layer chipletId := by exact_mod_cast hfull
      have havail' : (0 : ℚ) < st.remaining.getD (chipletId - 1) 0 := by exact_mod_cast havail
      rw [hshare]
      positivity
    have hceil := Int.le_ceil (share * layer.crossbarsRequired / 100)
    refine h.place hid hnew 0 _ hshare_pos hlt.le havail ?_ ?_ ?_
    · rw [sub_nonneg, Int.ceil_le]
      exact hless.le
    · rw [sub_le_self_iff]
      exact Int.ceil_nonneg (by positivity)
    · push_cast
      linarith [h.accounts]

/-- **The loop.** The accounts are in order after any number of passes. -/
theorem Allocated.foldl {done : List ℕ} {ids : List ℕ} (h : Allocated layer remaining done st)
    (hids : ∀ id ∈ ids, 1 ≤ id ∧ id ≤ remaining.length) (hnodup : ids.Nodup)
    (hnew : ∀ id ∈ ids, id ∉ done) :
    ∃ done', (∀ id, id ∈ done' ↔ id ∈ ids ∨ id ∈ done) ∧
      Allocated layer remaining done' (ids.foldl (allocate s layer) st) := by
  induction ids generalizing st done with
  | nil => exact ⟨done, fun id => by simp, h⟩
  | cons id ids ih =>
    rw [List.nodup_cons] at hnodup
    have hstep := h.move (hids id List.mem_cons_self) (hnew id List.mem_cons_self)
      (allocate_move s layer st id)
    obtain ⟨done', hdone', h'⟩ := ih hstep (fun j hj => hids j (List.mem_cons_of_mem id hj))
      hnodup.2 fun j hj => by
        rw [List.mem_cons, not_or]
        exact ⟨fun heq => hnodup.1 (heq ▸ hj), hnew j (List.mem_cons_of_mem id hj)⟩
    refine ⟨done', fun j => ?_, h'⟩
    rw [hdone', List.mem_cons, List.mem_cons]
    tauto

/-! ## The order of the chiplets -/

theorem mem_availableChipletIds {preference : Preference} :
    chipletId ∈ availableChipletIds s preference remaining ↔
      (1 ≤ chipletId ∧ chipletId ≤ remaining.length) ∧ 0 < remaining.getD (chipletId - 1) 0 ∧
        s.isIoChiplet chipletId = false ∧ preference.allows chipletId = true := by
  unfold availableChipletIds
  rw [List.mem_filter, Bool.and_eq_true, Bool.and_eq_true, decide_eq_true_iff, Bool.not_eq_true']
  have hrange : chipletId ∈ (List.range remaining.length).map (· + 1) ↔
      1 ≤ chipletId ∧ chipletId ≤ remaining.length := by
    rw [List.mem_map]
    constructor
    · rintro ⟨k, hk, rfl⟩
      rw [List.mem_range] at hk
      omega
    · rintro ⟨h1, h2⟩
      exact ⟨chipletId - 1, List.mem_range.mpr (by omega), by omega⟩
  rw [hrange, and_assoc (c := preference.allows chipletId = true)]

theorem mem_sortByKey {key : ℕ → SortKey} {ids : List ℕ} :
    chipletId ∈ sortByKey key ids ↔ chipletId ∈ ids :=
  (List.perm_insertionSort _ _).mem_iff

theorem mem_allocationOrder {preference : Preference} {start : ℕ} :
    chipletId ∈ allocationOrder s preference remaining start ↔
      chipletId ∈ availableChipletIds s preference remaining :=
  mem_sortByKey

theorem allocationOrder_nodup (s : System) (preference : Preference) (remaining : List ℤ)
    (start : ℕ) : (allocationOrder s preference remaining start).Nodup := by
  unfold allocationOrder sortByKey
  rw [(List.perm_insertionSort _ _).nodup_iff]
  refine (List.nodup_range.map ?_).filter _
  exact fun a b hab => Nat.succ_injective hab

/-- What a call guarantees about the shares and the capacity left. -/
structure SharesValid (s : System) (preference : Preference) (remaining remaining' : List ℤ)
    (action : List ℚ) : Prop where
  length : action.length = s.numChiplets ∧ remaining'.length = remaining.length
  nonneg : ∀ pct ∈ action, 0 ≤ pct
  sum : action.sum ≤ 100
  eligible : ∀ k, 0 < action.getD k 0 → s.isIoChiplet (k + 1) = false ∧
    ∀ ids, preference.allowedChipletIds = some ids → ids ≠ [] → k + 1 ∈ ids
  capacity : ∀ k, 0 ≤ remaining'.getD k 0 ∧ remaining'.getD k 0 ≤ remaining.getD k 0
  reduced : ∀ k, 0 < action.getD k 0 ↔ remaining'.getD k 0 < remaining.getD k 0

theorem Preference.allows_some {preference : Preference} {ids : List ℕ}
    (h : preference.allows chipletId = true) (hids : preference.allowedChipletIds = some ids)
    (hne : ids ≠ []) : chipletId ∈ ids := by
  unfold Preference.allows at h
  rw [hids] at h
  cases ids with
  | nil => exact absurd rfl hne
  | cons a as => simpa using h

/-- **Shares.** A successful call of the nearest-neighbour mapper returns non-negative percentages
of at most `100` in total; they are positive on the chiplets whose capacity it has reduced, which
are allowed compute chiplets, and capacities stay between `0` and what they were. -/
theorem shares_valid {preference : Preference} {remaining' : List ℤ} {mappings : LayerMappings}
    {action : List ℚ} (hlen : remaining.length = s.numChiplets)
    (h0 : ∀ k, 0 ≤ remaining.getD k 0)
    (h : nearestNeighborMapperV3 s preference layer remaining mappings =
      .ok (.ok (remaining', action))) : SharesValid s preference remaining remaining' action := by
  obtain ⟨start, st, -, hst, -, rfl, rfl⟩ := nearestNeighborMapperV3_ok h
  have hids : ∀ id ∈ allocationOrder s preference remaining start,
      1 ≤ id ∧ id ≤ remaining.length := fun id hid =>
    (mem_availableChipletIds.mp (mem_allocationOrder.mp hid)).1
  obtain ⟨done, hdone, halloc⟩ := (allocated_start layer hlen).foldl (s := s) hids
    (allocationOrder_nodup s preference remaining start) fun id _ => List.not_mem_nil
  rw [← hst] at halloc
  refine ⟨⟨halloc.actionLength.trans hlen, halloc.length⟩, fun pct hpct => ?_, ?_, fun k hk => ?_,
    fun k => ⟨(nearestNeighborMapperV3_shrinks h0 h).nonneg k, halloc.le k⟩, halloc.used⟩
  · obtain ⟨k, hk, rfl⟩ := List.getElem_of_mem hpct
    rw [← List.getD_eq_getElem _ 0 hk]
    exact halloc.action k
  · linarith [halloc.sum, halloc.percentage]
  · have hmem : k + 1 ∈ done := by
      by_contra hnot
      rw [(halloc.untouched k hnot).1] at hk
      exact lt_irrefl _ hk
    rw [hdone, mem_allocationOrder, mem_availableChipletIds] at hmem
    obtain ⟨-, -, hio, hallows⟩ := hmem.resolve_right List.not_mem_nil
    exact ⟨hio, fun ids => Preference.allows_some hallows⟩

/-! ## A small system -/

/-- A CMOS chiplet for a number of weights. -/
def weightChiplet (totalMemoryWeights : ℕ) : ChipletSpec where
  type := .cmos
  energyPerMac := 1
  crossbarRows := 0
  crossbarColumns := 0
  bitsPerCell := 0
  bitsPerWeight := 8
  tilesPerChiplet := 0
  crossbarsPerTile := 0
  totalMemoryWeights := totalMemoryWeights
  imc_pos := fun h => by cases h

/-- CMOS chiplets in a row. -/
def weightChiplets (capacities : List ℕ) : System where
  chiplets := capacities.map fun n => Chiplet.new (weightChiplet n)
  adjMatrix i j := if i + 1 = j then 1 else 0

/-- The metrics of a fully connected layer. -/
def fcLayer (inFeatures outFeatures : ℕ) : LayerMetrics where
  name := "fc"
  shape := .fc inFeatures outFeatures
  inputActivation := inFeatures
  totalMacs := inFeatures * outFeatures
  numWeights := inFeatures * outFeatures
  crossbarsRequired := inFeatures * outFeatures
  outputActivation := outFeatures

/-- A layer of `120` weights fills the first chiplet and goes on to the second one. -/
theorem shares_valid_two :
    ∃ remaining' action, nearestNeighborMapperV3 (weightChiplets [100, 100]) {} (fcLayer 10 12)
        [100, 100] [] = .ok (.ok (remaining', action)) ∧
      remaining' = [0, 80] ∧ action = [250 / 3, 50 / 3] ∧
      SharesValid (weightChiplets [100, 100]) {} [100, 100] remaining' action := by
  have hrun : ((nearestNeighborMapperV3 (weightChiplets [100, 100]) {} (fcLayer 10 12)
      [100, 100] []).toOption.bind Except.toOption) = some ([0, 80], [250 / 3, 50 / 3]) := by
    decide +kernel
  obtain ⟨r, hr, hok⟩ := Option.bind_eq_some_iff.mp hrun
  rw [toOption_eq_some] at hr hok
  rw [hok] at hr
  refine ⟨_, _, hr, rfl, rfl, shares_valid rfl (fun k => ?_) hr⟩
  rcases k with _ | _ | k <;> simp

end ModelMapper

end ChipSim
