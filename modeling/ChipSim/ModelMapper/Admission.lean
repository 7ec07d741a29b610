import Mathlib.Data.List.Induction
import ChipSim.ModelMapper.Coverage

/-!
# When a mapping succeeds

The admission check compares the weights of a model with the memory of the system, but the mapper
counts capacity units, which are rounded up for every layer. A layer never takes more units than
the largest number that one of the compute chiplets would need for all of it. So a model is mapped
whenever these numbers add up to at most the units of the compute chiplets.
-/

namespace ChipSim

open Lib

namespace ModelMapper

open TrafficCalculator

variable {s : System} {preference : Preference} {layer : LayerMetrics} {st st' : Allocation}
  {remaining : List ℤ} {chipletId : ℕ}

/-! ## The units a layer takes -/

/-- The units taken so far, for a layer that needs at most `most` units on any chiplet. -/
structure Budget (layer : LayerMetrics) (most : ℕ) (remaining : List ℤ) (done : List ℕ)
    (st : Allocation) : Prop where
  account : ((remaining.sum - st.remaining.sum : ℤ) : ℚ) * layer.crossbarsRequired ≤
    (layer.crossbarsRequired - st.resources) * most
  started : st.resources < layer.crossbarsRequired → st.percentage < 100
  percentage : st.percentage ≤ 100
  filled : 0 < st.resources → ∀ id ∈ done, st.remaining.getD (id - 1) 0 ≤ 0

theorem budget_start (layer : LayerMetrics) (most : ℕ) (remaining : List ℤ) (n : ℕ) :
    Budget layer most remaining []
      { remaining := remaining
        action := List.replicate n 0
        resources := layer.crossbarsRequired
        percentage := 100 } where
  account := by simp
  started h := absurd h (lt_irrefl _)
  percentage := le_rfl
  filled _ id hid := absurd hid List.not_mem_nil

theorem getElem?_of_getD_pos {l : List ℤ} {i : ℕ} (h : 0 < l.getD i 0) :
    l[i]? = some (l.getD i 0) := by
  cases hi : l[i]? with
  | none =>
    rw [List.getD_eq_getElem?_getD, hi] at h
    exact absurd h (lt_irrefl _)
  | some v => rw [List.getD_eq_getElem?_getD, hi, Option.getD_some]

/-- The chiplets visited before stay filled. -/
theorem AllocMove.filled {most : ℕ} {done : List ℕ} (h : Budget layer most remaining done st)
    (hdone : ∀ id ∈ done, 1 ≤ id) (hid : 1 ≤ chipletId) (hnew : chipletId ∉ done)
    (hmove : AllocMove s layer st chipletId st') (hres : 0 < st.resources) :
    ∀ id ∈ done, st'.remaining.getD (id - 1) 0 ≤ 0 := by
  intro id hmem
  have hne : id - 1 ≠ chipletId - 1 := by
    intro heq
    have := hdone id hmem
    exact hnew ((show id = chipletId by omega) ▸ hmem)
  rw [(hmove.other hne).1]
  exact h.filled hres id hmem

theorem Budget.move {most : ℕ} {done : List ℕ} (h : Budget layer most remaining done st)
    (hdone : ∀ id ∈ done, 1 ≤ id) (hid : 1 ≤ chipletId) (hnew : chipletId ∉ done)
    (hfull : 0 < unitsFull s layer chipletId) (hmost : unitsFull s layer chipletId ≤ most)
    (hmove : AllocMove s layer st chipletId st') (hle : st.resources ≤ layer.crossbarsRequired) :
    Budget layer most remaining (chipletId :: done) st' := by
  have hmost' : (unitsFull s layer chipletId : ℚ) ≤ most := by exact_mod_cast hmost
  have hother := fun hres => hmove.filled h hdone hid hnew hres
  cases hmove with
  | skip hskip =>
    refine { h with filled := fun hres id hmem => ?_ }
    rcases List.mem_cons.mp hmem with rfl | hmem
    · rcases hskip with hskip | hskip | hskip
      · exact absurd hres (not_lt.mpr hskip)
      · exact hskip
      · exact absurd hskip hfull.ne'
    · exact hother hres id hmem
  | fit hres havail _ hfit =>
    have hrequired : 0 < layer.crossbarsRequired := by omega
    have hneeded : unitsNeeded layer.crossbarsRequired st.resources (unitsFull s layer chipletId) ≤
        most - (remaining.sum - st.remaining.sum) := by
      rw [unitsNeeded_le hrequired]
      have hres' : (0 : ℚ) ≤ st.resources := by exact_mod_cast hres.le
      have haccount := h.account
      have hbound := mul_le_mul_of_nonneg_left hmost' hres'
      push_cast at haccount ⊢
      linarith
    refine ⟨?_, fun _ => by norm_num, by norm_num, fun hpos => absurd hpos (lt_irrefl _)⟩
    rw [sum_set (getElem?_of_getD_pos havail)]
    have htotal : remaining.sum - (st.remaining.sum - st.remaining.getD (chipletId - 1) 0 +
        (st.remaining.getD (chipletId - 1) 0 - unitsNeeded layer.crossbarsRequired st.resources
          (unitsFull s layer chipletId))) ≤ most := by linarith
    have htotal' : ((remaining.sum - (st.remaining.sum - st.remaining.getD (chipletId - 1) 0 +
        (st.remaining.getD (chipletId - 1) 0 - unitsNeeded layer.crossbarsRequired st.resources
          (unitsFull s layer chipletId))) : ℤ) : ℚ) ≤ most := by exact_mod_cast htotal
    have hR : (0 : ℚ) ≤ layer.crossbarsRequired := by positivity
    have := mul_le_mul_of_nonneg_right htotal' hR
    push_cast at this ⊢
    linarith
  | @fill share hres havail _ hfit hshare =>
    simp only [Arithmetic.fl_exact] at hshare hother ⊢
    have hR : (0 : ℚ) ≤ layer.crossbarsRequired := by positivity
    have hfree : (0 : ℚ) < st.remaining.getD (chipletId - 1) 0 := by exact_mod_cast havail
    have hfullpos : (0 : ℚ) < unitsFull s layer chipletId := by exact_mod_cast hfull
    have hsharepos : 0 < share := by
      rw [hshare]
      positivity
    -- the resources that are written off pay for the units at the worst rate
    have hpaid : (st.remaining.getD (chipletId - 1) 0 : ℚ) * layer.crossbarsRequired ≤
        ⌈share * layer.crossbarsRequired / 100⌉ * most := by
      have hceil := Int.le_ceil (share * layer.crossbarsRequired / 100)
      rw [share_mul hshare] at hceil ⊢
      have hrate : (st.remaining.getD (chipletId - 1) 0 : ℚ) * layer.crossbarsRequired =
          st.remaining.getD (chipletId - 1) 0 * layer.crossbarsRequired /
            unitsFull s layer chipletId * unitsFull s layer chipletId := by
        rw [div_mul_cancel₀ _ hfullpos.ne']
      have hnonneg : (0 : ℚ) ≤ ⌈(st.remaining.getD (chipletId - 1) 0 : ℚ) *
          layer.crossbarsRequired / unitsFull s layer chipletId⌉ := by
        refine le_trans ?_ hceil
        positivity
      exact hrate.trans_le (mul_le_mul hceil hmost' hfullpos.le hnonneg)
    refine ⟨?_, fun _ => ?_, ?_, fun hpos id hmem => ?_⟩
    · rw [sum_set (getElem?_of_getD_pos havail)]
      have haccount := h.account
      push_cast at haccount hpaid ⊢
      linarith
    · have := h.percentage
      show st.percentage - share < 100
      linarith
    · have := h.percentage
      show st.percentage - share ≤ 100
      linarith
    · rcases List.mem_cons.mp hmem with rfl | hmem
      · have hset : (st.remaining.set (id - 1) 0).getD (id - 1) 0 = 0 := by
          rw [getD_set (List.getElem?_eq_some_iff.mp (getElem?_of_getD_pos havail)).1, if_pos rfl]
        exact hset.le
      · exact hother hres id hmem

theorem Budget.foldl {most : ℕ} {done ids : List ℕ} (h : Budget layer most remaining done st)
    (halloc : Allocated layer remaining done st) (hdone : ∀ id ∈ done, 1 ≤ id)
    (hids : ∀ id ∈ ids, 1 ≤ id ∧ id ≤ remaining.length) (hnodup : ids.Nodup)
    (hnew : ∀ id ∈ ids, id ∉ done)
    (hfull : ∀ id ∈ ids, 0 < unitsFull s layer id ∧ unitsFull s layer id ≤ most) :
    ∃ done', (∀ id, id ∈ done' ↔ id ∈ ids ∨ id ∈ done) ∧
      Budget layer most remaining done' (ids.foldl (allocate s layer) st) := by
  induction ids generalizing st done with
  | nil => exact ⟨done, fun id => by simp, h⟩
  | cons id ids ih =>
    have hid := hids id List.mem_cons_self
    have hfresh := hnew id List.mem_cons_self
    have hmove := allocate_move s layer st id
    have hbudget := h.move hdone hid.1 hfresh (hfull id List.mem_cons_self).1
      (hfull id List.mem_cons_self).2 hmove halloc.resources_le
    obtain ⟨done', hdone', hfinal⟩ := ih hbudget (halloc.move hid hfresh hmove)
      (fun k hk => by
        rcases List.mem_cons.mp hk with rfl | hk
        · exact hid.1
        · exact hdone k hk)
      (fun k hk => hids k (List.mem_cons_of_mem id hk)) (List.nodup_cons.mp hnodup).2
      (fun k hk hmem => by
        rcases List.mem_cons.mp hmem with rfl | hmem
        · exact (List.nodup_cons.mp hnodup).1 hk
        · exact hnew k (List.mem_cons_of_mem id hk) hmem)
      (fun k hk => hfull k (List.mem_cons_of_mem id hk))
    refine ⟨done', fun k => ?_, hfinal⟩
    rw [hdone', List.mem_cons, List.mem_cons]
    tauto

/-! ## One layer -/

/-- Units are left on compute chiplets only. -/
def ComputeOnly (s : System) (remaining : List ℤ) : Prop :=
  ∀ k, s.isIoChiplet (k + 1) = true → remaining.getD k 0 ≤ 0

theorem sum_nonpos_of_getD {l : List ℤ} (h : ∀ k, l.getD k 0 ≤ 0) : l.sum ≤ 0 := by
  have hle : ∀ v ∈ l, v ≤ 0 := by
    intro v hv
    obtain ⟨k, hk, rfl⟩ := List.getElem_of_mem hv
    rw [← List.getD_eq_getElem _ 0 hk]
    exact h k
  exact (List.sum_le_card_nsmul l 0 hle).trans (nsmul_zero _).le

theorem exists_pos_of_sum_pos {l : List ℤ} (h : 0 < l.sum) : ∃ k, 0 < l.getD k 0 := by
  by_contra hnone
  push Not at hnone
  exact absurd (sum_nonpos_of_getD hnone) (not_le.mpr h)

/-- A chiplet with units left can be used when all chiplets are allowed. -/
theorem mem_available_of_pos (hcompute : ComputeOnly s remaining)
    (hallows : ∀ id, preference.allows id = true) {k : ℕ} (hk : 0 < remaining.getD k 0) :
    k + 1 ∈ availableChipletIds s preference remaining := by
  have hlt : k < remaining.length := (List.getElem?_eq_some_iff.mp (getElem?_of_getD_pos hk)).1
  refine mem_availableChipletIds.mpr ⟨⟨by omega, hlt⟩, hk, ?_, hallows _⟩
  by_contra hio
  exact absurd hk (not_lt.mpr (hcompute k (by simpa using hio)))

theorem startingChiplet_start {mappings : LayerMappings}
    (havailable : availableChipletIds s preference remaining ≠ [])
    (hne : ∀ e, mappings.getLast? = some e → e.2 ≠ []) :
    ∃ start, startingChiplet s preference remaining mappings = .ok (.ok start) := by
  unfold startingChiplet
  split
  · dsimp only
    split
    · exact ⟨_, rfl⟩
    · exact ⟨_, rfl⟩
    · next hsorted =>
      obtain ⟨id, hid⟩ := List.exists_mem_of_ne_nil _ havailable
      rw [← mem_sortByKey, hsorted] at hid
      exact absurd hid List.not_mem_nil
  · next last hlast =>
    obtain ⟨share, -, hshare⟩ := largestShare_ok (hne _ hlast)
    rw [hshare]
    exact ⟨_, rfl⟩

/-- **A layer is placed whenever its largest requirement is left**, and takes no more than that. -/
theorem nearestNeighborMapperV3_places {most : ℕ} {mappings : LayerMappings}
    (hlen : remaining.length = s.numChiplets) (hcompute : ComputeOnly s remaining)
    (hallows : ∀ id, preference.allows id = true) (hvalid : ValidMapping s.numChiplets mappings)
    (hne : ∀ e ∈ mappings, e.2 ≠ []) (hrequired : 0 < layer.crossbarsRequired)
    (hfull : ∀ id ∈ availableChipletIds s preference remaining,
      0 < unitsFull s layer id ∧ unitsFull s layer id ≤ most)
    (hmost : 0 < most) (hroom : (most : ℤ) ≤ remaining.sum) :
    ∃ remaining' action, nearestNeighborMapperV3 s preference layer remaining mappings =
        .ok (.ok (remaining', action)) ∧ remaining.sum - most ≤ remaining'.sum ∧
      remaining'.length = remaining.length ∧ ComputeOnly s remaining' ∧
      positiveShares action ≠ [] := by
  obtain ⟨k, hk⟩ := exists_pos_of_sum_pos (lt_of_lt_of_le (by exact_mod_cast hmost) hroom)
  have havailable : availableChipletIds s preference remaining ≠ [] :=
    List.ne_nil_of_mem (mem_available_of_pos hcompute hallows hk)
  obtain ⟨start, hstart⟩ := startingChiplet_start havailable
    fun e he => hne e (List.mem_of_getLast? he)
  have hids : ∀ id ∈ allocationOrder s preference remaining start,
      1 ≤ id ∧ id ≤ remaining.length := fun id hid =>
    (mem_availableChipletIds.mp (mem_allocationOrder.mp hid)).1
  have hnodup := allocationOrder_nodup s preference remaining start
  have hzero := allocated_start layer hlen
  obtain ⟨_, -, halloc⟩ := hzero.foldl (s := s) hids hnodup fun id _ => List.not_mem_nil
  obtain ⟨done, hdone, hbudget⟩ := (budget_start layer most remaining s.numChiplets).foldl (s := s)
    hzero (fun id hid => absurd hid List.not_mem_nil) hids hnodup (fun id _ => List.not_mem_nil)
    fun id hid => hfull id (mem_allocationOrder.mp hid)
  unfold nearestNeighborMapperV3
  rw [hstart, ok_bind]
  dsimp only
  rw [if_neg fun h => h.1 (startingChiplet_mem hlen hvalid hstart)]
  generalize (allocationOrder s preference remaining start).foldl (allocate s layer) _ = st
    at halloc hbudget
  have hR : (0 : ℚ) < layer.crossbarsRequired := by exact_mod_cast hrequired
  have hM : (0 : ℚ) < most := by exact_mod_cast hmost
  -- with resources left all units would be taken, which pay for the whole layer
  have hres : st.resources = 0 := by
    by_contra hpos
    have hpos : 0 < st.resources := lt_of_le_of_ne halloc.resources_nonneg (Ne.symm hpos)
    have hempty : st.remaining.sum ≤ 0 := by
      refine sum_nonpos_of_getD fun j => ?_
      by_cases hj : 0 < remaining.getD j 0
      · have hmem : j + 1 ∈ done := (hdone _).mpr
          (.inl (mem_allocationOrder.mpr (mem_available_of_pos hcompute hallows hj)))
        exact hbudget.filled hpos (j + 1) hmem
      · exact (halloc.le j).trans (not_lt.mp hj)
    have hused : (most : ℚ) ≤ ((remaining.sum - st.remaining.sum : ℤ) : ℚ) := by
      have : (most : ℤ) ≤ remaining.sum - st.remaining.sum := by omega
      exact_mod_cast this
    have hpaid := mul_le_mul_of_nonneg_right hused hR.le
    have hleft : (0 : ℚ) < st.resources * most := mul_pos (by exact_mod_cast hpos) hM
    linarith [hbudget.account]
  refine ⟨st.remaining, st.action, ?_, ?_, halloc.length, ?_, ?_⟩
  · rw [if_neg (by omega)]
    rfl
  · have haccount := hbudget.account
    rw [hres] at haccount
    have : ((remaining.sum - st.remaining.sum : ℤ) : ℚ) ≤ most := by
      refine le_of_mul_le_mul_right ?_ hR
      push_cast at haccount ⊢
      linarith
    have : remaining.sum - st.remaining.sum ≤ most := by exact_mod_cast this
    omega
  · exact fun j hj => (halloc.le j).trans (hcompute j hj)
  · have hstarted := hbudget.started (by rw [hres]; exact_mod_cast hrequired)
    have hnonneg : ∀ pct ∈ st.action, 0 ≤ pct := by
      intro pct hpct
      obtain ⟨j, hj, rfl⟩ := List.getElem_of_mem hpct
      rw [← List.getD_eq_getElem _ 0 hj]
      exact halloc.action j
    intro hnil
    have hsum := sum_positiveShares hnonneg
    rw [hnil, List.map_nil, List.sum_nil] at hsum
    linarith [halloc.sum]

/-! ## Whole models -/

/-- The largest number of units that a compute chiplet would need for the whole layer. -/
def largestRequirement (s : System) (layer : LayerMetrics) : ℕ :=
  (((s.chiplets.filter fun c => decide (c.spec.type ≠ .io)).map fun c =>
    calculateLayerRequirements layer.shape c.spec)).foldl max 0

/-- The units of all compute chiplets. -/
def computeCapacityUnits (s : System) : ℕ :=
  ((s.chiplets.filter fun c => decide (c.spec.type ≠ .io)).map
    (·.spec.getTotalCapacityUnits)).sum

/-- All capacity of the system is available. -/
def Idle (s : System) : Prop :=
  ∀ c ∈ s.chiplets, c.getAvailableCapacityUnits = c.spec.getTotalCapacityUnits

instance (s : System) : Decidable (Idle s) :=
  inferInstanceAs (Decidable (∀ c ∈ s.chiplets, _))

theorem isIoChiplet_iff {k : ℕ} {c : Chiplet} (h : s.chiplets[k]? = some c) :
    s.isIoChiplet (k + 1) = true ↔ c.spec.type = .io := by
  have hk : k < s.numChiplets := (List.getElem?_eq_some_iff.mp h).1
  have hchiplet : s.chiplet? (k + 1) = some c := by
    unfold System.chiplet?
    rw [if_neg (Nat.succ_ne_zero k), Nat.add_sub_cancel]
    exact h
  unfold System.isIoChiplet System.ioChipletIds
  rw [decide_eq_true_iff, List.mem_filter, hchiplet, Option.any_some, decide_eq_true_iff]
  refine ⟨fun h => h.2, fun h => ⟨?_, h⟩⟩
  exact List.mem_map.mpr ⟨k, List.mem_range.mpr hk, rfl⟩

theorem mappableCapacity_eq (s : System) :
    mappableCapacity s = s.chiplets.map fun c =>
      if c.spec.type = .io then 0 else c.getAvailableCapacityUnits := by
  apply List.ext_getElem?
  intro k
  unfold mappableCapacity System.getAvailableCapacityPerChiplet
  rw [List.getElem?_map, List.getElem?_zipIdx, List.getElem?_map, List.getElem?_map, Nat.zero_add]
  cases hc : s.chiplets[k]? with
  | none => rfl
  | some c => simp only [Option.map_some, isIoChiplet_iff hc]

theorem mappableCapacity_sum (h : Idle s) :
    (mappableCapacity s).sum = computeCapacityUnits s := by
  rw [mappableCapacity_eq]
  unfold computeCapacityUnits
  have hmap : ∀ l : List Chiplet, (∀ c ∈ l, c.getAvailableCapacityUnits =
      c.spec.getTotalCapacityUnits) → (l.map fun c => if c.spec.type = .io then 0
        else c.getAvailableCapacityUnits).sum =
      (((l.filter fun c => decide (c.spec.type ≠ .io)).map
        (·.spec.getTotalCapacityUnits)).sum : ℕ) := by
    intro l hl
    induction l with
    | nil => rfl
    | cons c l ih =>
      have ih := ih fun c hc => hl c (List.mem_cons_of_mem _ hc)
      rw [List.map_cons, List.sum_cons, ih]
      by_cases hc : c.spec.type = .io
      · rw [if_pos hc, List.filter_cons_of_neg (by simpa using hc), zero_add]
      · rw [if_neg hc, List.filter_cons_of_pos (by simpa using hc), hl c List.mem_cons_self,
          List.map_cons, List.sum_cons, Nat.cast_add]
  exact hmap _ h

theorem mappableCapacity_computeOnly (s : System) : ComputeOnly s (mappableCapacity s) := by
  intro k hk
  rw [mappableCapacity_eq, List.getD_eq_getElem?_getD, List.getElem?_map]
  cases hc : s.chiplets[k]? with
  | none => exact le_rfl
  | some c =>
    rw [Option.map_some, Option.getD_some, if_pos ((isIoChiplet_iff hc).mp hk)]

/-- A layer that needs units on every compute chiplet. -/
structure Placeable (s : System) (layer : LayerMetrics) : Prop where
  required : 0 < layer.crossbarsRequired
  units : ∀ c ∈ s.chiplets, c.spec.type ≠ .io → 0 < calculateLayerRequirements layer.shape c.spec

theorem Placeable.unitsFull (h : Placeable s layer) {id : ℕ} (hid : 1 ≤ id ∧ id ≤ s.numChiplets)
    (hio : s.isIoChiplet id = false) :
    0 < unitsFull s layer id ∧ unitsFull s layer id ≤ largestRequirement s layer := by
  obtain ⟨k, rfl⟩ : ∃ k, id = k + 1 := ⟨id - 1, by omega⟩
  have hk : k < s.chiplets.length := hid.2
  have hc : s.chiplets[k]? = some s.chiplets[k] := List.getElem?_eq_getElem hk
  have htype : s.chiplets[k].spec.type ≠ .io := fun htype => by
    rw [(isIoChiplet_iff hc).mpr htype] at hio
    cases hio
  have hfull : ModelMapper.unitsFull s layer (k + 1) =
      calculateLayerRequirements layer.shape s.chiplets[k].spec := by
    unfold ModelMapper.unitsFull System.chiplet?
    rw [if_neg (Nat.succ_ne_zero k), Nat.add_sub_cancel, hc]
    rfl
  have hmem := List.getElem_mem hk
  rw [hfull]
  refine ⟨h.units _ hmem htype, (foldl_max_spec _ 0).2.1 _ ?_⟩
  exact List.mem_map.mpr ⟨_, List.mem_filter.mpr ⟨hmem, by simpa using htype⟩, rfl⟩

theorem Placeable.largestRequirement_pos (h : Placeable s layer) {c : Chiplet}
    (hc : c ∈ s.chiplets) (htype : c.spec.type ≠ .io) : 0 < largestRequirement s layer := by
  refine lt_of_lt_of_le (h.units c hc htype) ((foldl_max_spec _ 0).2.1 _ ?_)
  exact List.mem_map.mpr ⟨c, List.mem_filter.mpr ⟨hc, by simpa using htype⟩, rfl⟩

/-- The loop over the layers does not run out of units. -/
theorem mapLayers_places {metrics : List LayerMetrics} (hallows : ∀ id, preference.allows id = true)
    (hcompute : ∃ c ∈ s.chiplets, c.spec.type ≠ .io) (hplace : ∀ m ∈ metrics, Placeable s m)
    (hroom : ((metrics.map (largestRequirement s)).sum : ℤ) ≤ (mappableCapacity s).sum) :
    ∃ remaining mappings, mapLayers s preference metrics = .ok (.ok (remaining, mappings)) ∧
      (mappableCapacity s).sum - (metrics.map (largestRequirement s)).sum ≤ remaining.sum ∧
      ComputeOnly s remaining ∧ ∀ e ∈ mappings, e.2 ≠ [] := by
  induction metrics using List.reverseRecOn with
  | nil =>
    exact ⟨_, [], rfl, by simp, mappableCapacity_computeOnly s,
      fun e he => absurd he List.not_mem_nil⟩
  | append_singleton metrics layer ih =>
    rw [List.map_append, List.map_singleton, List.sum_append, List.sum_singleton] at hroom ⊢
    rw [Nat.cast_add] at hroom ⊢
    obtain ⟨remaining, mappings, hlayers, hsum, honly, hne⟩ :=
      ih (fun m hm => hplace m (List.mem_append_left _ hm)) (by omega)
    have hlayer := hplace layer (List.mem_append_right _ List.mem_cons_self)
    obtain ⟨c, hc, htype⟩ := hcompute
    have hlen := length_of_mapLayers hlayers
    obtain ⟨remaining', action, hok, hsum', hlen', honly', hshares⟩ :=
      nearestNeighborMapperV3_places hlen honly hallows (validMapping_mapLayers hlayers) hne
        hlayer.required (fun id hid => by
          have hmem := mem_availableChipletIds.mp hid
          exact hlayer.unitsFull (hlen ▸ hmem.1) hmem.2.2.1)
        (hlayer.largestRequirement_pos hc htype) (by omega)
    refine ⟨remaining', mappings ++ [(metrics.length, positiveShares action)], ?_, by omega,
      honly', ?_⟩
    · rw [mapLayers_concat, hlayers, ok_bind]
      dsimp only
      rw [hok, ok_bind]
      rfl
    · intro e he
      rcases List.mem_append.mp he with he | he
      · exact hne e he
      · rw [List.mem_singleton.mp he]
        exact hshares

/-! ## Model definitions -/

/-- No dimension that is given is zero. -/
def PositiveParams (p : LayerParams) : Prop :=
  ∀ v ∈ [p.inputChannels, p.outputChannels, p.weightHeight, p.inputHeight, p.inputWidth,
    p.outputHeight, p.outputWidth], v ≠ some 0

instance (p : LayerParams) : Decidable (PositiveParams p) :=
  inferInstanceAs (Decidable (∀ v ∈ _, _))

/-- Metrics of a layer the mapper knows, with positive dimensions. -/
def PositiveMetrics (m : LayerMetrics) : Prop :=
  0 < m.crossbarsRequired ∧
    match m.shape with
    | .conv filterSize outChannels => 0 < filterSize ∧ 0 < outChannels
    | .fc inFeatures outFeatures => 0 < inFeatures ∧ 0 < outFeatures
    | .selfAttention outChannels _ => 0 < outChannels
    | .conv1d _ _ => False

theorem crossbarsFor_pos {spec : ChipletSpec} (h : spec.type = .imc) {outputs inputs : ℕ}
    (ho : 0 < outputs) (hi : 0 < inputs) : 0 < crossbarsFor spec outputs inputs := by
  obtain ⟨hrows, hcolumns, hcell, hweight⟩ := spec.imc_pos h
  unfold crossbarsFor
  have hcol : (0 : ℚ) < outputs * spec.bitsPerWeight / spec.bitsPerCell / spec.crossbarColumns := by
    positivity
  have hrow : (0 : ℚ) < inputs / spec.crossbarRows := by positivity
  refine Nat.mul_pos ?_ ?_
  · exact Int.pos_iff_toNat_pos.mp (Int.ceil_pos.mpr hcol)
  · exact Int.pos_iff_toNat_pos.mp (Int.ceil_pos.mpr hrow)

theorem PositiveMetrics.placeable {m : LayerMetrics} (h : PositiveMetrics m) (s : System) :
    Placeable s m := by
  refine ⟨h.1, fun c _ htype => ?_⟩
  have hshape := h.2
  have himc : c.spec.type ≠ .cmos → c.spec.type = .imc := by
    cases hc : c.spec.type <;> simp_all
  unfold calculateLayerRequirements
  split
  · cases hm : m.shape with
    | conv filterSize outChannels =>
      rw [hm] at hshape
      exact Nat.mul_pos hshape.1 hshape.2
    | fc inFeatures outFeatures =>
      rw [hm] at hshape
      exact Nat.mul_pos hshape.1 hshape.2
    | selfAttention outChannels seqLength =>
      rw [hm] at hshape
      exact Nat.mul_pos hshape hshape
    | conv1d filterSize outChannels =>
      rw [hm] at hshape
      exact hshape.elim
  · next hcmos =>
    have himc := himc hcmos
    cases hm : m.shape with
    | conv filterSize outChannels =>
      rw [hm] at hshape
      exact crossbarsFor_pos himc hshape.2 hshape.1
    | fc inFeatures outFeatures =>
      rw [hm] at hshape
      exact crossbarsFor_pos himc hshape.2 hshape.1
    | selfAttention outChannels seqLength =>
      rw [hm] at hshape
      exact crossbarsFor_pos himc hshape hshape
    | conv1d filterSize outChannels =>
      rw [hm] at hshape
      exact hshape.elim

open ModelProcessor

theorem require_pos {key : String} {v : Option ℕ} {n : ℕ} (h : require key v = .ok n)
    (hv : v ≠ some 0) : 0 < n := by
  cases v with
  | none => cases h
  | some m =>
    cases h
    exact Nat.pos_of_ne_zero fun hm => hv (by rw [hm])

theorem getD_pos {v : Option ℕ} {d : ℕ} (hd : 0 < d) (hv : v ≠ some 0) : 0 < v.getD d := by
  cases v with
  | none => exact hd
  | some m => exact Nat.pos_of_ne_zero fun hm => hv (by rw [← hm]; rfl)

/-- The weights of a two-dimensional convolution. -/
theorem processConv2dLayer_spec {name : String} {params : LayerParams} {current : InputSize}
    {m : LayerMetrics} (h : processConv2dLayer name params current = .ok m) :
    ∃ inputs outputs kernel, require "input_channels" params.inputChannels = .ok inputs ∧
      require "output_channels" params.outputChannels = .ok outputs ∧
      require "weight_height" params.weightHeight = .ok kernel ∧
      m.shape = .conv (inputs * kernel ^ 2) outputs ∧
      m.crossbarsRequired = outputs * inputs * kernel ^ 2 := by
  unfold processConv2dLayer at h
  -- the rest of the function, after the size of the input is known
  extract_lets rest at h
  have hrest : ∀ size, rest size = .ok m → ∃ inputs outputs kernel,
      require "input_channels" params.inputChannels = .ok inputs ∧
      require "output_channels" params.outputChannels = .ok outputs ∧
      require "weight_height" params.weightHeight = .ok kernel ∧
      m.shape = .conv (inputs * kernel ^ 2) outputs ∧
      m.crossbarsRequired = outputs * inputs * kernel ^ 2 := by
    intro size h
    obtain ⟨inputs, hinputs, h⟩ := bind_eq_ok.mp h
    obtain ⟨outputs, houtputs, h⟩ := bind_eq_ok.mp h
    obtain ⟨kernel, hkernel, h⟩ := bind_eq_ok.mp h
    obtain ⟨height, -, h⟩ := bind_eq_ok.mp h
    obtain ⟨width, -, h⟩ := bind_eq_ok.mp h
    cases h
    exact ⟨inputs, outputs, kernel, hinputs, houtputs, hkernel, rfl, rfl⟩
  cases current with
  | some size => exact hrest size h
  | none =>
    obtain ⟨height, -, h⟩ := bind_eq_ok.mp h
    obtain ⟨width, -, h⟩ := bind_eq_ok.mp h
    obtain ⟨size, -, h⟩ := bind_eq_ok.mp h
    exact hrest size h

theorem processConv2dLayer_positive {name : String} {params : LayerParams} {current : InputSize}
    {m : LayerMetrics} (hp : PositiveParams params)
    (h : processConv2dLayer name params current = .ok m) : PositiveMetrics m := by
  obtain ⟨inputs, outputs, kernel, hinputs, houtputs, hkernel, hshape, hrequired⟩ :=
    processConv2dLayer_spec h
  have hi := require_pos hinputs (hp _ (by simp))
  have ho := require_pos houtputs (hp _ (by simp))
  have hk := require_pos hkernel (hp _ (by simp))
  unfold PositiveMetrics
  rw [hshape, hrequired]
  refine ⟨?_, ?_, ho⟩
  · positivity
  · positivity

theorem processLinearLayer_positive {name : String} {params : LayerParams} {m : LayerMetrics}
    (hp : PositiveParams params) (h : processLinearLayer name params = .ok m) :
    PositiveMetrics m := by
  unfold processLinearLayer at h
  obtain ⟨inputs, hinputs, h⟩ := bind_eq_ok.mp h
  obtain ⟨outputs, houtputs, h⟩ := bind_eq_ok.mp h
  cases h
  have hi := require_pos hinputs (hp _ (by simp))
  have ho := require_pos houtputs (hp _ (by simp))
  exact ⟨Nat.mul_pos ho hi, hi, ho⟩

theorem processSelfAttentionLayer_positive {params : LayerParams} (name : String)
    (hp : PositiveParams params) : PositiveMetrics (processSelfAttentionLayer name params) := by
  have hi : 0 < params.inputChannels.getD 768 := getD_pos (by norm_num) (hp _ (by simp))
  have ho : 0 < params.outputChannels.getD 197 := getD_pos (by norm_num) (hp _ (by simp))
  exact ⟨Nat.mul_pos hi ho, ho⟩

/-- The layers of a definition have positive dimensions, and none is a one-dimensional
convolution. -/
def MappableDef (modelDef : ModelDef) : Prop :=
  ∀ e ∈ modelDef.layers.entries, PositiveParams e.2.parameters ∧ e.2.description ≠ .conv1d

instance (modelDef : ModelDef) : Decidable (MappableDef modelDef) :=
  inferInstanceAs (Decidable (∀ e ∈ _, _))

/-- The metrics that a layer definition can have. -/
inductive MetricsOf (layer : LayerDef) : LayerMetrics → Prop
  | conv2d {name : String} {current : InputSize} {m : LayerMetrics}
      (hkind : layer.description = .conv2d)
      (h : processConv2dLayer name layer.parameters current = .ok m) : MetricsOf layer m
  | conv1d {name : String} {current : InputSize} {m : LayerMetrics}
      (hkind : layer.description = .conv1d)
      (h : processConv1dLayer name layer.parameters current = .ok m) : MetricsOf layer m
  | linear {name : String} {m : LayerMetrics} (hkind : layer.description = .linear)
      (h : processLinearLayer name layer.parameters = .ok m) : MetricsOf layer m
  | selfAttention {name : String} (hkind : layer.description = .selfAttention) :
      MetricsOf layer (processSelfAttentionLayer name layer.parameters)

/-- Every metrics record comes from a layer of the definition that has both channel counts. -/
theorem processModel_metricsOf {modelDef : ModelDef} {metrics : List LayerMetrics}
    (h : processModel modelDef = .ok metrics) : ∀ m ∈ metrics, ∃ e ∈ modelDef.layers.entries,
      MetricsOf e.2 m ∧ e.2.parameters.inputChannels.isSome ∧
        e.2.parameters.outputChannels.isSome := by
  unfold processModel at h
  split at h
  · cases h
  obtain ⟨out, hloop, h⟩ := bind_eq_ok.mp h
  cases h
  refine foldlM_invariant (fun acc : List LayerMetrics × InputSize => ∀ m ∈ acc.1,
    ∃ e ∈ modelDef.layers.entries, MetricsOf e.2 m ∧ e.2.parameters.inputChannels.isSome ∧
      e.2.parameters.outputChannels.isSome) hloop (fun m hm => absurd hm List.not_mem_nil) ?_
  intro idx _ acc acc' hacc hstep
  unfold processLayer at hstep
  obtain ⟨layer, hlayer, hstep⟩ := bind_eq_ok.mp hstep
  obtain ⟨inputs, hinputs, hstep⟩ := bind_eq_ok.mp hstep
  obtain ⟨outputs, houtputs, hstep⟩ := bind_eq_ok.mp hstep
  have hsome : ∀ {key : String} {v : Option ℕ} {n : ℕ}, require key v = .ok n → v.isSome := by
    intro key v n hv
    cases v with
    | none => cases hv
    | some _ => rfl
  have happend : ∀ info, MetricsOf layer info → ∀ m ∈ acc.1 ++ [info],
      ∃ e ∈ modelDef.layers.entries, MetricsOf e.2 m ∧ e.2.parameters.inputChannels.isSome ∧
        e.2.parameters.outputChannels.isSome := by
    intro info hinfo m hm
    rcases List.mem_append.mp hm with hm | hm
    · exact hacc m hm
    · rw [List.mem_singleton.mp hm]
      exact ⟨_, Dict.mem_entries_iff.mpr (getItem_eq_ok.mp hlayer), hinfo, hsome hinputs,
        hsome houtputs⟩
  split at hstep
  · next hkind =>
    obtain ⟨info, hinfo, hstep⟩ := bind_eq_ok.mp hstep
    cases hstep
    exact happend info (.conv2d hkind hinfo)
  · next hkind =>
    obtain ⟨info, hinfo, hstep⟩ := bind_eq_ok.mp hstep
    cases hstep
    exact happend info (.conv1d hkind hinfo)
  · next hkind =>
    obtain ⟨info, hinfo, hstep⟩ := bind_eq_ok.mp hstep
    cases hstep
    exact happend info (.linear hkind hinfo)
  · next hkind =>
    cases hstep
    exact happend _ (.selfAttention hkind)
  · cases hstep

theorem processModel_positive {modelDef : ModelDef} (hdef : MappableDef modelDef)
    {metrics : List LayerMetrics} (h : processModel modelDef = .ok metrics) :
    ∀ m ∈ metrics, PositiveMetrics m := by
  intro m hm
  obtain ⟨e, he, hmetrics, -⟩ := processModel_metricsOf h m hm
  obtain ⟨hp, hne⟩ := hdef e he
  cases hmetrics with
  | conv2d _ hinfo => exact processConv2dLayer_positive hp hinfo
  | conv1d hkind _ => exact absurd hkind hne
  | linear _ hinfo => exact processLinearLayer_positive hp hinfo
  | selfAttention _ => exact processSelfAttentionLayer_positive _ hp

/-- **Mapping on the idle system.** A model without one-dimensional convolutions is mapped whenever
the largest requirements of its layers add up to at most the units of the compute chiplets. -/
theorem generateMapping_succeeds (s : System) (preference : Preference) (modelDef : ModelDef)
    (metrics : List LayerMetrics) (hprocess : processModel modelDef = .ok metrics)
    (hdef : MappableDef modelDef) (hidle : Idle s) (hallowed : preference.allowedChipletIds = none)
    (hcompute : ∃ c ∈ s.chiplets, c.spec.type ≠ .io)
    (hroom : (metrics.map (largestRequirement s)).sum ≤ computeCapacityUnits s) :
    ∃ s' mapping used, generateMapping s preference metrics = .ok (s', .ok (mapping, used)) := by
  have hallows : ∀ id, preference.allows id = true := by
    intro id
    unfold Preference.allows
    rw [hallowed]
  obtain ⟨remaining, mappings, hlayers, -⟩ := mapLayers_places hallows hcompute
    (fun m hm => (processModel_positive hdef hprocess m hm).placeable s)
    (by rw [mappableCapacity_sum hidle]; exact_mod_cast hroom)
  obtain ⟨s', hupdate, -⟩ := s.updateCapacityAvailability_ok (length_of_mapLayers hlayers)
  refine ⟨s', mappings, List.zipWith (· - ·) s.getAvailableCapacityPerChiplet remaining, ?_⟩
  unfold generateMapping
  rw [hlayers, ok_bind]
  dsimp only
  rw [hupdate, ok_bind]
  rfl

/-- A model of two fully connected layers of `4` by `4` weights. -/
def twoLinear : ModelDef where
  layers := .ofList [
    (0, { description := .linear
          parameters := { inputChannels := some 4, outputChannels := some 4 } }),
    (1, { description := .linear
          parameters := { inputChannels := some 4, outputChannels := some 4 } })]

/-- Two chiplets with a crossbar each hold the two layers. -/
theorem generateMapping_succeeds_two :
    ∃ metrics s' mapping used, processModel twoLinear = .ok metrics ∧
      generateMapping ⟨[Chiplet.new crossbarChiplet, Chiplet.new crossbarChiplet], fun _ _ => 1⟩ {}
        metrics = .ok (s', .ok (mapping, used)) := by
  have hrun : ∃ metrics ∈ (processModel twoLinear).toOption,
      (metrics.map (largestRequirement ⟨[Chiplet.new crossbarChiplet,
        Chiplet.new crossbarChiplet], fun _ _ => 1⟩)).sum ≤
      computeCapacityUnits ⟨[Chiplet.new crossbarChiplet, Chiplet.new crossbarChiplet],
        fun _ _ => 1⟩ := by decide +kernel
  obtain ⟨metrics, hmetrics, hroom⟩ := hrun
  have hprocess := toOption_eq_some.mp hmetrics
  obtain ⟨s', mapping, used, hmap⟩ := generateMapping_succeeds
    ⟨[Chiplet.new crossbarChiplet, Chiplet.new crossbarChiplet], fun _ _ => 1⟩ {} twoLinear metrics
    hprocess (by decide +kernel) (by decide +kernel) rfl
    ⟨Chiplet.new crossbarChiplet, List.mem_cons_self, by decide⟩ hroom
  exact ⟨metrics, s', mapping, used, hprocess, hmap⟩

/-- On one chiplet with one crossbar of `256` weights the `32` weights of the model are admitted,
but the first layer takes the crossbar and the second one finds no units on the idle system. -/
theorem admitted_but_not_mapped :
    ∃ metrics s', processModel twoLinear = .ok metrics ∧
      System.canModelEverFit ⟨[Chiplet.new crossbarChiplet], fun _ _ => 0⟩ metrics = true ∧
      Idle ⟨[Chiplet.new crossbarChiplet], fun _ _ => 0⟩ ∧
      generateMapping ⟨[Chiplet.new crossbarChiplet], fun _ _ => 0⟩ {} metrics =
        .ok (s', .error .insufficientMemory) := by
  have hrun : ∃ metrics ∈ (processModel twoLinear).toOption,
      System.canModelEverFit ⟨[Chiplet.new crossbarChiplet], fun _ _ => 0⟩ metrics = true ∧
      ∃ r ∈ (generateMapping ⟨[Chiplet.new crossbarChiplet], fun _ _ => 0⟩ {} metrics).toOption,
        r.2.map (fun _ => ()) = .error .insufficientMemory := by decide +kernel
  obtain ⟨metrics, hmetrics, hfit, ⟨s', result⟩, hmap, hfailed⟩ := hrun
  cases result with
  | ok mapping => cases hfailed
  | error reason =>
    cases hfailed
    exact ⟨metrics, s', toOption_eq_some.mp hmetrics, hfit, by decide +kernel,
      toOption_eq_some.mp hmap⟩

end ModelMapper

end ChipSim
