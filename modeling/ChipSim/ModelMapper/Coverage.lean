import Mathlib.Algebra.Order.BigOperators.Group.List
import ChipSim.ModelMapper.Spill

/-!
# When a mapping covers its layers

A layer is covered when one of the chiplets, in the order in which they are taken, has room for
what the ones before it leave. Up to ten units of resources may be missing and the layer still
counts as mapped: then its shares do not add up to `100`, and if it got no chiplet at all the next
layer has none to start from.
-/

namespace ChipSim

open Lib

namespace ModelMapper

open TrafficCalculator

variable {s : System} {layer : LayerMetrics} {st : Allocation} {remaining : List ℤ}
  {mappings : LayerMappings} {metrics : List LayerMetrics} {required : ℕ} {left : ℤ}
  {preference : Preference}

/-! ## Offers -/

/-- What a chiplet offers to a layer: its free units, and the units the whole layer would need. -/
structure Offer where
  free : ℤ
  full : ℕ
deriving DecidableEq

/-- The offers of chiplets, as far as they can host the layer. -/
def offers (s : System) (layer : LayerMetrics) (remaining : List ℤ) (ids : List ℕ) : List Offer :=
  (ids.map fun id => ⟨remaining.getD (id - 1) 0, unitsFull s layer id⟩).filter
    fun o : Offer => decide (0 < o.full)

/-- The resources that a filled chiplet takes, rounded up. -/
def Offer.taken (required : ℕ) (o : Offer) : ℤ := ⌈(o.free * required / o.full : ℚ)⌉

/-- The resources that are left when all chiplets are filled. -/
def leftAfter (required : ℕ) (left : ℤ) (l : List Offer) : ℤ :=
  left - (l.map (Offer.taken required)).sum

/-- One of the chiplets has room for what the ones before it leave. -/
def Covers (required : ℕ) (left : ℤ) (l : List Offer) : Prop :=
  ∃ l₁ o l₂, l = l₁ ++ o :: l₂ ∧ 0 < leftAfter required left l₁ ∧
    leftAfter required left l₁ * o.full ≤ o.free * required

theorem leftAfter_cons (required : ℕ) (left : ℤ) (o : Offer) (l : List Offer) :
    leftAfter required left (o :: l) = leftAfter required (left - o.taken required) l := by
  unfold leftAfter
  rw [List.map_cons, List.sum_cons]
  ring

theorem Offer.taken_nonneg {o : Offer} (h : 0 ≤ o.free) :
    0 ≤ o.taken required := by
  have hfree : (0 : ℚ) ≤ o.free := by exact_mod_cast h
  exact Int.ceil_nonneg (by positivity)

theorem leftAfter_le {l : List Offer} (h : ∀ o ∈ l, 0 ≤ o.free) :
    leftAfter required left l ≤ left := by
  unfold leftAfter
  rw [sub_le_self_iff]
  refine List.sum_nonneg fun v hv => ?_
  obtain ⟨o, ho, rfl⟩ := List.mem_map.mp hv
  exact Offer.taken_nonneg (h o ho)

theorem not_covers_of_le {l : List Offer} (h : ∀ o ∈ l, 0 ≤ o.free) (hleft : left ≤ 0) :
    ¬ Covers required left l := by
  rintro ⟨l₁, o, l₂, rfl, hpos, -⟩
  have hle : leftAfter required left l₁ ≤ left :=
    leftAfter_le fun o ho => h o (List.mem_append_left _ ho)
  omega

theorem covers_cons {o : Offer} {l : List Offer} (hleft : 0 < left) :
    Covers required left (o :: l) ↔
      left * o.full ≤ o.free * required ∨ Covers required (left - o.taken required) l := by
  constructor
  · rintro ⟨l₁, o', l₂, heq, hpos, hroom⟩
    cases l₁ with
    | nil =>
      cases heq
      exact .inl (by simpa [leftAfter] using hroom)
    | cons a l₁ =>
      cases heq
      rw [leftAfter_cons] at hpos hroom
      exact .inr ⟨l₁, o', l₂, rfl, hpos, hroom⟩
  · rintro (hroom | ⟨l₁, o', l₂, rfl, hpos, hroom⟩)
    · exact ⟨[], o, l, rfl, by simpa [leftAfter] using hleft, by simpa [leftAfter] using hroom⟩
    · refine ⟨o :: l₁, o', l₂, rfl, ?_, ?_⟩ <;> rw [leftAfter_cons]
      · exact hpos
      · exact hroom

/-! ## The loop -/

theorem offers_free {ids : List ℕ} (h : ∀ id ∈ ids, 0 < remaining.getD (id - 1) 0) :
    ∀ o ∈ offers s layer remaining ids, 0 ≤ o.free := by
  intro o ho
  obtain ⟨id, hid, rfl⟩ := List.mem_map.mp (List.mem_filter.mp ho).1
  exact (h id hid).le

theorem offers_cons_of_pos {id : ℕ} {ids : List ℕ} (h : 0 < unitsFull s layer id) :
    offers s layer remaining (id :: ids) =
      ⟨remaining.getD (id - 1) 0, unitsFull s layer id⟩ :: offers s layer remaining ids := by
  unfold offers
  rw [List.map_cons, List.filter_cons_of_pos (by simpa using h)]

theorem offers_cons_of_zero {id : ℕ} {ids : List ℕ} (h : unitsFull s layer id = 0) :
    offers s layer remaining (id :: ids) = offers s layer remaining ids := by
  unfold offers
  rw [List.map_cons, List.filter_cons_of_neg (by simp [h])]

/-- How the loop ends: nothing is left when the chiplets cover the resources, and otherwise a
positive percentage is left and the resources that the filled chiplets leave. -/
structure Outcome (required : ℕ) (left : ℤ) (l : List Offer) (st : Allocation) : Prop where
  covered : Covers required left l → st.percentage = 0 ∧ st.resources = 0
  short : ¬ Covers required left l →
    0 < st.percentage ∧ st.resources = max 0 (leftAfter required left l)

theorem Allocated.outcome {done ids : List ℕ} (h : Allocated layer remaining done st)
    (hids : ∀ id ∈ ids, (1 ≤ id ∧ id ≤ remaining.length) ∧ 0 < remaining.getD (id - 1) 0)
    (hnodup : ids.Nodup) (hnew : ∀ id ∈ ids, id ∉ done) (hpct : 0 < st.percentage) :
    Outcome layer.crossbarsRequired st.resources (offers s layer remaining ids)
      (ids.foldl (allocate s layer) st) := by
  induction ids generalizing st done with
  | nil =>
    refine ⟨fun ⟨l₁, o, l₂, hnil, _⟩ => ?_, fun _ => ⟨hpct, ?_⟩⟩
    · cases l₁ <;> cases hnil
    · simpa [leftAfter, offers] using h.resources_nonneg
  | cons id ids ih =>
    rw [List.nodup_cons] at hnodup
    have hid := hids id List.mem_cons_self
    have hids' := fun j hj => hids j (List.mem_cons_of_mem id hj)
    have hfree : ∀ o ∈ offers s layer remaining (id :: ids), 0 ≤ o.free :=
      offers_free fun j hj => (hids j hj).2
    have hbefore : st.remaining.getD (id - 1) 0 = remaining.getD (id - 1) 0 :=
      (h.untouched (id - 1) (by
        rw [Nat.sub_add_cancel hid.1.1]
        exact hnew id List.mem_cons_self)).2
    have hnew' : ∀ j ∈ ids, j ∉ id :: done := fun j hj => by
      rw [List.mem_cons, not_or]
      exact ⟨fun heq => hnodup.1 (heq ▸ hj), hnew j (List.mem_cons_of_mem id hj)⟩
    rcases h.resources_nonneg.eq_or_lt with hzero | hpos
    · -- nothing is left to be placed
      rw [foldl_idle _ hzero.ge]
      refine ⟨fun hc => absurd hc (not_covers_of_le hfree hzero.ge), fun _ => ⟨hpct, ?_⟩⟩
      have hle : leftAfter layer.crossbarsRequired st.resources
          (offers s layer remaining (id :: ids)) ≤ st.resources := leftAfter_le hfree
      omega
    · have hmove := allocate_move s layer st id
      have hnext := h.move hid.1 (hnew id List.mem_cons_self) hmove
      rw [List.foldl_cons]
      generalize allocate s layer st id = st₁ at hmove hnext
      cases hmove with
      | skip hskip =>
        have hfull : unitsFull s layer id = 0 := by
          rcases hskip with hskip | hskip | hskip
          · exact absurd hpos (not_lt.mpr hskip)
          · rw [hbefore] at hskip
            exact absurd hid.2 (not_lt.mpr hskip)
          · exact hskip
        rw [offers_cons_of_zero hfull]
        exact ih hnext hids' hnodup.2 hnew' hpct
      | fit hres havail hfull hfit =>
        have hr : 0 < layer.crossbarsRequired := by
          have := h.resources_le
          omega
        rw [unitsNeeded_le hr, hbefore] at hfit
        rw [offers_cons_of_pos hfull, foldl_idle _ le_rfl]
        refine ⟨fun _ => ⟨rfl, rfl⟩, fun hc => absurd ((covers_cons hpos).mpr (.inl ?_)) hc⟩
        exact_mod_cast hfit
      | fill hres havail hfull hfit hshare =>
        next share =>
        simp only [Arithmetic.fl_exact] at hshare hnext ⊢
        have hlt := (h.fill_lt hres hfull hfit hshare).2
        have htaken : ⌈share * layer.crossbarsRequired / 100⌉ =
            Offer.taken layer.crossbarsRequired
              ⟨remaining.getD (id - 1) 0, unitsFull s layer id⟩ := by
          rw [share_mul hshare, hbefore]
          rfl
        have hroom : ¬ st.resources * unitsFull s layer id ≤
            remaining.getD (id - 1) 0 * layer.crossbarsRequired := by
          have hr : 0 < layer.crossbarsRequired := by
            have := h.resources_le
            omega
          rw [← not_le, unitsNeeded_le hr, hbefore] at hfit
          exact_mod_cast hfit
        obtain ⟨hcov, hshort⟩ := ih hnext hids' hnodup.2 hnew' (sub_pos.mpr hlt)
        rw [htaken] at hcov hshort
        rw [offers_cons_of_pos hfull]
        refine ⟨fun hc => ?_, fun hc => ?_⟩
        · rw [htaken]
          exact hcov (((covers_cons hpos).mp hc).resolve_left hroom)
        · rw [htaken, leftAfter_cons]
          exact hshort fun hc' => hc ((covers_cons hpos).mpr (.inr hc'))

/-! ## One layer -/

theorem largestShare_ok {l : List (ℕ × ℚ)} (h : l ≠ []) :
    ∃ share ∈ l, largestShare l = .ok share.1 := by
  cases l with
  | nil => exact absurd rfl h
  | cons e es =>
    refine ⟨_, List.foldlRecOn (motive := (· ∈ e :: es)) es _ List.mem_cons_self ?_, rfl⟩
    intro best hbest e' he'
    split
    · exact List.mem_cons_of_mem e he'
    · exact hbest

/-- The chiplet a layer starts at exists unless the first layer finds none available. -/
theorem startingChiplet_ok (s : System) (preference : Preference) (remaining : List ℤ)
    (hne : ∀ e, mappings.getLast? = some e → e.2 ≠ []) :
    ∃ r, startingChiplet s preference remaining mappings = .ok r := by
  unfold startingChiplet
  split
  · dsimp only
    split <;> exact ⟨_, rfl⟩
  · next last hlast =>
    obtain ⟨share, -, hshare⟩ := largestShare_ok (hne _ hlast)
    rw [hshare]
    exact ⟨_, rfl⟩

theorem startingChiplet_mem {start : ℕ} (hlen : remaining.length = s.numChiplets)
    (hvalid : ValidMapping s.numChiplets mappings)
    (h : startingChiplet s preference remaining mappings = .ok (.ok start)) :
    1 ≤ start ∧ start ≤ s.numChiplets := by
  have havailable : ∀ id ∈ availableChipletIds s preference remaining,
      1 ≤ id ∧ id ≤ s.numChiplets := fun id hid => hlen ▸ (mem_availableChipletIds.mp hid).1
  unfold startingChiplet at h
  split at h
  · dsimp only at h
    split at h
    · next preferred _ hpreferred =>
      cases h
      have := (Option.filter_eq_some_iff.mp hpreferred).2
      exact havailable _ (of_decide_eq_true this)
    · next hfirst =>
      cases h
      exact havailable _ (mem_sortByKey.mp (hfirst ▸ List.mem_cons_self))
    · cases h
  · next lastMapping hlast =>
    obtain ⟨start', hstart', h⟩ := bind_eq_ok.mp h
    cases h
    have hne : lastMapping ≠ [] := fun hnil => by
      rw [hnil] at hstart'
      cases hstart'
    obtain ⟨share, hshare, heq⟩ := largestShare_ok hne
    rw [heq] at hstart'
    cases hstart'
    exact hvalid _ (List.mem_of_getLast? hlast) share hshare

/-- The layer is covered by the chiplets or misses more than the tolerated ten units. -/
def CoveredOrShort (s : System) (preference : Preference) (layer : LayerMetrics)
    (remaining : List ℤ) (start : ℕ) : Prop :=
  let l := offers s layer remaining (allocationOrder s preference remaining start)
  Covers layer.crossbarsRequired layer.crossbarsRequired l ∨
    10 < leftAfter layer.crossbarsRequired layer.crossbarsRequired l

/-- A call with a starting chiplet fails for lack of memory or returns non-negative shares; they
add up to `100` exactly if the layer is covered. -/
theorem nearestNeighborMapperV3_start (layer : LayerMetrics) {start : ℕ}
    (hlen : remaining.length = s.numChiplets) (hvalid : ValidMapping s.numChiplets mappings)
    (hstart : startingChiplet s preference remaining mappings = .ok (.ok start)) :
    (nearestNeighborMapperV3 s preference layer remaining mappings =
        .ok (.error .insufficientMemory) ∧ CoveredOrShort s preference layer remaining start) ∨
      ∃ remaining' action, nearestNeighborMapperV3 s preference layer remaining mappings =
          .ok (.ok (remaining', action)) ∧ (∀ pct ∈ action, 0 ≤ pct) ∧
        (action.sum = 100 ↔ CoveredOrShort s preference layer remaining start) := by
  have hids : ∀ id ∈ allocationOrder s preference remaining start,
      (1 ≤ id ∧ id ≤ remaining.length) ∧ 0 < remaining.getD (id - 1) 0 := fun id hid =>
    have h := mem_availableChipletIds.mp (mem_allocationOrder.mp hid)
    ⟨h.1, h.2.1⟩
  have hnodup := allocationOrder_nodup s preference remaining start
  have hzero := allocated_start layer hlen
  have hout := hzero.outcome (s := s) hids hnodup (fun id _ => List.not_mem_nil) (by norm_num)
  obtain ⟨done, -, halloc⟩ := hzero.foldl (s := s) (fun id hid => (hids id hid).1) hnodup
    fun id _ => List.not_mem_nil
  unfold nearestNeighborMapperV3 CoveredOrShort
  rw [hstart, ok_bind]
  dsimp only
  rw [if_neg fun h => h.1 (startingChiplet_mem hlen hvalid hstart)]
  generalize (allocationOrder s preference remaining start).foldl (allocate s layer) _ = st
    at halloc hout
  split
  · next hres =>
    refine .inl ⟨rfl, .inr ?_⟩
    have hnot : ¬ Covers layer.crossbarsRequired layer.crossbarsRequired
        (offers s layer remaining (allocationOrder s preference remaining start)) := fun hc => by
      have := (hout.covered hc).2
      omega
    have := (hout.short hnot).2
    dsimp only at this
    omega
  · next hres =>
    refine .inr ⟨_, _, rfl, fun pct hpct => ?_, fun hsum => ?_, fun hc => ?_⟩
    · obtain ⟨k, hk, rfl⟩ := List.getElem_of_mem hpct
      rw [← List.getD_eq_getElem _ 0 hk]
      exact halloc.action k
    · refine .inl (by_contra fun hc => ?_)
      have hpct := (hout.short hc).1
      linarith [halloc.sum]
    · have hcov : Covers layer.crossbarsRequired layer.crossbarsRequired
          (offers s layer remaining (allocationOrder s preference remaining start)) := by
        by_contra hnot
        have hleft := (hout.short hnot).2
        have hshort := hc.resolve_left hnot
        dsimp only at hleft
        omega
      linarith [halloc.sum, (hout.covered hcov).1]

/-! ## All layers -/

/-- `generate_mapping` does not raise, and a mapping it returns has chiplets for every layer that
hold all of it. -/
def MapsFully (s : System) (preference : Preference) (metrics : List LayerMetrics) : Prop :=
  ∃ r, generateMapping s preference metrics = .ok r ∧
    ∀ mapping used, r.2 = .ok (mapping, used) →
      ∀ e ∈ mapping, e.2 ≠ [] ∧ (e.2.map (·.2)).sum = 100

theorem length_of_mapLayers (h : mapLayers s preference metrics = .ok (.ok (remaining, mappings))) :
    remaining.length = s.numChiplets := by
  refine mapLayers_invariant (fun remaining _ => remaining.length = s.numChiplets) h ?_ ?_
  · simp [mappableCapacity, System.getAvailableCapacityPerChiplet, System.numChiplets]
  · intro layer idx remaining mappings remaining' action hlen hstep
    obtain ⟨start, st, -, hst, -, rfl, -⟩ := nearestNeighborMapperV3_ok hstep
    obtain ⟨done, -, halloc⟩ := (allocated_start layer hlen).foldl (s := s)
      (fun id hid => (mem_availableChipletIds.mp (mem_allocationOrder.mp hid)).1)
      (allocationOrder_nodup s preference remaining start) fun id _ => List.not_mem_nil
    rw [hst, halloc.length, hlen]

theorem mapsFully_iff :
    MapsFully s preference metrics ↔ ∃ r, mapLayers s preference metrics = .ok r ∧
      ∀ remaining mappings, r = .ok (remaining, mappings) →
        ∀ e ∈ mappings, e.2 ≠ [] ∧ (e.2.map (·.2)).sum = 100 := by
  unfold MapsFully generateMapping
  cases hlayers : mapLayers s preference metrics with
  | error e =>
    constructor
    · rintro ⟨r, hr, -⟩
      cases hr
    · rintro ⟨r, hr, -⟩
      cases hr
  | ok r =>
    rw [ok_bind]
    cases r with
    | error reason =>
      exact ⟨fun _ => ⟨_, rfl, fun _ _ heq => by cases heq⟩,
        fun _ => ⟨_, rfl, fun _ _ heq => by cases heq⟩⟩
    | ok r =>
      obtain ⟨remaining, mappings⟩ := r
      obtain ⟨s', hs', -⟩ := s.updateCapacityAvailability_ok (length_of_mapLayers hlayers)
      dsimp only
      rw [hs', ok_bind, if_pos rfl]
      constructor
      · rintro ⟨r, hr, hfull⟩
        cases hr
        refine ⟨_, rfl, fun _ _ heq => ?_⟩
        cases heq
        exact hfull _ _ rfl
      · rintro ⟨r, hr, hfull⟩
        cases hr
        refine ⟨_, rfl, fun _ _ heq => ?_⟩
        cases heq
        exact hfull _ _ rfl

/-- The shares that are kept add up to all shares. -/
theorem sum_positiveShares {action : List ℚ} (h : ∀ pct ∈ action, 0 ≤ pct) :
    ((positiveShares action).map (·.2)).sum = action.sum := by
  have hfilter : ∀ l : List (ℕ × ℚ), (∀ e ∈ l, 0 ≤ e.2) →
      ((l.filter fun e => decide (0 < e.2)).map (·.2)).sum = (l.map (·.2)).sum := by
    intro l hl
    induction l with
    | nil => rfl
    | cons e l ih =>
      have ih := ih fun e' he' => hl e' (List.mem_cons_of_mem e he')
      rcases (hl e List.mem_cons_self).eq_or_lt with hzero | hpos
      · rw [List.filter_cons_of_neg (by simp [← hzero]), List.map_cons, List.sum_cons, ih,
          ← hzero, zero_add]
      · rw [List.filter_cons_of_pos (by simpa using hpos), List.map_cons, List.map_cons,
          List.sum_cons, List.sum_cons, ih]
  unfold positiveShares
  rw [hfilter]
  · rw [List.map_map]
    exact congrArg List.sum (List.zipIdx_map_fst 0 action)
  · intro e he
    obtain ⟨p, hp, rfl⟩ := List.mem_map.mp he
    exact h _ (List.fst_mem_of_mem_zipIdx hp)

/-- The last layer is mapped after all others. -/
theorem mapLayers_concat [Arithmetic] (metrics : List LayerMetrics) (layer : LayerMetrics) :
    mapLayers s preference (metrics ++ [layer]) = do
      match ← mapLayers s preference metrics with
      | .error reason => return .error reason
      | .ok (remaining, mappings) =>
        match ← nearestNeighborMapperV3 s preference layer remaining mappings with
        | .error reason => return .error reason
        | .ok (remaining', action) =>
          return .ok (remaining', mappings ++ [(metrics.length, positiveShares action)]) := by
  unfold mapLayers
  rw [List.zipIdx_append, List.foldlM_append]
  simp only [List.zipIdx_cons, List.zipIdx_nil, List.foldlM_cons, List.foldlM_nil, bind_pure,
    Nat.zero_add]
  rfl

theorem CoveredOrShort.of_mapsFully {start : ℕ} (h : MapsFully s preference (metrics ++ [layer]))
    (hlayers : mapLayers s preference metrics = .ok (.ok (remaining, mappings)))
    (hstart : startingChiplet s preference remaining mappings = .ok (.ok start)) :
    CoveredOrShort s preference layer remaining start := by
  rcases nearestNeighborMapperV3_start layer (length_of_mapLayers hlayers)
    (validMapping_mapLayers hlayers) hstart with ⟨-, hshort⟩ | ⟨remaining', action, hok, h0, hsum⟩
  · exact hshort
  · obtain ⟨r, hr, hfull⟩ := mapsFully_iff.mp h
    rw [mapLayers_concat, hlayers, ok_bind] at hr
    dsimp only at hr
    rw [hok, ok_bind] at hr
    cases hr
    have hlast := (hfull _ _ rfl _ (List.mem_append_right _ List.mem_cons_self)).2
    exact hsum.mp ((sum_positiveShares h0).symm.trans hlast)

theorem MapsFully.concat (h : MapsFully s preference metrics)
    (hlayer : ∀ remaining mappings start, mapLayers s preference metrics = .ok (.ok (remaining,
      mappings)) → startingChiplet s preference remaining mappings = .ok (.ok start) →
      CoveredOrShort s preference layer remaining start) :
    MapsFully s preference (metrics ++ [layer]) := by
  obtain ⟨r, hr, hfull⟩ := mapsFully_iff.mp h
  rw [mapsFully_iff, mapLayers_concat, hr, ok_bind]
  cases r with
  | error reason => exact ⟨_, rfl, fun _ _ heq => by cases heq⟩
  | ok r =>
    obtain ⟨remaining, mappings⟩ := r
    have hfull := hfull _ _ rfl
    obtain ⟨r', hr'⟩ := startingChiplet_ok s preference remaining
      fun e he => (hfull e (List.mem_of_getLast? he)).1
    dsimp only
    cases r' with
    | error reason =>
      unfold nearestNeighborMapperV3
      rw [hr']
      exact ⟨_, rfl, fun _ _ heq => by cases heq⟩
    | ok start =>
      have hcov := hlayer remaining mappings start hr hr'
      rcases nearestNeighborMapperV3_start layer (length_of_mapLayers hr)
        (validMapping_mapLayers hr) hr' with ⟨hshort, -⟩ | ⟨remaining', action, hok, h0, hsum⟩
      · rw [hshort]
        exact ⟨_, rfl, fun _ _ heq => by cases heq⟩
      · rw [hok]
        refine ⟨_, rfl, fun _ _ heq => ?_⟩
        cases heq
        intro e he
        rcases List.mem_append.mp he with he | he
        · exact hfull e he
        · rw [List.mem_singleton] at he
          have hlast : (e.2.map (·.2)).sum = 100 := by
            rw [he, sum_positiveShares h0]
            exact hsum.mpr hcov
          refine ⟨fun hnil => ?_, hlast⟩
          rw [hnil] at hlast
          norm_num at hlast

/-- Every layer that the loop over the layers comes to is covered or misses more than ten units. -/
def AllCoveredOrShort (s : System) (preference : Preference) (metrics : List LayerMetrics) : Prop :=
  ∀ k layer remaining mappings start, metrics[k]? = some layer →
    mapLayers s preference (metrics.take k) = .ok (.ok (remaining, mappings)) →
    startingChiplet s preference remaining mappings = .ok (.ok start) →
    CoveredOrShort s preference layer remaining start

/-- **Coverage.** A model and all its first parts are mapped in full, and without an exception,
exactly if every layer that the mapper comes to is covered or misses more than ten units. -/
theorem maps_fully_iff_covered_or_short (s : System) (preference : Preference)
    (metrics : List LayerMetrics) :
    (∀ n, MapsFully s preference (metrics.take n)) ↔ AllCoveredOrShort s preference metrics := by
  constructor
  · intro h k layer remaining mappings start hk hlayers hstart
    have hfull := h (k + 1)
    rw [List.take_add_one, hk] at hfull
    exact CoveredOrShort.of_mapsFully hfull hlayers hstart
  · intro h n
    induction n with
    | zero => exact mapsFully_iff.mpr ⟨_, rfl, fun _ _ heq e he => by cases heq; cases he⟩
    | succ n ih =>
      rw [List.take_add_one]
      cases hn : metrics[n]? with
      | none => simpa using ih
      | some layer =>
        exact ih.concat fun remaining mappings start => h n layer remaining mappings start hn

/-- An in-memory chiplet with one crossbar for `16` by `16` weights. -/
def crossbarChiplet : ChipletSpec where
  type := .imc
  energyPerMac := 1
  crossbarRows := 16
  crossbarColumns := 16
  bitsPerCell := 8
  bitsPerWeight := 8
  tilesPerChiplet := 1
  crossbarsPerTile := 1
  imc_pos := by decide

/-- Layers of `8` weights on a system with one crossbar, which has memory for all of them: the
first layer takes the crossbar, the second one counts as mapped to no chiplet at all, and the third
one then finds no chiplet to start from. -/
theorem not_mapsFully_small_layers :
    let s : System := ⟨[Chiplet.new crossbarChiplet], fun _ _ => 0⟩
    s.canModelFitNow [fcLayer 2 4, fcLayer 2 4, fcLayer 2 4] = true ∧
      (∃ s', generateMapping s {} [fcLayer 2 4, fcLayer 2 4] =
        .ok (s', .ok ([(0, [(1, 100)]), (1, [])], [1]))) ∧
      generateMapping s {} [fcLayer 2 4, fcLayer 2 4, fcLayer 2 4] =
        .error (.valueError "max() arg is an empty sequence") ∧
      ¬ MapsFully s {} [fcLayer 2 4, fcLayer 2 4] ∧
      ¬ MapsFully s {} [fcLayer 2 4, fcLayer 2 4, fcLayer 2 4] := by
  intro s
  have htwo : ∃ s', generateMapping s {} [fcLayer 2 4, fcLayer 2 4] =
      .ok (s', .ok ([(0, [(1, 100)]), (1, [])], [1])) := by
    have hrun : ((generateMapping s {} [fcLayer 2 4, fcLayer 2 4]).toOption.bind
        (·.2.toOption)) = some ([(0, [(1, 100)]), (1, [])], [1]) := by decide +kernel
    obtain ⟨⟨s', r⟩, hr, hok⟩ := Option.bind_eq_some_iff.mp hrun
    rw [toOption_eq_some] at hr hok
    exact ⟨s', hr.trans (by rw [← hok])⟩
  have hthree : generateMapping s {} [fcLayer 2 4, fcLayer 2 4, fcLayer 2 4] =
      .error (.valueError "max() arg is an empty sequence") := by
    have hrun : (match generateMapping s {} [fcLayer 2 4, fcLayer 2 4, fcLayer 2 4] with
        | .error e => some e
        | .ok _ => none) = some (.valueError "max() arg is an empty sequence") := by
      decide +kernel
    split at hrun
    · next e he =>
      cases hrun
      exact he
    · cases hrun
  refine ⟨by decide +kernel, htwo, hthree, ?_, ?_⟩
  · rintro ⟨r, hr, hfull⟩
    obtain ⟨s', hs'⟩ := htwo
    rw [hs'] at hr
    cases hr
    exact (hfull _ _ rfl (1, []) (by simp)).1 rfl
  · rintro ⟨r, hr, -⟩
    rw [hthree] at hr
    cases hr

end ModelMapper

end ChipSim
