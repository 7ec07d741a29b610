import ChipSim.Lib.Lists
import ChipSim.ModelMapper
import ChipSim.TrafficCalculator

/-!
# What the mapper returns

The mapper works on a copy of the available units and only ever takes units away from it; it maps
layers to chiplets of the system only, and a mapping that fails leaves the system as it was.
-/

namespace ChipSim

open Lib Arithmetic

namespace ModelMapper

open TrafficCalculator

/-! ## Units -/

/-- Some units of every chiplet are taken away, never more than there are. -/
structure Shrinks (before after : List ℤ) : Prop where
  length : after.length = before.length
  nonneg : ∀ k, 0 ≤ after.getD k 0
  le : ∀ k, after.getD k 0 ≤ before.getD k 0

theorem Shrinks.refl {l : List ℤ} (h : ∀ k, 0 ≤ l.getD k 0) : Shrinks l l :=
  ⟨rfl, h, fun _ => le_rfl⟩

theorem Shrinks.trans {l l' l'' : List ℤ} (h : Shrinks l l') (h' : Shrinks l' l'') :
    Shrinks l l'' :=
  ⟨h'.length.trans h.length, h'.nonneg, fun k => (h'.le k).trans (h.le k)⟩

theorem Shrinks.set {l : List ℤ} (h : ∀ k, 0 ≤ l.getD k 0) {i : ℕ} {v : ℤ} (hv : 0 ≤ v)
    (hle : v ≤ l.getD i 0) : Shrinks l (l.set i v) := by
  rcases le_or_gt l.length i with hi | hi
  · rw [List.set_eq_of_length_le hi]
    exact .refl h
  · refine ⟨List.length_set, fun k => ?_, fun k => ?_⟩
    · rw [getD_set hi]
      split
      · exact hv
      · exact h k
    · rw [getD_set hi]
      split
      · next hk => exact hk ▸ hle
      · exact le_rfl

theorem mappableCapacity_shrinks {s : System}
    (h : ∀ k, 0 ≤ s.getAvailableCapacityPerChiplet.getD k 0) :
    Shrinks s.getAvailableCapacityPerChiplet (mappableCapacity s) := by
  have hget : ∀ k, (mappableCapacity s).getD k 0 =
      if s.isIoChiplet (k + 1) then 0 else s.getAvailableCapacityPerChiplet.getD k 0 := by
    intro k
    unfold mappableCapacity
    simp only [List.getD_eq_getElem?_getD, List.getElem?_map, List.getElem?_zipIdx, Nat.zero_add]
    cases s.getAvailableCapacityPerChiplet[k]? with
    | none => simp
    | some v => simp
  refine ⟨by simp [mappableCapacity], fun k => ?_, fun k => ?_⟩
  · rw [hget]
    split
    · exact le_rfl
    · exact h k
  · rw [hget]
    split
    · exact h k
    · exact le_rfl

theorem unitsNeeded_nonneg [Arithmetic] (required : ℕ) {resources : ℤ} (h : 0 ≤ resources)
    (unitsFull : ℕ) : 0 ≤ unitsNeeded required resources unitsFull := by
  unfold unitsNeeded
  split
  · refine Int.ceil_nonneg (fl_nonneg (div_nonneg (mul_nonneg ?_ ?_) ?_))
    · exact_mod_cast h
    · exact Nat.cast_nonneg _
    · exact Nat.cast_nonneg _
  · exact le_rfl

variable {arithmetic : Arithmetic} {s : System} {preference : Preference}
  {metrics : List LayerMetrics} {mappings : LayerMappings}

theorem allocate_shrinks (s : System) (layer : LayerMetrics) (st : Allocation) (chipletId : ℕ)
    (h : ∀ k, 0 ≤ st.remaining.getD k 0) :
    Shrinks st.remaining (allocate s layer st chipletId).remaining := by
  unfold allocate
  split
  · exact .refl h
  · next hres =>
    dsimp only
    split
    · exact .refl h
    · next havail =>
      split
      · exact .refl h
      · split
        · next hneeded =>
          have hnonneg := unitsNeeded_nonneg layer.crossbarsRequired (not_le.mp hres).le
            (((s.chiplet? chipletId).map fun c =>
              calculateLayerRequirements layer.shape c.spec).getD 0)
          exact Shrinks.set h (by omega) (by omega)
        · exact Shrinks.set h le_rfl (not_le.mp havail).le

/-- What a successful call has done. -/
theorem nearestNeighborMapperV3_ok {layer : LayerMetrics} {remaining remaining' : List ℤ}
    {action : List ℚ}
    (h : nearestNeighborMapperV3 s preference layer remaining mappings = .ok (.ok (remaining',
      action))) :
    ∃ start st, startingChiplet s preference remaining mappings = .ok (.ok start) ∧
      st = (allocationOrder s preference remaining start).foldl (allocate s layer)
        { remaining := remaining
          action := List.replicate s.numChiplets 0
          resources := layer.crossbarsRequired
          percentage := 100 } ∧
      st.resources ≤ 10 ∧ remaining' = st.remaining ∧ action = st.action := by
  unfold nearestNeighborMapperV3 at h
  obtain ⟨r, hr, h⟩ := bind_eq_ok.mp h
  split at h
  · cases h
  · next start =>
    split at h
    · cases h
    · dsimp only at h
      split at h
      · cases h
      · next hres =>
        cases h
        exact ⟨start, _, hr, rfl, by omega, rfl, rfl⟩

theorem nearestNeighborMapperV3_shrinks {layer : LayerMetrics} {remaining remaining' : List ℤ}
    {action : List ℚ} (h0 : ∀ k, 0 ≤ remaining.getD k 0)
    (h : nearestNeighborMapperV3 s preference layer remaining mappings = .ok (.ok (remaining',
      action))) : Shrinks remaining remaining' := by
  obtain ⟨start, st, -, rfl, -, rfl, -⟩ := nearestNeighborMapperV3_ok h
  refine List.foldlRecOn
    (motive := fun st : Allocation => Shrinks remaining st.remaining) _ _ (.refl h0) ?_
  intro st hst chipletId _
  exact hst.trans (allocate_shrinks s layer st chipletId hst.nonneg)

/-- What every layer preserves, the loop over the layers preserves. -/
theorem mapLayers_invariant {remaining : List ℤ} (P : List ℤ → LayerMappings → Prop)
    (h : mapLayers s preference metrics = .ok (.ok (remaining, mappings)))
    (h0 : P (mappableCapacity s) [])
    (step : ∀ layer idx remaining mappings remaining' action, P remaining mappings →
      nearestNeighborMapperV3 s preference layer remaining mappings = .ok (.ok (remaining', action))
      → P remaining' (mappings ++ [(idx, positiveShares action)])) : P remaining mappings := by
  refine foldlM_invariant (fun acc : Except MapFailure (List ℤ × LayerMappings) =>
    ∀ remaining mappings, acc = .ok (remaining, mappings) → P remaining mappings) h ?_ ?_
    remaining mappings rfl
  · intro remaining mappings heq
    cases heq
    exact h0
  · intro e _ acc acc' hacc hstep remaining' mappings' heq
    subst heq
    split at hstep
    · cases hstep
    · next remaining mappings =>
      obtain ⟨r, hr, hstep⟩ := bind_eq_ok.mp hstep
      split at hstep
      · cases hstep
      · cases hstep
        exact step _ _ _ _ _ _ (hacc _ _ rfl) hr

/-- The mapper only takes units away, layer by layer. -/
theorem mapLayers_shrinks {remaining : List ℤ}
    (h0 : ∀ k, 0 ≤ s.getAvailableCapacityPerChiplet.getD k 0)
    (h : mapLayers s preference metrics = .ok (.ok (remaining, mappings))) :
    Shrinks s.getAvailableCapacityPerChiplet remaining := by
  refine mapLayers_invariant (fun remaining _ => Shrinks s.getAvailableCapacityPerChiplet remaining)
    h (mappableCapacity_shrinks h0) ?_
  intro layer idx remaining mappings remaining' action hold hstep
  exact hold.trans (nearestNeighborMapperV3_shrinks hold.nonneg hstep)

/-! ## Chiplets -/

theorem validMapping_positiveShares (action : List ℚ) :
    ∀ share ∈ positiveShares action, 1 ≤ share.1 ∧ share.1 ≤ action.length := by
  intro share hshare
  obtain ⟨e, he, rfl⟩ := List.mem_map.mp (List.mem_filter.mp hshare).1
  have hlt := List.snd_lt_of_mem_zipIdx he
  dsimp only
  omega

theorem allocate_action_length (s : System) (layer : LayerMetrics) (st : Allocation)
    (chipletId : ℕ) : (allocate s layer st chipletId).action.length = st.action.length := by
  unfold allocate addAt
  dsimp only
  split_ifs <;> simp only [List.length_set]

theorem nearestNeighborMapperV3_length {layer : LayerMetrics} {remaining remaining' : List ℤ}
    {action : List ℚ}
    (h : nearestNeighborMapperV3 s preference layer remaining mappings = .ok (.ok (remaining',
      action))) : action.length = s.numChiplets := by
  obtain ⟨start, st, -, rfl, -, -, rfl⟩ := nearestNeighborMapperV3_ok h
  exact List.foldlRecOn
    (motive := fun st : Allocation => st.action.length = s.numChiplets) _ _
    List.length_replicate
    fun st hst k _ => (allocate_action_length s layer st k).trans hst

/-! ## The outcome -/

/-- A mapping that fails leaves the system as it was. -/
theorem generateMapping_error {s s' : System} {reason : MapFailure}
    (h : generateMapping s preference metrics = .ok (s', .error reason)) : s' = s := by
  unfold generateMapping at h
  obtain ⟨r, -, h⟩ := bind_eq_ok.mp h
  split at h
  · cases h
    rfl
  · next remaining mappings =>
    obtain ⟨u, hu, h⟩ := bind_eq_ok.mp h
    -- an update that does not raise succeeds
    by_cases hlen : remaining.length = s.numChiplets
    · obtain ⟨s'', hs'', -⟩ := s.updateCapacityAvailability_ok hlen
      rw [hs''] at hu
      cases hu
      cases h
    · unfold System.updateCapacityAvailability at hu
      rw [if_pos hlen] at hu
      cases hu

theorem generateMapping_ok {s s' : System} {mapping : LayerMappings} {used : List ℤ}
    (h : generateMapping s preference metrics = .ok (s', .ok (mapping, used))) :
    ∃ remaining, mapLayers s preference metrics = .ok (.ok (remaining, mapping)) ∧
      used = List.zipWith (· - ·) s.getAvailableCapacityPerChiplet remaining ∧
      s.updateCapacityAvailability remaining = .ok (s', true) := by
  unfold generateMapping at h
  obtain ⟨r, hr, h⟩ := bind_eq_ok.mp h
  split at h
  · cases h
  · next remaining mappings =>
    obtain ⟨u, hu, h⟩ := bind_eq_ok.mp h
    split at h
    · next hok =>
      cases h
      exact ⟨remaining, hr, rfl, hu.trans (by rw [← hok])⟩
    · cases h

/-- The mapper only maps to chiplets of the system. -/
theorem validMapping_mapLayers {remaining : List ℤ} {mapping : LayerMappings}
    (h : mapLayers s preference metrics = .ok (.ok (remaining, mapping))) :
    ValidMapping s.numChiplets mapping := by
  refine mapLayers_invariant (fun _ mappings => ValidMapping s.numChiplets mappings) h
    (fun e he => by cases he) ?_
  intro layer idx remaining mappings remaining' action hold hstep e he
  rcases List.mem_append.mp he with he | he
  · exact hold e he
  · rw [List.mem_singleton] at he
    rw [he, ← nearestNeighborMapperV3_length hstep]
    exact validMapping_positiveShares action

theorem validMapping_generateMapping {s s' : System} {mapping : LayerMappings} {used : List ℤ}
    (h : generateMapping s preference metrics = .ok (s', .ok (mapping, used))) :
    ValidMapping s.numChiplets mapping := by
  obtain ⟨remaining, hlayers, -, -⟩ := generateMapping_ok h
  exact validMapping_mapLayers hlayers

end ModelMapper

end ChipSim
