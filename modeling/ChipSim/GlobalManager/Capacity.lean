import Mathlib.Algebra.Order.BigOperators.Group.List
import ChipSim.GlobalManager.Injection

/-!
# The capacity balance

On every chiplet the available units and those used by the active models add up to the capacity
of the chiplet. The mapper works on a copy of the available units and only ever takes units away
from it; a retired model gives back what it took. Hence the clamping of
`set_available_capacity_units` never changes a value.
-/

namespace ChipSim

open Lib

/-! ## Storing capacities -/

namespace System

variable {s s' : System}

/-- The capacity of the chiplet at a position. -/
def capacityAt (s : System) (k : ℕ) : ℤ :=
  (s.chiplets.map fun chiplet => (chiplet.spec.getTotalCapacityUnits : ℤ)).getD k 0

theorem length_getAvailableCapacityPerChiplet (s : System) :
    s.getAvailableCapacityPerChiplet.length = s.numChiplets := List.length_map _

theorem capacityAt_congr (h : s'.chiplets.map (·.spec) = s.chiplets.map (·.spec)) (k : ℕ) :
    s'.capacityAt k = s.capacityAt k := by
  have hmap : ∀ s : System, s.chiplets.map (fun chiplet =>
      (chiplet.spec.getTotalCapacityUnits : ℤ)) =
      (s.chiplets.map (·.spec)).map fun spec => (spec.getTotalCapacityUnits : ℤ) := fun s => by
    rw [List.map_map]
    rfl
  unfold capacityAt
  rw [hmap, hmap, h]

/-- Values within the capacity of every chiplet are not changed by the clamping. -/
theorem zipWith_clampUnits {units : List ℤ} (hlen : units.length = s.numChiplets)
    (h : ∀ k, 0 ≤ units.getD k 0 ∧ units.getD k 0 ≤ s.capacityAt k) :
    List.zipWith Chiplet.clampUnits s.chiplets units = units := by
  unfold numChiplets at hlen
  refine List.ext_getElem (by rw [List.length_zipWith, hlen, min_self]) fun k hk hk' => ?_
  have hk'' : k < s.chiplets.length := hlen ▸ hk'
  obtain ⟨h0, h1⟩ := h k
  unfold capacityAt at h1
  rw [List.getD_eq_getElem _ _ hk'] at h0 h1
  rw [List.getD_eq_getElem _ _ (by rwa [List.length_map]), List.getElem_map] at h1
  rw [List.getElem_zipWith]
  exact Chiplet.clampUnits_of_mem h0 h1

/-- Storing values within the capacity of every chiplet stores exactly these values. -/
theorem updateCapacityAvailability_eq {units : List ℤ} {b : Bool}
    (hlen : units.length = s.numChiplets)
    (h : ∀ k, 0 ≤ units.getD k 0 ∧ units.getD k 0 ≤ s.capacityAt k)
    (hs' : s.updateCapacityAvailability units = .ok (s', b)) :
    s'.chiplets.map (·.spec) = s.chiplets.map (·.spec) ∧
      s'.getAvailableCapacityPerChiplet = units := by
  obtain ⟨s'', hs'', -, hspec, havail⟩ := s.updateCapacityAvailability_ok hlen
  rw [hs', Except.ok.injEq, Prod.mk.injEq] at hs''
  rw [hs''.1]
  exact ⟨hspec, havail.trans (zipWith_clampUnits hlen h)⟩

end System

theorem getD_zipWith {f : ℤ → ℤ → ℤ} (hf : f 0 0 = 0) {l l' : List ℤ} (h : l.length = l'.length)
    (k : ℕ) : (List.zipWith f l l').getD k 0 = f (l.getD k 0) (l'.getD k 0) := by
  simp only [List.getD_eq_getElem?_getD, List.getElem?_zipWith]
  by_cases hk : k < l.length
  · rw [List.getElem?_eq_getElem hk, List.getElem?_eq_getElem (h ▸ hk)]
    rfl
  · rw [List.getElem?_eq_none (not_lt.mp hk), List.getElem?_eq_none (h ▸ not_lt.mp hk)]
    exact hf.symm

/-! ## The balance -/

namespace MappedModel

variable {ok : Guard}

theorem Run.usedCapacity {m₀ m : MappedModel} {g₀ g : ℚ} (h : Run ok g₀ m₀ g m) :
    m.usedCapacity = m₀.usedCapacity :=
  h.invariant (P := fun _ m => m.usedCapacity = m₀.usedCapacity) rfl (fun _ _ _ _ h => h)
    fun _ _ _ ih hstep => hstep.kept.1.trans ih

theorem calculatePhaseTiming_usedCapacity {m m' : MappedModel} {g : ℚ} {updated : Bool}
    (h : m.calculatePhaseTiming g = .ok (m', updated)) : m'.usedCapacity = m.usedCapacity := by
  have hadv : Advances nonNegative g m m' := calculatePhaseTiming_advances h
  exact chain_invariant (P := fun m' => m'.usedCapacity = m.usedCapacity) hadv rfl
    fun _ _ ih hstep => hstep.kept.1.trans ih

end MappedModel

namespace GlobalManager

open MappedModel

/-- The units of a chiplet that a model uses. -/
def usedAt (k : ℕ) (m : MappedModel) : ℤ := m.usedCapacity.getD k 0

/-- The units of a chiplet that all active models use. -/
def usedByActive (s : State) (k : ℕ) : ℤ := Dict.sumOf (usedAt k) s.activeMappedModels

/-- Available and used units add up to the capacity. -/
structure Balanced (specs : List ChipletSpec) (s : State) : Prop where
  specs : s.system.chiplets.map (·.spec) = specs
  nonneg : ∀ k, 0 ≤ s.system.getAvailableCapacityPerChiplet.getD k 0
  used : ∀ idx m, s.activeMappedModels.get? idx = some m →
    m.usedCapacity.length = s.system.numChiplets ∧ ∀ k, 0 ≤ usedAt k m
  balance : ∀ k, s.system.getAvailableCapacityPerChiplet.getD k 0 + usedByActive s k =
    s.system.capacityAt k

theorem Balanced.numChiplets {specs : List ChipletSpec} {s : State} (h : Balanced specs s) :
    s.system.numChiplets = specs.length := by
  unfold System.numChiplets
  rw [← h.specs, List.length_map]

theorem balanced_start {specs : List ChipletSpec} {adjMatrix : ℕ → ℕ → ℚ}
    {rows : List WorkloadEntry} {threshold : ℕ} {s : State}
    (h : start specs adjMatrix rows threshold = .ok s) : Balanced specs s := by
  unfold start at h
  split at h
  · cases h
  · cases h
    have havail : ∀ k, (specs.map Chiplet.new |>.map (·.getAvailableCapacityUnits)).getD k 0 =
        ((specs.map Chiplet.new).map fun chiplet =>
          (chiplet.spec.getTotalCapacityUnits : ℤ)).getD k 0 := by
      intro k
      rw [List.map_map, List.map_map]
      congr 1
      exact List.map_congr_left fun spec _ => Chiplet.getAvailableCapacityUnits_new spec
    refine ⟨?_, ?_, ?_, ?_⟩
    · rw [List.map_map]
      exact List.map_id _
    · intro k
      refine (havail k).symm ▸ ?_
      simp only [List.getD_eq_getElem?_getD, List.getElem?_map]
      cases specs[k]? <;> simp
    · intro idx m hm
      simp at hm
    · intro k
      refine (add_zero _).trans (havail k)

theorem sumOf_nonneg {d : Dict ℕ MappedModel} {k : ℕ}
    (h : ∀ idx m, d.get? idx = some m → 0 ≤ usedAt k m) : 0 ≤ Dict.sumOf (usedAt k) d := by
  refine List.sum_nonneg fun v hv => ?_
  obtain ⟨m, hm, rfl⟩ := List.mem_map.mp hv
  obtain ⟨idx, hidx⟩ := Dict.mem_values.mp hm
  exact h idx m hidx

variable {c : Config} {specs : List ChipletSpec} {s s' : State}

/-- The available units never exceed the capacity. -/
theorem Balanced.available_le (h : Balanced specs s) (k : ℕ) :
    s.system.getAvailableCapacityPerChiplet.getD k 0 ≤ s.system.capacityAt k := by
  have hused : 0 ≤ usedByActive s k := sumOf_nonneg fun idx m hm => (h.used idx m hm).2 k
  have hbal := h.balance k
  omega

/-- What a model gives back fits. -/
theorem Balanced.freed (h : Balanced specs s) {idx : ℕ} {m m' : MappedModel}
    (hm : s.activeMappedModels.get? idx = some m) (hm' : m'.usedCapacity = m.usedCapacity) :
    (freeCapacity s.system m').length = s.system.numChiplets ∧
      (∀ k, (freeCapacity s.system m').getD k 0 =
        s.system.getAvailableCapacityPerChiplet.getD k 0 + usedAt k m) ∧
      ∀ k, 0 ≤ (freeCapacity s.system m').getD k 0 ∧
        (freeCapacity s.system m').getD k 0 ≤ s.system.capacityAt k := by
  obtain ⟨hlen, hnonneg⟩ := h.used idx m hm
  have hlen' := s.system.length_getAvailableCapacityPerChiplet
  have hget : ∀ k, (freeCapacity s.system m').getD k 0 =
      s.system.getAvailableCapacityPerChiplet.getD k 0 + usedAt k m := fun k => by
    unfold freeCapacity usedAt
    rw [hm', getD_zipWith (add_zero 0) (hlen'.trans hlen.symm)]
  refine ⟨?_, hget, fun k => ?_⟩
  · unfold freeCapacity
    rw [List.length_zipWith, hm', hlen, hlen', min_self]
  · rw [hget]
    refine ⟨add_nonneg (h.nonneg k) (hnonneg k), ?_⟩
    -- the other active models use no negative amount
    have hrest : 0 ≤ Dict.sumOf (usedAt k) (s.activeMappedModels.erase idx) := by
      refine sumOf_nonneg fun j x hx => ?_
      rw [Dict.get?_erase] at hx
      split at hx
      · cases hx
      · exact (h.used j x hx).2 k
    have hsum := Dict.sumOf_erase (usedAt k) s.activeMappedModels idx
    rw [hm, Option.map_some, Option.getD_some] at hsum
    have hbal := h.balance k
    unfold usedByActive at hbal
    omega

/-- A model that uses the same units as before. -/
def SameUse (_ : ℕ) (m m' : MappedModel) : Prop := m'.usedCapacity = m.usedCapacity

theorem SameUse.refl (k : ℕ) (m : MappedModel) : SameUse k m m := rfl

/-- Moves that keep the system and the units used by the models keep the balance. -/
theorem Balanced.of_related (h : Balanced specs s) (hsys : s'.system = s.system)
    (hrel : Dict.Related SameUse s.activeMappedModels s'.activeMappedModels) :
    Balanced specs s' := by
  refine ⟨hsys ▸ h.specs, fun k => hsys ▸ h.nonneg k, ?_, fun k => ?_⟩
  · intro idx m' hm'
    obtain ⟨m, hm, heq⟩ := hrel.values idx m' hm'
    unfold usedAt
    rw [hsys, show m'.usedCapacity = m.usedCapacity from heq]
    exact h.used idx m hm
  · have hsum : usedByActive s' k = usedByActive s k :=
      hrel.sumOf_eq fun _ _ _ _ heq => congrArg (List.getD · k 0) heq
    rw [hsys, hsum]
    exact h.balance k

theorem createMappedModel_usedCapacity {sys : System} {a : Args} {m : MappedModel}
    (h : createMappedModel c sys a = .ok m) : m.usedCapacity = a.usedCapacity := by
  obtain ⟨chunks, -, h⟩ := bind_eq_ok.mp h
  exact (prepare_builtFrom h).usedCapacity

/-- What the mapper takes away from the available units is what the model uses. -/
theorem Balanced.injected {arithmetic : Arithmetic} (h : Balanced specs s) {sys : System}
    {used : List ℤ} {k : ℕ}
    {preference : Preference} {metrics : List LayerMetrics} {mapping : LayerMappings}
    (hnot : k ∉ s.activeMappedModels)
    (hmap : ModelMapper.generateMapping s.system preference metrics =
      .ok (sys, .ok (mapping, used))) {m : MappedModel} (hm : m.usedCapacity = used)
    (hsys : s'.system = sys) (hactive : s'.activeMappedModels = s.activeMappedModels.set k m) :
    Balanced specs s' := by
  obtain ⟨remaining, hlayers, hused, hupdate⟩ := ModelMapper.generateMapping_ok hmap
  have hshrinks := ModelMapper.mapLayers_shrinks h.nonneg hlayers
  have hlen := s.system.length_getAvailableCapacityPerChiplet
  have hbounds : ∀ j, 0 ≤ remaining.getD j 0 ∧ remaining.getD j 0 ≤ s.system.capacityAt j :=
    fun j => ⟨hshrinks.nonneg j, (hshrinks.le j).trans (h.available_le j)⟩
  obtain ⟨hspec, havail⟩ :=
    System.updateCapacityAvailability_eq (hshrinks.length.trans hlen) hbounds hupdate
  have hnum : sys.numChiplets = s.system.numChiplets := by
    rw [← sys.length_getAvailableCapacityPerChiplet, havail, hshrinks.length, hlen]
  have husedAt : ∀ j, usedAt j m =
      s.system.getAvailableCapacityPerChiplet.getD j 0 - remaining.getD j 0 := fun j => by
    unfold usedAt
    rw [hm, hused, getD_zipWith (sub_zero 0) hshrinks.length.symm]
  refine ⟨?_, ?_, ?_, ?_⟩
  · rw [hsys, hspec, h.specs]
  · rw [hsys, havail]
    exact hshrinks.nonneg
  · intro idx x hx
    rw [hsys, hnum]
    rw [hactive, Dict.get?_set] at hx
    split at hx
    · cases hx
      refine ⟨?_, fun j => ?_⟩
      · rw [hm, hused, List.length_zipWith, hshrinks.length, min_self, hlen]
      · rw [husedAt]
        exact sub_nonneg.mpr (hshrinks.le j)
    · exact h.used idx x hx
  · intro j
    have hsum := Dict.sumOf_set (usedAt j) s.activeMappedModels k m
    rw [Dict.get?_eq_none_iff.mpr hnot, Option.map_none, Option.getD_none, husedAt] at hsum
    have hbal := h.balance j
    unfold usedByActive at hbal ⊢
    rw [hsys, System.capacityAt_congr hspec, havail, hactive]
    omega

/-- What a retired model gives back is what it used. -/
theorem Balanced.retired (h : Balanced specs s) {idx : ℕ} {m m' : MappedModel} {r : System × Bool}
    (hm : s.activeMappedModels.get? idx = some m) (hm' : m'.usedCapacity = m.usedCapacity)
    (hupdate : s.system.updateCapacityAvailability (freeCapacity s.system m') = .ok r)
    (hsys : s'.system = r.1)
    (hactive : s'.activeMappedModels = s.activeMappedModels.erase idx) : Balanced specs s' := by
  obtain ⟨hlen, hget, hbounds⟩ := h.freed hm hm'
  obtain ⟨hspec, havail⟩ := System.updateCapacityAvailability_eq hlen hbounds hupdate
  have hnum : r.1.numChiplets = s.system.numChiplets := by
    rw [← r.1.length_getAvailableCapacityPerChiplet, havail, hlen]
  refine ⟨?_, ?_, ?_, ?_⟩
  · rw [hsys, hspec, h.specs]
  · rw [hsys, havail]
    exact fun k => (hbounds k).1
  · intro j x hx
    rw [hsys, hnum]
    rw [hactive, Dict.get?_erase] at hx
    split at hx
    · cases hx
    · exact h.used j x hx
  · intro k
    have hsum := Dict.sumOf_erase (usedAt k) s.activeMappedModels idx
    rw [hm, Option.map_some, Option.getD_some] at hsum
    have hbal := h.balance k
    unfold usedByActive at hbal ⊢
    rw [hsys, System.capacityAt_congr hspec, havail, hget, hactive]
    omega

/-- **One step.** Every move keeps the balance. -/
theorem Balanced.move (h : Balanced specs s) (hh : Histories c s) (ht : Tracked s)
    (hmove : Move c s s') : Balanced specs s' := by
  have hsame : Dict.Related SameUse s.activeMappedModels s.activeMappedModels :=
    Dict.Related.refl SameUse.refl _
  cases hmove with
  | ready => exact h.of_related rfl hsame
  | finish => exact h.of_related rfl hsame
  | proceed => exact h.of_related rfl hsame
  | postponed => exact h.of_related rfl hsame
  | injected hstage hmetrics hmap hm =>
    have hnot := (ht.not_active (ht.pending_tail hstage).1).1
    exact h.injected hnot hmap (createMappedModel_usedCapacity hm) rfl rfl
  | communicated hstage hsim htime =>
    exact h.of_related rfl ((communicated_related hh.shape hsim htime).mono fun _ _ _ hrun =>
      hrun.usedCapacity)
  | kept hstage hm htime hrunning =>
    have hkeep := calculatePhaseTiming_usedCapacity htime
    exact h.of_related rfl (Dict.Related.set SameUse.refl hm hkeep)
  | retired hstage hm htime hcomplete hsys =>
    have hkeep := calculatePhaseTiming_usedCapacity htime
    exact h.retired hm hkeep hsys rfl rfl
  | nextTick => exact h.of_related rfl hsame
  | finished => exact h

theorem Reachable.balanced {s₀ : State} (h : Reachable c s₀ s) (hh : Histories c s₀)
    (ht : Tracked s₀) (h0 : Balanced specs s₀) : Balanced specs s :=
  h.invariant h0 fun _ _ hreach hs hmove =>
    hs.move (hreach.histories hh) (hreach.tracked hh ht) hmove

/-- What the accounting of the capacity guarantees in a state: the balance on every chiplet, that a
failing mapping changes nothing, and that no value the mapper or a retirement stores is clamped. -/
structure CapacityAccounted (specs : List ChipletSpec) (s : State) : Prop where
  specs : s.system.chiplets.map (·.spec) = specs
  balance : ∀ k chiplet, s.system.chiplets[k]? = some chiplet →
    chiplet.getAvailableCapacityUnits + usedByActive s k = chiplet.spec.getTotalCapacityUnits ∧
      0 ≤ chiplet.getAvailableCapacityUnits ∧
      chiplet.getAvailableCapacityUnits ≤ chiplet.spec.getTotalCapacityUnits
  failedMapping : ∀ [Arithmetic] preference metrics sys reason,
    ModelMapper.generateMapping s.system preference metrics = .ok (sys, .error reason) →
      sys = s.system
  mappingStored : ∀ [Arithmetic] preference metrics remaining mapping,
    ModelMapper.mapLayers s.system preference metrics = .ok (.ok (remaining, mapping)) →
      List.zipWith Chiplet.clampUnits s.system.chiplets remaining = remaining
  retirementStored : ∀ idx m m' updated, s.activeMappedModels.get? idx = some m →
    m.calculatePhaseTiming s.globalTimeUs = .ok (m', updated) →
      List.zipWith Chiplet.clampUnits s.system.chiplets (freeCapacity s.system m') =
        freeCapacity s.system m'

theorem Balanced.accounted (h : Balanced specs s) : CapacityAccounted specs s where
  specs := h.specs
  balance k chiplet hk := by
    have havail : s.system.getAvailableCapacityPerChiplet.getD k 0 =
        chiplet.getAvailableCapacityUnits := by
      simp [System.getAvailableCapacityPerChiplet, List.getD_eq_getElem?_getD, hk]
    have hcap : s.system.capacityAt k = chiplet.spec.getTotalCapacityUnits := by
      simp [System.capacityAt, List.getD_eq_getElem?_getD, hk]
    rw [← havail, ← hcap]
    exact ⟨h.balance k, h.nonneg k, h.available_le k⟩
  failedMapping _ _ _ _ hmap := ModelMapper.generateMapping_error hmap
  mappingStored _ _ _ _ hmap := by
    have hshrinks := ModelMapper.mapLayers_shrinks h.nonneg hmap
    exact System.zipWith_clampUnits
      (hshrinks.length.trans s.system.length_getAvailableCapacityPerChiplet)
      fun k => ⟨hshrinks.nonneg k, (hshrinks.le k).trans (h.available_le k)⟩
  retirementStored _ _ _ _ hm htime := by
    obtain ⟨hlen, -, hbounds⟩ := h.freed hm (calculatePhaseTiming_usedCapacity htime)
    exact System.zipWith_clampUnits hlen hbounds

/-- **Capacity.** In every state of every simulation, between any two injection attempts or
retirements, the capacity of every chiplet is accounted for. -/
theorem capacity_of_reachable {adjMatrix : ℕ → ℕ → ℚ} {rows : List WorkloadEntry} {threshold : ℕ}
    {s₀ : State} (hstart : start specs adjMatrix rows threshold = .ok s₀)
    (h : Reachable c s₀ s) : CapacityAccounted specs s :=
  (h.balanced (histories_start c hstart) (tracked_start hstart) (balanced_start hstart)).accounted

/-- One model is active and the other one has failed to be mapped. -/
theorem capacity_of_smallRun :
    ∃ s, smallRun 12 = .ok s ∧ s.activeMappedModels.keys = [0] ∧
      s.workload.readyModels.map (·.failureAge) = [1] ∧
      s.system.getAvailableCapacityPerChiplet = [0, 80, 0] ∧
      CapacityAccounted smallSystem s := by
  have hrun : ((smallRun 12).toOption.map fun s => (s.activeMappedModels.keys,
      s.workload.readyModels.map (·.failureAge), s.system.getAvailableCapacityPerChiplet)) =
      some ([0], [1], [0, 80, 0]) := by decide +kernel
  obtain ⟨s, hs, heq⟩ := Option.map_eq_some_iff.mp hrun
  rw [toOption_eq_some] at hs
  obtain ⟨s₀, hs₀, hreach⟩ := smallRun_reachable hs
  simp only [Prod.mk.injEq] at heq
  exact ⟨s, hs, heq.1, heq.2.1, heq.2.2, capacity_of_reachable hs₀ hreach⟩

end GlobalManager

end ChipSim
