import Mathlib.Algebra.BigOperators.Ring.List
import Mathlib.Algebra.Order.BigOperators.Group.Finset
import ChipSim.ModelMapper.Admission

/-!
# Models that are rejected for good

The fatal check compares the weights of a model with the memory of the system. The mapper places at
most the weights that its units hold, but it rounds up once on every chiplet it fills, a whole
weight when the share is a float just above a whole number, and it counts a layer as mapped when at
most ten weights are left over. So a model is mapped in no capacity state if it exceeds the memory
by more than that, whatever the rounding of the shares.
-/

namespace ChipSim

open Lib Arithmetic

/-- The weights that a capacity unit holds. -/
def ChipletSpec.unitWeights (spec : ChipletSpec) : ℚ :=
  if spec.type = .cmos then 1 else spec.memoryPerCrossbar

namespace ModelMapper

open ModelProcessor

variable {s : System} {preference : Preference} {layer : LayerMetrics} {st st' : Allocation}
  {remaining : List ℤ} {chipletId : ℕ}

/-! ## The weights of a layer -/

/-- The units that a chiplet would need for the layer hold its weights. -/
def Demands (layer : LayerMetrics) : Prop :=
  ∀ spec : ChipletSpec, spec.type ≠ .io → 0 < calculateLayerRequirements layer.shape spec →
    (layer.crossbarsRequired : ℚ) ≤ calculateLayerRequirements layer.shape spec * spec.unitWeights

theorem le_crossbarsFor {spec : ChipletSpec} (h : spec.type = .imc) (outputs inputs : ℕ) :
    (outputs * inputs : ℚ) ≤ crossbarsFor spec outputs inputs * spec.memoryPerCrossbar := by
  obtain ⟨hrows, hcolumns, hcell, hweight⟩ := spec.imc_pos h
  have hrows' : (0 : ℚ) < spec.crossbarRows := by exact_mod_cast hrows
  have hcolumns' : (0 : ℚ) < spec.crossbarColumns := by exact_mod_cast hcolumns
  have hcell' : (0 : ℚ) < spec.bitsPerCell := by exact_mod_cast hcell
  have hweight' : (0 : ℚ) < spec.bitsPerWeight := by exact_mod_cast hweight
  have hceil : ∀ q : ℚ, 0 ≤ q → q ≤ (⌈q⌉.toNat : ℚ) := by
    intro q hq
    have htoNat : ((⌈q⌉.toNat : ℤ) : ℚ) = ⌈q⌉ := by rw [Int.toNat_of_nonneg (Int.ceil_nonneg hq)]
    exact_mod_cast (Int.le_ceil q).trans_eq htoNat.symm
  have hmul := mul_le_mul
    (hceil (outputs * spec.bitsPerWeight / spec.bitsPerCell / spec.crossbarColumns) (by positivity))
    (hceil (inputs / spec.crossbarRows) (by positivity)) (by positivity) (by positivity)
  unfold crossbarsFor
  push_cast
  calc (outputs * inputs : ℚ) = outputs * spec.bitsPerWeight / spec.bitsPerCell /
        spec.crossbarColumns * (inputs / spec.crossbarRows) * spec.memoryPerCrossbar := by
        unfold ChipletSpec.memoryPerCrossbar
        rw [if_pos ⟨hweight, hrows, hcolumns⟩]
        field_simp
    _ ≤ _ := mul_le_mul_of_nonneg_right hmul spec.memoryPerCrossbar_nonneg

/-- A layer given by a matrix of weights, and no more of them than its units are counted for. -/
theorem demands_of_matrix (outputs inputs : ℕ) (hle : layer.crossbarsRequired ≤ outputs * inputs)
    (hunits : ∀ spec : ChipletSpec, calculateLayerRequirements layer.shape spec =
      if spec.type = .cmos then inputs * outputs else crossbarsFor spec outputs inputs) :
    Demands layer := by
  intro spec hio _
  have hle' : (layer.crossbarsRequired : ℚ) ≤ outputs * inputs := by exact_mod_cast hle
  rw [hunits]
  unfold ChipletSpec.unitWeights
  by_cases hcmos : spec.type = .cmos
  · rw [if_pos hcmos, if_pos hcmos]
    push_cast
    linarith
  · have himc : spec.type = .imc := by
      cases htype : spec.type with
      | imc => rfl
      | cmos => exact absurd htype hcmos
      | io => exact absurd htype hio
    rw [if_neg hcmos, if_neg hcmos]
    exact hle'.trans (le_crossbarsFor himc outputs inputs)

theorem processConv1dLayer_shape {name : String} {params : LayerParams} {current : InputSize}
    {m : LayerMetrics} (h : processConv1dLayer name params current = .ok m) :
    ∃ filterSize outputs, m.shape = .conv1d filterSize outputs := by
  unfold processConv1dLayer at h
  extract_lets rest at h
  have hrest : ∀ height, rest height = .ok m →
      ∃ filterSize outputs, m.shape = .conv1d filterSize outputs := by
    intro height h
    obtain ⟨inputs, -, h⟩ := bind_eq_ok.mp h
    obtain ⟨outputs, -, h⟩ := bind_eq_ok.mp h
    obtain ⟨kernel, -, h⟩ := bind_eq_ok.mp h
    obtain ⟨_, -, h⟩ := bind_eq_ok.mp h
    cases h
    exact ⟨_, _, rfl⟩
  cases current with
  | some size => exact hrest size.1 h
  | none =>
    obtain ⟨height, -, h⟩ := bind_eq_ok.mp h
    obtain ⟨size, -, h⟩ := bind_eq_ok.mp h
    exact hrest size h

/-- A self-attention layer is mapped by its output channels alone. -/
def AttentionSquare (layer : LayerDef) : Prop :=
  layer.description = .selfAttention → ∀ c m, layer.parameters.inputChannels = some c →
    layer.parameters.outputChannels = some m → c ≤ m

theorem MetricsOf.demands {layer : LayerDef} {m : LayerMetrics} (h : MetricsOf layer m)
    (hin : layer.parameters.inputChannels.isSome) (hout : layer.parameters.outputChannels.isSome)
    (hattention : AttentionSquare layer) : Demands m := by
  cases h with
  | conv2d _ hm =>
    obtain ⟨inputs, outputs, kernel, -, -, -, hshape, hrequired⟩ := processConv2dLayer_spec hm
    refine demands_of_matrix outputs (inputs * kernel ^ 2) ?_ ?_
    · rw [hrequired, mul_assoc]
    · intro spec
      rw [hshape]
      rfl
  | conv1d _ hm =>
    obtain ⟨filterSize, outputs, hshape⟩ := processConv1dLayer_shape hm
    intro spec _ hpos
    rw [hshape] at hpos
    unfold calculateLayerRequirements at hpos
    split at hpos <;> cases hpos
  | linear _ hm =>
    unfold processLinearLayer at hm
    obtain ⟨inputs, -, hm⟩ := bind_eq_ok.mp hm
    obtain ⟨outputs, -, hm⟩ := bind_eq_ok.mp hm
    cases hm
    exact demands_of_matrix outputs inputs le_rfl fun spec => rfl
  | selfAttention hkind =>
    obtain ⟨c, hc⟩ := Option.isSome_iff_exists.mp hin
    obtain ⟨o, ho⟩ := Option.isSome_iff_exists.mp hout
    have hle := hattention hkind c o hc ho
    refine demands_of_matrix o o ?_ ?_
    · unfold processSelfAttentionLayer
      rw [hc, ho]
      exact Nat.mul_le_mul_right o hle
    · intro spec
      unfold processSelfAttentionLayer
      rw [ho]
      rfl

/-! ## The room that is left -/

/-- What the units of a chiplet are worth to the mapper: the weights they hold, up to the rounding
of floats, and one more while there are units left, for the rounding when it is filled. -/
def unitsWorth (spec : ChipletSpec) (units : ℤ) : ℚ :=
  units * spec.unitWeights * (1 + 1 / 2 ^ 51) + if 0 < units then 1 else 0

/-- What the units that remain on all chiplets are worth. -/
def room (s : System) (remaining : List ℤ) : ℚ :=
  ∑ k ∈ Finset.range s.numChiplets,
    ((s.chiplets[k]?).map fun c => unitsWorth c.spec (remaining.getD k 0)).getD 0

theorem room_set {k : ℕ} {c : Chiplet} (hk : s.chiplets[k]? = some c)
    (hlen : remaining.length = s.numChiplets) (v : ℤ) :
    room s (remaining.set k v) =
      room s remaining - unitsWorth c.spec (remaining.getD k 0) + unitsWorth c.spec v := by
  have hlt : k < s.numChiplets := (List.getElem?_eq_some_iff.mp hk).1
  have hmem : k ∈ Finset.range s.numChiplets := Finset.mem_range.mpr hlt
  have hother : ∀ j ∈ (Finset.range s.numChiplets).erase k,
      ((s.chiplets[j]?).map fun c => unitsWorth c.spec ((remaining.set k v).getD j 0)).getD 0 =
        ((s.chiplets[j]?).map fun c => unitsWorth c.spec (remaining.getD j 0)).getD 0 := by
    intro j hj
    rw [getD_set_ne _ _ _ (Finset.ne_of_mem_erase hj)]
  unfold room
  rw [← Finset.add_sum_erase _ _ hmem, ← Finset.add_sum_erase (Finset.range s.numChiplets)
    (fun j => ((s.chiplets[j]?).map fun c => unitsWorth c.spec (remaining.getD j 0)).getD 0) hmem,
    Finset.sum_congr rfl hother, hk, Option.map_some, Option.getD_some, Option.map_some,
    Option.getD_some, getD_set (hlen ▸ hlt), if_pos rfl]
  ring

theorem unitWeights_nonneg (spec : ChipletSpec) : 0 ≤ spec.unitWeights := by
  unfold ChipletSpec.unitWeights ChipletSpec.memoryPerCrossbar
  split
  · exact zero_le_one
  · split
    · positivity
    · exact le_rfl

theorem unitsWorth_nonneg (spec : ChipletSpec) {units : ℤ} (h : 0 ≤ units) :
    0 ≤ unitsWorth spec units := by
  have hunits : (0 : ℚ) ≤ units := by exact_mod_cast h
  have hweights := unitWeights_nonneg spec
  unfold unitsWorth
  refine add_nonneg (by positivity) ?_
  split
  · exact zero_le_one
  · exact le_rfl

/-- Units taken from a chiplet hold their weights. -/
theorem unitsWorth_sub (spec : ChipletSpec) {units : ℤ} (hpos : 0 < units) (taken : ℤ) :
    taken * spec.unitWeights * (1 + 1 / 2 ^ 51) ≤
      unitsWorth spec units - unitsWorth spec (units - taken) := by
  unfold unitsWorth
  rw [if_pos hpos]
  push_cast
  have hcredit : (if 0 < units - taken then (1 : ℚ) else 0) ≤ 1 := by
    split
    · exact le_rfl
    · exact zero_le_one
  linarith

section Floats

variable [Arithmetic] {spec : ChipletSpec} {required full : ℕ}

/-- The weights that are counted for all units of a chiplet. -/
theorem ceil_le_unitsWorth {units : ℤ} (hpos : 0 < units) (hfull : 0 < full)
    (hdemand : (required : ℚ) ≤ full * spec.unitWeights) {share : ℚ}
    (hshare : share = fl (units * 100 / full)) :
    (⌈fl (fl (share * required) / 100)⌉ : ℚ) ≤ unitsWorth spec units := by
  have hfull' : (0 : ℚ) < full := by exact_mod_cast hfull
  have hunits : (0 : ℚ) < units := by exact_mod_cast hpos
  have hle : (units * required / full : ℚ) ≤ units * spec.unitWeights := by
    rw [div_le_iff₀ hfull', mul_assoc, mul_comm spec.unitWeights]
    exact mul_le_mul_of_nonneg_left hdemand hunits.le
  have hexact : (0 : ℚ) ≤ units * required / full := by positivity
  have hshare_nonneg : 0 ≤ share := hshare ▸ fl_nonneg (by positivity)
  have hshare_le : share ≤ units * 100 / full * (1 + 1 / 2 ^ 53) := hshare ▸ fl_le (by positivity)
  have hproduct : 0 ≤ fl (share * required) := fl_nonneg (by positivity)
  have hvalue : fl (fl (share * required) / 100) ≤ units * spec.unitWeights * (1 + 1 / 2 ^ 51) :=
    calc fl (fl (share * required) / 100)
        ≤ fl (share * required) / 100 * (1 + 1 / 2 ^ 53) := fl_le (by positivity)
      _ ≤ share * required * (1 + 1 / 2 ^ 53) / 100 * (1 + 1 / 2 ^ 53) := by
        gcongr
        exact fl_le (by positivity)
      _ ≤ units * 100 / full * (1 + 1 / 2 ^ 53) * required * (1 + 1 / 2 ^ 53) / 100 *
          (1 + 1 / 2 ^ 53) := by gcongr
      _ = units * required / full * (1 + 1 / 2 ^ 53) ^ 3 := by ring
      _ ≤ units * spec.unitWeights * (1 + 1 / 2 ^ 51) :=
        mul_le_mul hle (by norm_num) (by positivity) (hexact.trans hle)
  unfold unitsWorth
  rw [if_pos hpos]
  linarith [Int.ceil_lt_add_one (fl (fl (share * required) / 100))]

/-- The units needed for some weights hold them. -/
theorem le_unitsNeeded_mul (hr : 0 < required) (hfull : 0 < full)
    (hdemand : (required : ℚ) ≤ full * spec.unitWeights) {resources : ℤ} (hres : 0 ≤ resources) :
    (resources : ℚ) ≤ unitsNeeded required resources full * spec.unitWeights *
      (1 + 1 / 2 ^ 51) := by
  have hr' : (0 : ℚ) < required := by exact_mod_cast hr
  have hfull' : (0 : ℚ) < full := by exact_mod_cast hfull
  have hres' : (0 : ℚ) ≤ resources := by exact_mod_cast hres
  have hweights := unitWeights_nonneg spec
  have hneeded : (resources * full / required : ℚ) ≤
      unitsNeeded required resources full * (1 + 1 / 2 ^ 51) := by
    have hceil := Int.le_ceil (fl (resources * full / required : ℚ))
    have hfl := le_fl (q := (resources * full / required : ℚ)) (by positivity)
    unfold unitsNeeded
    rw [if_pos hr]
    calc (resources * full / required : ℚ)
        ≤ resources * full / required * ((1 - 1 / 2 ^ 53) * (1 + 1 / 2 ^ 51)) :=
          le_mul_of_one_le_right (by positivity) (by norm_num)
      _ = resources * full / required * (1 - 1 / 2 ^ 53) * (1 + 1 / 2 ^ 51) := by ring
      _ ≤ _ := mul_le_mul_of_nonneg_right (hfl.trans hceil) (by norm_num)
  calc (resources : ℚ) = resources * full / required * (required / full) := by field_simp
    _ ≤ resources * full / required * spec.unitWeights := by
        refine mul_le_mul_of_nonneg_left ?_ (by positivity)
        rw [div_le_iff₀ hfull', mul_comm]
        exact hdemand
    _ ≤ unitsNeeded required resources full * (1 + 1 / 2 ^ 51) * spec.unitWeights :=
        mul_le_mul_of_nonneg_right hneeded hweights
    _ = _ := by ring

/-! ## The loops -/

/-- The account of the allocation of a layer that began with some units. -/
structure Placed (s : System) (layer : LayerMetrics) (remaining : List ℤ) (st : Allocation) :
    Prop where
  length : st.remaining.length = s.numChiplets
  le : st.resources ≤ layer.crossbarsRequired
  placed : (layer.crossbarsRequired - st.resources : ℚ) ≤ room s remaining - room s st.remaining

theorem Placed.move (h : Placed s layer remaining st) (hdemands : Demands layer)
    (hid : 1 ≤ chipletId ∧ chipletId ≤ s.numChiplets) (hio : s.isIoChiplet chipletId = false)
    (hmove : AllocMove s layer st chipletId st') : Placed s layer remaining st' := by
  obtain ⟨k, rfl⟩ : ∃ k, chipletId = k + 1 := ⟨chipletId - 1, by omega⟩
  have hk : k < s.chiplets.length := hid.2
  have hc : s.chiplets[k]? = some s.chiplets[k] := List.getElem?_eq_getElem hk
  have htype : s.chiplets[k].spec.type ≠ .io := fun htype => by
    rw [(isIoChiplet_iff hc).mpr htype] at hio
    cases hio
  have hunits : unitsFull s layer (k + 1) =
      calculateLayerRequirements layer.shape s.chiplets[k].spec := by
    unfold unitsFull System.chiplet?
    rw [if_neg (Nat.succ_ne_zero k), Nat.add_sub_cancel, hc]
    rfl
  cases hmove with
  | skip => exact h
  | fit hres havail hfull hfit =>
    rw [hunits] at hfull hfit ⊢
    rw [Nat.add_sub_cancel] at havail hfit ⊢
    have hdemand := hdemands _ htype hfull
    have hrequired : 0 < layer.crossbarsRequired := by have := h.le; omega
    refine ⟨by rw [List.length_set, h.length], by simp, ?_⟩
    dsimp only
    rw [room_set hc h.length]
    have htaken := unitsWorth_sub s.chiplets[k].spec havail (unitsNeeded layer.crossbarsRequired
      st.resources (calculateLayerRequirements layer.shape s.chiplets[k].spec))
    have hneeded := le_unitsNeeded_mul hrequired hfull hdemand hres.le
    push_cast
    linarith [h.placed]
  | fill hres havail hfull hfit hshare =>
    next share =>
    rw [hunits] at hfull hshare
    rw [Nat.add_sub_cancel] at havail hshare ⊢
    have hceil := ceil_le_unitsWorth havail hfull (hdemands _ htype hfull) hshare
    have hnonneg : 0 ≤ ⌈fl (fl (share * layer.crossbarsRequired) / 100)⌉ := by
      have havail' : (0 : ℚ) < st.remaining.getD k 0 := by exact_mod_cast havail
      have hshare_nonneg : 0 ≤ share := hshare ▸ fl_nonneg (by positivity)
      exact Int.ceil_nonneg (fl_nonneg (div_nonneg (fl_nonneg (by positivity)) (by norm_num)))
    have hzero : unitsWorth s.chiplets[k].spec 0 = 0 := by
      unfold unitsWorth
      simp
    refine ⟨by rw [List.length_set, h.length], ?_, ?_⟩
    · have := h.le
      dsimp only
      omega
    · dsimp only
      rw [room_set hc h.length, hzero]
      push_cast
      linarith [h.placed]

/-- A layer that is mapped leaves room for what it has placed. -/
theorem nearestNeighborMapperV3_room {remaining' : List ℤ} {mappings : LayerMappings}
    {action : List ℚ} (hdemands : Demands layer) (hlen : remaining.length = s.numChiplets)
    (h : nearestNeighborMapperV3 s preference layer remaining mappings =
      .ok (.ok (remaining', action))) :
    remaining'.length = s.numChiplets ∧
      (layer.crossbarsRequired - 10 : ℚ) ≤ room s remaining - room s remaining' := by
  obtain ⟨start, st, -, hst, hleft, rfl, -⟩ := nearestNeighborMapperV3_ok h
  have hplaced : Placed s layer remaining st := by
    rw [hst]
    refine List.foldlRecOn (motive := Placed s layer remaining) _ _
      ⟨hlen, le_rfl, by simp⟩ fun st hst id hid => ?_
    obtain ⟨hrange, -, hio, -⟩ := mem_availableChipletIds.mp (mem_allocationOrder.mp hid)
    exact hst.move hdemands (hlen ▸ hrange) hio (allocate_move ..)
  have hleft' : (st.resources : ℚ) ≤ 10 := by exact_mod_cast hleft
  exact ⟨hplaced.length, by linarith [hplaced.placed]⟩

/-- All layers. -/
theorem mapLayers_room {metrics : List LayerMetrics} {mappings : LayerMappings}
    (hdemands : ∀ m ∈ metrics, Demands m)
    (h : mapLayers s preference metrics = .ok (.ok (remaining, mappings))) :
    remaining.length = s.numChiplets ∧
      (System.getModelMemoryRequirement metrics - 10 * metrics.length : ℚ) ≤
        room s (mappableCapacity s) - room s remaining := by
  induction metrics using List.reverseRecOn generalizing remaining mappings with
  | nil =>
    cases h
    simp [System.getModelMemoryRequirement, mappableCapacity,
      System.getAvailableCapacityPerChiplet, System.numChiplets]
  | append_singleton metrics layer ih =>
    rw [mapLayers_concat] at h
    obtain ⟨r, hr, h⟩ := bind_eq_ok.mp h
    split at h
    · cases h
    · next before mappings' =>
      obtain ⟨r', hr', h⟩ := bind_eq_ok.mp h
      split at h
      · cases h
      · cases h
        obtain ⟨hlen, hbefore⟩ := ih (fun m hm => hdemands m (List.mem_append_left _ hm)) hr
        obtain ⟨hlen', hlayer⟩ := nearestNeighborMapperV3_room
          (hdemands layer (List.mem_append_right _ List.mem_cons_self)) hlen hr'
        have hsum : System.getModelMemoryRequirement (metrics ++ [layer]) =
            System.getModelMemoryRequirement metrics + layer.crossbarsRequired := by
          unfold System.getModelMemoryRequirement
          simp
        refine ⟨hlen', ?_⟩
        rw [hsum, List.length_append, List.length_singleton]
        push_cast
        linarith

end Floats

/-! ## Capacity states -/

/-- On every chiplet some of its units are available. -/
def CapacityState (s : System) : Prop :=
  ∀ c ∈ s.chiplets, 0 ≤ c.getAvailableCapacityUnits ∧
    c.getAvailableCapacityUnits ≤ c.spec.getTotalCapacityUnits

instance (s : System) : Decidable (CapacityState s) :=
  inferInstanceAs (Decidable (∀ c ∈ s.chiplets, _))

/-- The number of compute chiplets. -/
def computeChiplets (s : System) : ℕ := (s.chiplets.filter fun c => c.spec.type ≠ .io).length

theorem getTotalMemory_eq (spec : ChipletSpec) :
    spec.getTotalMemory = spec.getTotalCapacityUnits * spec.unitWeights := by
  unfold ChipletSpec.getTotalMemory ChipletSpec.getTotalCapacityUnits ChipletSpec.unitWeights
    ChipletSpec.totalCrossbars
  split
  · rw [mul_one]
  · push_cast
    ring

theorem unitsWorth_le {spec : ChipletSpec} {units : ℤ} (hle : units ≤ spec.getTotalCapacityUnits) :
    unitsWorth spec units ≤
      spec.getTotalMemory * (1 + 1 / 2 ^ 51) + if 0 < units then 1 else 0 := by
  have hle' : (units : ℚ) ≤ spec.getTotalCapacityUnits := by exact_mod_cast hle
  have hweights := unitWeights_nonneg spec
  rw [getTotalMemory_eq]
  unfold unitsWorth
  gcongr

/-- The system has room for its memory, up to the rounding. -/
theorem room_mappableCapacity_le (hs : CapacityState s) :
    room s (mappableCapacity s) ≤
      s.getTotalSystemMemory * (1 + 1 / 2 ^ 51) + computeChiplets s := by
  have hcompute : (computeChiplets s : ℚ) =
      (s.chiplets.map fun c => if c.spec.type ≠ .io then (1 : ℚ) else 0).sum := by
    rw [sum_map_ite_zero]
    unfold computeChiplets
    simp
  unfold System.getTotalSystemMemory room System.numChiplets
  rw [hcompute, ← List.sum_map_mul_right, ← List.sum_map_add, sum_map_eq_sum_range]
  refine Finset.sum_le_sum fun k _ => ?_
  cases hc : s.chiplets[k]? with
  | none => exact le_rfl
  | some c =>
    have hmem : c ∈ s.chiplets := List.mem_of_getElem? hc
    rw [mappableCapacity_eq, List.getD_eq_getElem?_getD, List.getElem?_map, hc]
    simp only [Option.map_some, Option.getD_some]
    by_cases hio : c.spec.type = .io
    · rw [if_pos hio, if_neg (not_not.mpr hio)]
      exact unitsWorth_le (by positivity)
    · rw [if_neg hio, if_pos hio]
      refine (unitsWorth_le (hs c hmem).2).trans (add_le_add_right ?_ _)
      split
      · exact le_rfl
      · exact zero_le_one

/-- A model of one layer. -/
def oneLayerModel (description : LayerDescription) (inputs outputs : ℕ) : ModelDef where
  layers := .ofList [(0, { description := description
                           parameters := { inputChannels := some inputs
                                           outputChannels := some outputs } })]

/-- On chiplets for these weights, a model is rejected for good but mapped with doubles. -/
def MappedThoughRejected (modelDef : ModelDef) (weights : List ℕ) : Prop :=
  ∃ metrics s' r, processModel modelDef = .ok metrics ∧ CapacityState (weightChiplets weights) ∧
    System.canModelEverFit (weightChiplets weights) metrics = false ∧
    @generateMapping .double (weightChiplets weights) {} metrics = .ok (s', .ok r)

theorem mappedThoughRejected_of_run {modelDef : ModelDef} {weights : List ℕ}
    (h : ((processModel modelDef).toOption.map fun metrics =>
      (decide (CapacityState (weightChiplets weights)),
        System.canModelEverFit (weightChiplets weights) metrics,
        (@generateMapping .double (weightChiplets weights) {} metrics).toOption.any
          fun r => r.2.toOption.isSome)) = some (true, false, true)) :
    MappedThoughRejected modelDef weights := by
  obtain ⟨metrics, hmetrics, heq⟩ := Option.map_eq_some_iff.mp h
  simp only [Prod.mk.injEq, decide_eq_true_eq, Option.any_eq_true] at heq
  obtain ⟨hstate, hfit, ⟨s', result⟩, hmap, hok⟩ := heq
  obtain ⟨r, hr⟩ := Option.isSome_iff_exists.mp hok
  rw [toOption_eq_some] at hmap hr
  refine ⟨metrics, s', r, toOption_eq_some.mp hmetrics, hstate, hfit, ?_⟩
  rw [hmap, ← hr]

end ModelMapper

end ChipSim
