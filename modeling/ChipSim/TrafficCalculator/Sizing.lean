import Mathlib.Algebra.BigOperators.Ring.Finset
import Mathlib.Algebra.BigOperators.Ring.List
import Mathlib.Algebra.Order.BigOperators.Group.List
import ChipSim.TrafficCalculator.WeightLoading

/-!
# Packets and bits

The traffic calculator counts whole packets, rounded down but at least one, in two steps for
activations (the layer, then the share of each source) and in two steps for weights (the weights of
a chiplet, then their packets). What is lost that way is bounded: for activations by one packet and
the share of another one, for weights by a packet and a weight for each chiplet of the layer.
-/

namespace ChipSim

open Lib

namespace TrafficCalculator

open TrafficMatrixDict

/-! ## Rounding -/

/-- Whole packets, at least one, carry all bits but less than a packet. -/
theorem lt_packets_add (bits : ℤ) {b : ℕ} (hb : 0 < b) :
    bits < (max 1 (bits / b)) * b + b := by
  have hdiv := Int.lt_ediv_add_one_mul_self bits (Int.natCast_pos.mpr hb)
  have hmax : (bits / b + 1) * b ≤ (max 1 (bits / b) + 1) * (b : ℤ) :=
    mul_le_mul_of_nonneg_right (add_le_add_left (le_max_right _ _) 1) (Int.natCast_nonneg b)
  rw [add_one_mul (max 1 (bits / (b : ℤ)))] at hmax
  exact hdiv.trans_le hmax

/-- Truncation loses less than one. -/
theorem lt_truncate_add_one (q : ℚ) : q < truncate q + 1 := by
  unfold truncate
  split
  · exact Int.lt_floor_add_one q
  · exact (Int.le_ceil q).trans_lt (lt_add_one _)

theorem le_toNat_max (n : ℤ) : (n : ℚ) ≤ (max 1 n.toNat : ℕ) := by
  have hle : n ≤ (max 1 n.toNat : ℕ) := by omega
  exact_mod_cast hle

/-! ## Activations -/

/-- What the output of a layer takes. -/
def activationBits (tc : TrafficCalculator) (layer : LayerMetrics) : ℕ :=
  layer.outputActivation * tc.bitsPerActivation

/-- The packets for one share lose less than a packet and the share of another one. -/
theorem share_lt_packets (bits : ℕ) {b : ℕ} (hb : 0 < b) (percentage : ℚ) :
    bits * (percentage / 100) <
      (max 1 (truncate ((max 1 (bits / b) : ℕ) * (percentage / 100))).toNat : ℕ) * b + b +
        |percentage| / 100 * b := by
  have hb' : (0 : ℚ) < b := by exact_mod_cast hb
  have hnonneg : (0 : ℚ) ≤
      (max 1 (truncate ((max 1 (bits / b) : ℕ) * (percentage / 100))).toNat : ℕ) * b :=
    by positivity
  rcases le_or_gt percentage 0 with hneg | hpos
  · have hshare : bits * (percentage / 100) ≤ 0 :=
      mul_nonpos_of_nonneg_of_nonpos (Nat.cast_nonneg _) (by linarith)
    have habs : 0 ≤ |percentage| / 100 * (b : ℚ) := by positivity
    linarith
  · rw [abs_of_pos hpos]
    have hbits : (bits : ℚ) < (max 1 (bits / b) : ℕ) * b + b := by
      have h := lt_packets_add bits hb
      exact_mod_cast h
    have htrunc := lt_truncate_add_one ((max 1 (bits / b) : ℕ) * (percentage / 100))
    have hmax := le_toNat_max (truncate ((max 1 (bits / b) : ℕ) * (percentage / 100)))
    calc bits * (percentage / 100)
        < ((max 1 (bits / b) : ℕ) * b + b) * (percentage / 100) :=
          mul_lt_mul_of_pos_right hbits (by linarith)
      _ = ((max 1 (bits / b) : ℕ) * (percentage / 100)) * b + percentage / 100 * b := by ring
      _ ≤ ((max 1 (truncate ((max 1 (bits / b) : ℕ) * (percentage / 100))).toNat : ℕ) + 1) * b +
            percentage / 100 * b := by
          refine add_le_add (mul_le_mul_of_nonneg_right ?_ hb'.le) le_rfl
          linarith
      _ = _ := by ring

variable {totalPackets : ℕ} {src dst n : ℕ}

theorem sendActivations_grows (share : ℕ × ℚ) {t : TrafficMatrixDict} (target : ℕ × ℚ)
    (h : n ≤ t.amount src dst) :
    n ≤ (sendActivations totalPackets share t target).amount src dst := by
  unfold sendActivations
  split
  · rw [amount_addPackets]
    exact h.trans (Nat.le_add_right _ _)
  · exact h

theorem sendShare_grows (share : ℕ × ℚ) (receiving : List (ℕ × ℚ)) {t : TrafficMatrixDict}
    (h : n ≤ t.amount src dst) :
    n ≤ (receiving.foldl (sendActivations totalPackets share)
      (ensureSource t share.1)).amount src dst := by
  refine List.foldlRecOn (motive := fun t => n ≤ TrafficMatrixDict.amount t src dst) _ _ ?_
    fun t ht target _ => sendActivations_grows share target ht
  rw [amount_ensureSource]
  exact h

theorem sendToLayer_grows (current : List (ℕ × ℚ)) (mapping : LayerMappings)
    {t : TrafficMatrixDict} (receivingLayer : ℤ) (h : n ≤ t.amount src dst) :
    n ≤ (sendToLayer totalPackets current mapping t receivingLayer).amount src dst := by
  unfold sendToLayer
  dsimp only
  split
  · exact h
  · exact List.foldlRecOn (motive := fun t => n ≤ TrafficMatrixDict.amount t src dst) _ _ h
      fun t ht share _ => sendShare_grows share _ ht

/-- A receiving layer gets the packets of every share on each of its other chiplets. -/
theorem le_sendToLayer {current : List (ℕ × ℚ)} {mapping : LayerMappings} {receivingLayer : ℤ}
    {share target : ℕ × ℚ} (hshare : share ∈ current)
    (htarget : target ∈ mappingOf mapping receivingLayer)
    (hne : share.1 ≠ target.1) (t : TrafficMatrixDict) :
    max 1 (truncate (totalPackets * (share.2 / 100))).toNat ≤
      (sendToLayer totalPackets current mapping t receivingLayer).amount share.1 target.1 := by
  unfold sendToLayer
  dsimp only
  rw [if_neg (by rw [List.isEmpty_iff]; exact List.ne_nil_of_mem htarget)]
  refine foldl_establish (P := fun t : TrafficMatrixDict => _ ≤ t.amount share.1 target.1)
    (fun share' _ t ht => sendShare_grows share' _ ht) hshare fun t => ?_
  refine foldl_establish (P := fun t : TrafficMatrixDict => _ ≤ t.amount share.1 target.1)
    (fun target' _ t ht => sendActivations_grows share target' ht) htarget fun t => ?_
  unfold sendActivations
  rw [if_pos hne, amount_addPackets, if_pos ⟨rfl, rfl⟩]
  exact Nat.le_add_left _ _

theorem mappingOf_neg (mapping : LayerMappings) : mappingOf mapping (-1) = [] := by
  have hnone : (mapping.find? fun e => (e.1 : ℤ) = -1) = none := by
    rw [List.find?_eq_none]
    intro e _
    rw [decide_eq_true_iff]
    omega
  unfold mappingOf
  rw [hnone]
  rfl

/-- The metrics of the layer with a given index, by the name of its definition. -/
def metricsOf (modelDef : ModelDef) (metrics : List LayerMetrics) (layerIdx : ℕ) :
    Option LayerMetrics := do
  let layerDef ← modelDef.layers.get? layerIdx
  metrics.find? (·.name = layerDef.name.getD (ModelProcessor.layerName layerIdx))

/-- The activation packets are enough but for less than a packet and a share. -/
theorem activation_traffic_sufficient (tc : TrafficCalculator) {modelDef : ModelDef}
    {metrics : List LayerMetrics} {mapping : LayerMappings} {layerIdx : ℕ} {layerDef : LayerDef}
    {layer : LayerMetrics} (hlast : layerIdx + 1 < modelDef.layers.keys.length)
    (hdef : modelDef.layers.get? layerIdx = some layerDef)
    (hlayer : metricsOf modelDef metrics layerIdx = some layer) {receivingLayer : ℤ}
    (hreceiving : receivingLayer ∈ layerDef.receivingLayers) {share target : ℕ × ℚ}
    (hshare : share ∈ mappingOf mapping layerIdx)
    (htarget : target ∈ mappingOf mapping receivingLayer)
    (hne : share.1 ≠ target.1) :
    tc.activationBits layer * (share.2 / 100) <
      (tc.calculateActivationTraffic modelDef metrics mapping layerIdx).amount share.1 target.1 *
        tc.bitsPerPacket + tc.bitsPerPacket + |share.2| / 100 * tc.bitsPerPacket := by
  have hmapped : (mappingOf mapping layerIdx).isEmpty = false := by
    rw [List.isEmpty_eq_false_iff]
    exact List.ne_nil_of_mem hshare
  -- no layer of a mapping has the index that marks a layer without receiving layers
  have hsends : ¬(layerDef.receivingLayers = [] ∨ layerDef.receivingLayers = [-1]) := by
    rintro (hnone | hnone)
    · rw [hnone] at hreceiving
      cases hreceiving
    · rw [hnone, List.mem_singleton] at hreceiving
      subst hreceiving
      rw [mappingOf_neg] at htarget
      cases htarget
  unfold metricsOf at hlayer
  rw [hdef] at hlayer
  have hpackets : max 1 (truncate ((max 1 (tc.activationBits layer / tc.bitsPerPacket) : ℕ) *
      (share.2 / 100))).toNat ≤
      (tc.calculateActivationTraffic modelDef metrics mapping layerIdx).amount
        share.1 target.1 := by
    unfold calculateActivationTraffic
    rw [if_neg (not_le.mpr hlast), hdef]
    dsimp only
    rw [if_neg hsends, show metrics.find? _ = some layer from hlayer]
    dsimp only
    rw [hmapped, if_neg Bool.false_ne_true]
    exact foldl_establish (fun t : TrafficMatrixDict => _ ≤ t.amount share.1 target.1)
      (fun r _ t ht => sendToLayer_grows _ mapping r ht) hreceiving
      fun t => le_sendToLayer hshare htarget hne t
  have hcast : ((max 1 (truncate ((max 1 (tc.activationBits layer / tc.bitsPerPacket) : ℕ) *
      (share.2 / 100))).toNat : ℕ) : ℚ) * tc.bitsPerPacket ≤
      (tc.calculateActivationTraffic modelDef metrics mapping layerIdx).amount share.1 target.1 *
        tc.bitsPerPacket :=
    mul_le_mul_of_nonneg_right (Nat.cast_le.mpr hpackets) (Nat.cast_nonneg _)
  linarith [share_lt_packets (tc.activationBits layer) tc.bitsPerPacket_pos share.2]

/-! ## Weights -/

/-- The packets with the weights of one chiplet. -/
def weightPackets (tc : TrafficCalculator) (numWeights bitsPerWeight : ℕ) (percentage : ℚ) : ℕ :=
  let weights := truncate (numWeights * (percentage / 100))
  if weights = 0 then 0 else (max 1 (weights * bitsPerWeight / tc.bitsPerPacket)).toNat

/-- They lose less than a packet and a weight. -/
theorem share_lt_weightPackets (tc : TrafficCalculator) (numWeights bitsPerWeight : ℕ)
    (percentage : ℚ) :
    numWeights * (percentage / 100) * bitsPerWeight <
      tc.weightPackets numWeights bitsPerWeight percentage * tc.bitsPerPacket +
        (bitsPerWeight + tc.bitsPerPacket) := by
  have hb : (0 : ℚ) < tc.bitsPerPacket := by exact_mod_cast tc.bitsPerPacket_pos
  have hweights : numWeights * (percentage / 100) * bitsPerWeight ≤
      (truncate (numWeights * (percentage / 100)) + 1) * (bitsPerWeight : ℚ) :=
    mul_le_mul_of_nonneg_right (lt_truncate_add_one _).le (Nat.cast_nonneg _)
  unfold weightPackets
  dsimp only
  split
  · next hzero =>
    rw [hzero, Int.cast_zero, zero_add, one_mul] at hweights
    rw [Nat.cast_zero, zero_mul, zero_add]
    linarith
  · have hlt := lt_packets_add (truncate (numWeights * (percentage / 100)) * bitsPerWeight)
      tc.bitsPerPacket_pos
    have hnat : ((max 1 (truncate (numWeights * (percentage / 100)) * bitsPerWeight /
        tc.bitsPerPacket)).toNat : ℤ) =
        max 1 (truncate (numWeights * (percentage / 100)) * bitsPerWeight / tc.bitsPerPacket) :=
      Int.toNat_of_nonneg (zero_le_one.trans (le_max_left _ _))
    rw [← hnat] at hlt
    have hcast : (truncate (numWeights * (percentage / 100)) : ℚ) * bitsPerWeight <
        ((max 1 (truncate (numWeights * (percentage / 100)) * bitsPerWeight /
          tc.bitsPerPacket)).toNat : ℕ) * tc.bitsPerPacket + tc.bitsPerPacket := by
      exact_mod_cast hlt
    linarith

/-- The mapping of a layer whose weights can be loaded: its compute chiplets, each listed once,
hold weights of one width and are served by an I/O chiplet, and the shares make up the layer. -/
structure Loadable (s : System) (shares : List (ℕ × ℚ)) (bitsPerWeight : ℕ) : Prop where
  nodup : (shares.map Prod.fst).Nodup
  compute : ∀ share ∈ shares, s.isIoChiplet share.1 = false
  width : ∀ share ∈ shares, ∃ chiplet, s.chiplet? share.1 = some chiplet ∧
    chiplet.spec.bitsPerWeight = bitsPerWeight
  route : ∀ share ∈ shares, ∃ io, s.getIoChipletForCompute share.1 = some io
  whole : (shares.map Prod.snd).sum = 100

/-- The packets sent to a chiplet. -/
def packetsTo (t : TrafficMatrixDict) (dst : ℕ) : ℕ :=
  Dict.sumOf (fun dests : Dict ℕ ℕ => dests.getD dst 0) t

theorem amount_le_packetsTo (t : TrafficMatrixDict) (src dst : ℕ) :
    t.amount src dst ≤ packetsTo t dst := by
  have hsum := Dict.sumOf_erase (fun dests : Dict ℕ ℕ => dests.getD dst 0) t src
  have hamount : ((t.get? src).map fun dests : Dict ℕ ℕ => dests.getD dst 0).getD 0 =
      t.amount src dst := by
    rw [amount_eq]
    unfold Dict.get2?
    cases t.get? src with
    | none => rfl
    | some dests => rfl
  rw [hamount] at hsum
  exact Nat.le.intro ((add_comm _ _).trans hsum)

section

variable {tc : TrafficCalculator} {s : System} {layerIdx numWeights bitsPerWeight : ℕ}

/-- One pass of the loop over the chiplets of a layer. -/
theorem loadChiplet_eq {shares : List (ℕ × ℚ)} (h : Loadable s shares bitsPerWeight)
    {share : ℕ × ℚ} (hshare : share ∈ shares) {io : ℕ}
    (hio : s.getIoChipletForCompute share.1 = some io) (t : TrafficMatrixDict) :
    loadChiplet tc s layerIdx numWeights t share =
      .ok (if truncate (numWeights * (share.2 / 100)) = 0 then t
        else t.set2 io share.1 (tc.weightPackets numWeights bitsPerWeight share.2)) := by
  obtain ⟨chiplet, hchiplet, hwidth⟩ := h.width share hshare
  unfold loadChiplet weightPackets
  dsimp only
  rw [h.compute share hshare, if_neg Bool.false_ne_true, hchiplet, hio]
  dsimp only
  rw [hwidth]
  split
  · rfl
  · rfl

/-- **Loop.** Every chiplet gets its packets. -/
theorem loadChiplets_spec {shares : List (ℕ × ℚ)} (h : Loadable s shares bitsPerWeight) :
    ∃ t, shares.foldlM (loadChiplet tc s layerIdx numWeights) .empty = .ok t ∧
      ∀ share ∈ shares,
        tc.weightPackets numWeights bitsPerWeight share.2 ≤ packetsTo t share.1 := by
  have hpass : ∀ share ∈ shares, ∀ t,
      ∃ t', loadChiplet tc s layerIdx numWeights t share = .ok t' := by
    intro share hshare t
    obtain ⟨io, hio⟩ := h.route share hshare
    exact ⟨_, loadChiplet_eq h hshare hio t⟩
  obtain ⟨t, ht⟩ := foldlM_ok (s := (.empty : TrafficMatrixDict)) hpass
  refine ⟨t, ht, fun share hshare => ?_⟩
  obtain ⟨io, hio⟩ := h.route share hshare
  have hown : ∀ t t', loadChiplet tc s layerIdx numWeights t share = .ok t' →
      tc.weightPackets numWeights bitsPerWeight share.2 ≤ t'.amount io share.1 := by
    intro t t' hstep
    rw [loadChiplet_eq h hshare hio t, Except.ok.injEq] at hstep
    subst hstep
    split
    · next hzero =>
      unfold weightPackets
      dsimp only
      rw [if_pos hzero]
      exact Nat.zero_le _
    · rw [amount_eq, Dict.get2?_set2, if_pos ⟨rfl, rfl⟩]
      exact le_rfl
  refine le_trans ?_ (amount_le_packetsTo t io share.1)
  refine foldlM_establish (fun _ => True)
    (fun t : TrafficMatrixDict => _ ≤ t.amount io share.1) ht trivial
    (fun other hother t t' _ hstep => ⟨trivial, fun hamount => ?_⟩) hshare
    fun t t' _ hstep => hown t t' hstep
  by_cases hsame : other.1 = share.1
  · -- each chiplet is listed once
    obtain rfl := List.inj_on_of_nodup_map h.nodup hother hshare hsame
    exact hown t t' hstep
  · obtain ⟨io', hio'⟩ := h.route other hother
    rw [loadChiplet_eq h hother hio' t, Except.ok.injEq] at hstep
    subst hstep
    split
    · exact hamount
    · rw [amount_eq, Dict.get2?_set2, if_neg fun heq => hsame heq.2.symm, ← amount_eq]
      exact hamount

end

theorem Loadable.ne_nil {s : System} {shares : List (ℕ × ℚ)} {bitsPerWeight : ℕ}
    (h : Loadable s shares bitsPerWeight) : shares ≠ [] := by
  rintro rfl
  have := h.whole
  norm_num at this

/-- The traffic of the layer is computed, with the packets of every chiplet. -/
theorem calculateSingleLayerWeightTraffic_spec (tc : TrafficCalculator) {s : System}
    {metrics : List LayerMetrics} {mapping : LayerMappings} {layerIdx bitsPerWeight : ℕ}
    {layer : LayerMetrics}
    (hlayer : metrics.find? (·.name = ModelProcessor.layerName layerIdx) = some layer)
    (h : Loadable s (mappingOf mapping layerIdx) bitsPerWeight) :
    ∃ t, tc.calculateSingleLayerWeightTraffic s metrics mapping layerIdx = .ok t ∧
      ∀ share ∈ mappingOf mapping layerIdx,
        tc.weightPackets layer.numWeights bitsPerWeight share.2 ≤ packetsTo t share.1 := by
  unfold calculateSingleLayerWeightTraffic
  rw [hlayer]
  dsimp only
  by_cases hzero : layer.numWeights = 0
  · rw [if_pos hzero, hzero]
    refine ⟨.empty, rfl, fun share _ => ?_⟩
    unfold weightPackets
    rw [Nat.cast_zero, zero_mul]
    exact Nat.zero_le _
  · obtain ⟨share, hshare⟩ := List.exists_mem_of_ne_nil _ h.ne_nil
    obtain ⟨io, hio⟩ := h.route share hshare
    have hserved : s.ioChipletIds.isEmpty = false := by
      rw [List.isEmpty_eq_false_iff]
      exact List.ne_nil_of_mem (getIoChipletForCompute_mem hio)
    rw [if_neg hzero, hserved, if_neg Bool.false_ne_true]
    exact loadChiplets_spec h

/-- The packets of all chiplets of a layer together. -/
theorem weights_lt_packets {tc : TrafficCalculator} {s : System} {shares : List (ℕ × ℚ)}
    {numWeights bitsPerWeight : ℕ} (h : Loadable s shares bitsPerWeight) {t : TrafficMatrixDict}
    (ht : ∀ share ∈ shares,
      tc.weightPackets numWeights bitsPerWeight share.2 ≤ packetsTo t share.1) :
    numWeights * bitsPerWeight <
      (shares.map fun share => packetsTo t share.1).sum * tc.bitsPerPacket +
        shares.length * (bitsPerWeight + tc.bitsPerPacket) := by
  have hsplit : (shares.map fun share => numWeights * (share.2 / 100) * (bitsPerWeight : ℚ)).sum =
      numWeights * bitsPerWeight := by
    have hshare : ∀ share ∈ shares, numWeights * (share.2 / 100) * (bitsPerWeight : ℚ) =
        share.2 * (numWeights * bitsPerWeight / 100) := fun share _ => by ring
    rw [List.map_congr_left hshare, List.sum_map_mul_right, h.whole]
    ring
  have hlt : (shares.map fun share => numWeights * (share.2 / 100) * (bitsPerWeight : ℚ)).sum <
      (shares.map fun share => (packetsTo t share.1 * tc.bitsPerPacket +
        (bitsPerWeight + tc.bitsPerPacket) : ℚ)).sum := by
    refine List.sum_lt_sum_of_ne_nil h.ne_nil _ _ fun share hshare => ?_
    refine (share_lt_weightPackets tc numWeights bitsPerWeight share.2).trans_le ?_
    have hle : (tc.weightPackets numWeights bitsPerWeight share.2 : ℚ) ≤ packetsTo t share.1 := by
      exact_mod_cast ht share hshare
    exact add_le_add (mul_le_mul_of_nonneg_right hle (Nat.cast_nonneg _)) le_rfl
  have hsum : (shares.map fun share => (packetsTo t share.1 * tc.bitsPerPacket +
      (bitsPerWeight + tc.bitsPerPacket) : ℚ)).sum =
      ((shares.map fun share => packetsTo t share.1).sum * tc.bitsPerPacket +
        shares.length * (bitsPerWeight + tc.bitsPerPacket) : ℕ) := by
    rw [List.sum_map_add, List.sum_map_mul_right, List.map_const', List.sum_replicate,
      nsmul_eq_mul, Nat.cast_add, Nat.cast_mul, Nat.cast_list_sum, List.map_map]
    push_cast
    rfl
  rw [hsplit, hsum] at hlt
  exact_mod_cast hlt

/-- **Packets and bits.** The activation packets from a source to another chiplet of a receiving
layer carry the share of the source but for less than a packet and that share of a packet. The
weight packets of a layer carry its weights but for less than a packet and a weight for each
chiplet. -/
theorem traffic_carries_data (tc : TrafficCalculator) (s : System) (modelDef : ModelDef)
    (metrics : List LayerMetrics) (mapping : LayerMappings) (layerIdx : ℕ) :
    (∀ layerDef layer, layerIdx + 1 < modelDef.layers.keys.length →
      modelDef.layers.get? layerIdx = some layerDef →
      metricsOf modelDef metrics layerIdx = some layer →
      ∀ receivingLayer ∈ layerDef.receivingLayers, ∀ share ∈ mappingOf mapping layerIdx,
        ∀ target ∈ mappingOf mapping receivingLayer, share.1 ≠ target.1 →
          tc.activationBits layer * (share.2 / 100) <
            (tc.calculateActivationTraffic modelDef metrics mapping layerIdx).amount
              share.1 target.1 * tc.bitsPerPacket +
            tc.bitsPerPacket + |share.2| / 100 * tc.bitsPerPacket) ∧
    ∀ layer bitsPerWeight,
      metrics.find? (·.name = ModelProcessor.layerName layerIdx) = some layer →
      Loadable s (mappingOf mapping layerIdx) bitsPerWeight →
      ∃ t, tc.calculateSingleLayerWeightTraffic s metrics mapping layerIdx = .ok t ∧
        layer.numWeights * bitsPerWeight <
          ((mappingOf mapping layerIdx).map fun share => packetsTo t share.1).sum *
            tc.bitsPerPacket +
          (mappingOf mapping layerIdx).length * (bitsPerWeight + tc.bitsPerPacket) := by
  constructor
  · intro layerDef layer hlast hdef hlayer receivingLayer hreceiving share hshare target htarget hne
    exact activation_traffic_sufficient tc hlast hdef hlayer hreceiving hshare htarget hne
  · intro layer bitsPerWeight hlayer h
    obtain ⟨t, ht, hpackets⟩ := calculateSingleLayerWeightTraffic_spec tc hlayer h
    exact ⟨t, ht, weights_lt_packets h hpackets⟩

/-- A layer of `31` activations for a layer that would send its own output to a third one. -/
def sendingModel : ModelDef where
  layers := .ofList
    [(0, { description := .linear, parameters := {}, receivingLayers := [1] }),
      (1, { description := .linear, parameters := {}, receivingLayers := [0] })]

/-- Layers with `31` outputs and a given number of weights. -/
def sendingMetrics (numWeights : ℕ) : List LayerMetrics :=
  ["layer_0", "layer_1"].map fun name =>
    { name := name
      shape := .fc 1 31
      inputActivation := 1
      totalMacs := numWeights
      numWeights := numWeights
      crossbarsRequired := numWeights
      outputActivation := 31 }

/-- The two layers, each on one chiplet. -/
def sendingMapping : LayerMappings := [(0, [(1, 100)]), (1, [(2, 100)])]

/-- The bounds for the output of `248` bits and for the `31` weights. -/
theorem traffic_carries_data_small :
    (31 * 8 : ℚ) < (({} : TrafficCalculator).calculateActivationTraffic sendingModel
      (sendingMetrics 31) sendingMapping 0).amount 1 2 * 128 + 128 + 128 ∧
    ∃ t, ({} : TrafficCalculator).calculateSingleLayerWeightTraffic MappedModel.ioSystem
        (sendingMetrics 31) sendingMapping 0 = .ok t ∧
      31 * 8 < packetsTo t 1 * 128 + (8 + 128) := by
  obtain ⟨hactivation, hweights⟩ := traffic_carries_data {} MappedModel.ioSystem sendingModel
    (sendingMetrics 31) sendingMapping 0
  have hloadable : Loadable MappedModel.ioSystem (mappingOf sendingMapping 0) 8 := by
    have hshares : ∀ {P : ℕ × ℚ → Prop}, P (1, 100) →
        ∀ share ∈ mappingOf sendingMapping 0, P share :=
      fun hP share hshare => List.mem_singleton.mp hshare ▸ hP
    exact ⟨List.nodup_singleton _, hshares (by decide +kernel), hshares ⟨_, rfl, rfl⟩,
      hshares ⟨3, by decide +kernel⟩, by decide +kernel⟩
  constructor
  · have h := hactivation _ _ (by decide) rfl rfl 1 (by decide) (1, 100) (by decide +kernel)
      (2, 100) (by decide +kernel) (by decide)
    norm_num [activationBits] at h ⊢
    exact h
  · obtain ⟨t, ht, hlt⟩ := hweights _ 8 rfl hloadable
    refine ⟨t, ht, ?_⟩
    simpa [mappingOf, sendingMapping] using hlt

/-- One packet carries `128` bits, less than the `248` bits of the output and of the weights. A
chiplet that is listed twice gets the packets of its second share only. The last layer of a model
sends nothing. -/
theorem traffic_falls_short :
    (({} : TrafficCalculator).calculateActivationTraffic sendingModel (sendingMetrics 31)
        sendingMapping 0).amount 1 2 * 128 < 31 * 8 ∧
    (∃ t, ({} : TrafficCalculator).calculateSingleLayerWeightTraffic MappedModel.ioSystem
        (sendingMetrics 31) sendingMapping 0 = .ok t ∧ packetsTo t 1 * 128 < 31 * 8) ∧
    (∃ t, ({} : TrafficCalculator).calculateSingleLayerWeightTraffic MappedModel.ioSystem
        (sendingMetrics 640) [(0, [(1, 50), (1, 50)])] 0 = .ok t ∧
        packetsTo t 1 * 128 = 320 * 8) ∧
    (({} : TrafficCalculator).calculateActivationTraffic sendingModel (sendingMetrics 31)
        sendingMapping 1).amount 2 1 = 0 := by
  have hrun : ∀ e ∈ [(sendingMetrics 31, sendingMapping, 128),
      (sendingMetrics 640, [(0, [(1, 50), (1, 50)])], 320 * 8)],
      ((({} : TrafficCalculator).calculateSingleLayerWeightTraffic MappedModel.ioSystem
        e.1 e.2.1 0).toOption.map fun t => packetsTo t 1 * 128) = some e.2.2 := by
    decide +kernel
  obtain ⟨t, ht, hpackets⟩ := Option.map_eq_some_iff.mp (hrun _ List.mem_cons_self)
  obtain ⟨t', ht', hpackets'⟩ := Option.map_eq_some_iff.mp
    (hrun _ (List.mem_cons_of_mem _ List.mem_cons_self))
  refine ⟨by decide +kernel, ⟨t, toOption_eq_some.mp ht, ?_⟩,
    ⟨t', toOption_eq_some.mp ht', hpackets'⟩, by decide +kernel⟩
  rw [hpackets]
  decide

end TrafficCalculator

end ChipSim
