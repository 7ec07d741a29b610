import ChipSim.MappedModel.Timing
import ChipSim.System

/-!
# Traffic of the communication phases

The traffic calculator turns the mapping of a model into packets between chiplets: activations
from the chiplets of a layer to those of its receiving layers, and weights from the closest I/O
chiplet to the chiplets of the layers to be loaded.
-/

namespace ChipSim

open Lib

/-- The parameters of the traffic calculator. -/
structure TrafficCalculator where
  bitsPerActivation : ℕ := 8
  bitsPerPacket : ℕ := 128
  bitsPerPacket_pos : 0 < bitsPerPacket := by decide

namespace TrafficCalculator

/-- The chiplets of a layer; a missing layer has none. -/
def mappingOf (mapping : LayerMappings) (layerIdx : ℤ) : List (ℕ × ℚ) :=
  ((mapping.find? fun e => (e.1 : ℤ) = layerIdx).map Prod.snd).getD []

/-- An entry for the source, empty if there was none. -/
def ensureSource (t : TrafficMatrixDict) (src : ℕ) : TrafficMatrixDict :=
  if src ∈ t then t else t.set src .empty

/-- Add packets to one connection. -/
def addPackets (t : TrafficMatrixDict) (src dst amount : ℕ) : TrafficMatrixDict :=
  t.set2 src dst ((t.get2? src dst).getD 0 + amount)

/-- Packets from the share of one chiplet, at least one, to another chiplet. -/
def sendActivations (totalPackets : ℕ) (share : ℕ × ℚ) (t : TrafficMatrixDict) (dst : ℕ × ℚ) :
    TrafficMatrixDict :=
  if share.1 ≠ dst.1 then
    addPackets t share.1 dst.1 (max 1 (truncate (totalPackets * (share.2 / 100))).toNat)
  else t

/-- The packets from all chiplets of a layer to those of one receiving layer. -/
def sendToLayer (totalPackets : ℕ) (current : List (ℕ × ℚ)) (mapping : LayerMappings)
    (t : TrafficMatrixDict) (receivingLayer : ℤ) : TrafficMatrixDict :=
  let receiving := mappingOf mapping receivingLayer
  if receiving.isEmpty then t
  else current.foldl (fun t share =>
    receiving.foldl (sendActivations totalPackets share) (ensureSource t share.1)) t

/-- `calculate_activation_traffic`. -/
def calculateActivationTraffic (tc : TrafficCalculator) (modelDef : ModelDef)
    (metrics : List LayerMetrics) (mapping : LayerMappings) (layerIdx : ℕ) : TrafficMatrixDict :=
  if modelDef.layers.keys.length ≤ layerIdx + 1 then .empty
  else
    match modelDef.layers.get? layerIdx with
    | none => .empty
    | some layerDef =>
      if layerDef.receivingLayers = [] ∨ layerDef.receivingLayers = [-1] then .empty
      else
        let name := layerDef.name.getD (ModelProcessor.layerName layerIdx)
        match metrics.find? (·.name = name) with
        | none => .empty
        | some layer =>
          let totalPackets := max 1 (layer.outputActivation * tc.bitsPerActivation /
            tc.bitsPerPacket)
          let current := mappingOf mapping layerIdx
          if current.isEmpty then .empty
          else layerDef.receivingLayers.foldl (sendToLayer totalPackets current mapping) .empty

/-- The weights of a layer for one chiplet, from the I/O chiplet that serves it. -/
def loadChiplet (tc : TrafficCalculator) (s : System) (layerIdx numWeights : ℕ)
    (t : TrafficMatrixDict) (share : ℕ × ℚ) : Except PyError TrafficMatrixDict :=
  let chipletId := share.1
  if s.isIoChiplet chipletId then
    .error (.valueError
      (s!"ERROR: I/O chiplet {chipletId} found in layer mapping for layer {layerIdx}. " ++
        "This should not occur. Please check the network mapping logic."))
  else
    match s.chiplet? chipletId with
    | none => .ok t
    | some chiplet =>
      let weights := truncate (numWeights * (share.2 / 100))
      if weights = 0 then .ok t
      else
        match s.getIoChipletForCompute chipletId with
        | none => .ok t
        | some io => .ok (t.set2 io chipletId
            (max 1 (weights * chiplet.spec.bitsPerWeight / tc.bitsPerPacket)).toNat)

/-- `_calculate_single_layer_weight_traffic`. -/
def calculateSingleLayerWeightTraffic (tc : TrafficCalculator) (s : System)
    (metrics : List LayerMetrics) (mapping : LayerMappings) (layerIdx : ℕ) :
    Except PyError TrafficMatrixDict :=
  match metrics.find? (·.name = ModelProcessor.layerName layerIdx) with
  | none => .ok .empty
  | some layer =>
    if layer.numWeights = 0 then .ok .empty
    else if s.ioChipletIds.isEmpty then .ok .empty
    else (mappingOf mapping layerIdx).foldlM (loadChiplet tc s layerIdx layer.numWeights) .empty

/-- Merge the traffic of one layer into the combined traffic. -/
def mergeTraffic (t layer : TrafficMatrixDict) : TrafficMatrixDict :=
  layer.entries.foldl (fun t e =>
    e.2.entries.foldl (fun t f => addPackets t e.1 f.1 f.2) (ensureSource t e.1)) t

/-- `calculate_weight_loading_traffic`. -/
def calculateWeightLoadingTraffic (tc : TrafficCalculator) (s : System)
    (metrics : List LayerMetrics) (mapping : LayerMappings) (layersToLoad : List ℕ) :
    Except PyError TrafficMatrixDict :=
  match layersToLoad with
  | [] => .ok .empty
  | [layerIdx] => tc.calculateSingleLayerWeightTraffic s metrics mapping layerIdx
  | layers => layers.foldlM (fun t layerIdx => do
      let layer ← tc.calculateSingleLayerWeightTraffic s metrics mapping layerIdx
      return mergeTraffic t layer) .empty

/-- The traffic calculator as a mapped model sees it. -/
def source (tc : TrafficCalculator) (s : System) : MappedModel.TrafficSource where
  activation modelDef metrics mapping layerIdx :=
    .ok (tc.calculateActivationTraffic modelDef metrics mapping layerIdx)
  weightLoading := tc.calculateWeightLoadingTraffic s

/-! ## Chiplet ids -/

/-- All sources and destinations are chiplets of a system of `n` chiplets. -/
def ValidIds (n : ℕ) (t : TrafficMatrixDict) : Prop :=
  ∀ src dests, t.get? src = some dests → (1 ≤ src ∧ src ≤ n) ∧ ∀ dst ∈ dests, 1 ≤ dst ∧ dst ≤ n

/-- All chiplets of a mapping belong to a system of `n` chiplets. -/
def ValidMapping (n : ℕ) (mapping : LayerMappings) : Prop :=
  ∀ e ∈ mapping, ∀ share ∈ e.2, 1 ≤ share.1 ∧ share.1 ≤ n

section

variable {n : ℕ} {t : TrafficMatrixDict}

theorem validIds_empty : ValidIds n .empty := by
  intro src dests h
  simp at h

theorem ValidIds.ensureSource (h : ValidIds n t) {src : ℕ} (hsrc : 1 ≤ src ∧ src ≤ n) :
    ValidIds n (ensureSource t src) := by
  unfold TrafficCalculator.ensureSource
  split
  · exact h
  · intro src' dests hget
    rw [Dict.get?_set] at hget
    by_cases heq : src' = src
    · rw [if_pos heq, Option.some.injEq] at hget
      subst heq hget
      exact ⟨hsrc, fun dst hdst => by simp [Dict.mem_iff] at hdst⟩
    · rw [if_neg heq] at hget
      exact h src' dests hget

theorem ValidIds.set2 (h : ValidIds n t) {src dst amount : ℕ} (hsrc : 1 ≤ src ∧ src ≤ n)
    (hdst : 1 ≤ dst ∧ dst ≤ n) : ValidIds n (t.set2 src dst amount) := by
  intro src' dests hget
  unfold Dict.set2 at hget
  rw [Dict.get?_set] at hget
  by_cases heq : src' = src
  · rw [if_pos heq, Option.some.injEq] at hget
    subst heq hget
    refine ⟨hsrc, fun d hd => ?_⟩
    rcases Dict.mem_set.mp hd with rfl | hd
    · exact hdst
    · unfold Dict.getD at hd
      cases ht : t.get? src' with
      | none => rw [ht] at hd; simp [Dict.mem_iff] at hd
      | some old => rw [ht] at hd; exact (h src' old ht).2 d hd
  · rw [if_neg heq] at hget
    exact h src' dests hget

theorem ValidMapping.mappingOf {mapping : LayerMappings} (h : ValidMapping n mapping)
    (layerIdx : ℤ) : ∀ share ∈ mappingOf mapping layerIdx, 1 ≤ share.1 ∧ share.1 ≤ n := by
  unfold TrafficCalculator.mappingOf
  intro share hshare
  cases hfind : mapping.find? fun e => (e.1 : ℤ) = layerIdx with
  | none => rw [hfind] at hshare; simp at hshare
  | some e =>
    rw [hfind] at hshare
    exact h e (List.mem_of_find?_eq_some hfind) share hshare

theorem ValidIds.sendToLayer (h : ValidIds n t) {mapping : LayerMappings}
    (hmap : ValidMapping n mapping) {totalPackets : ℕ} {current : List (ℕ × ℚ)}
    (hcur : ∀ share ∈ current, 1 ≤ share.1 ∧ share.1 ≤ n) (receivingLayer : ℤ) :
    ValidIds n (sendToLayer totalPackets current mapping t receivingLayer) := by
  unfold TrafficCalculator.sendToLayer
  dsimp only
  split
  · exact h
  · refine List.foldlRecOn (motive := ValidIds n) _ _ h fun t ht share hshare => ?_
    refine List.foldlRecOn (motive := ValidIds n) _ _ (ht.ensureSource (hcur share hshare))
      fun t ht dst hdst => ?_
    unfold sendActivations
    split
    · exact ht.set2 (hcur share hshare) (hmap.mappingOf receivingLayer dst hdst)
    · exact ht

theorem ValidIds.mergeTraffic {layer : TrafficMatrixDict} (h : ValidIds n t)
    (hlayer : ValidIds n layer) : ValidIds n (mergeTraffic t layer) := by
  refine List.foldlRecOn (motive := ValidIds n) _ _ h fun t ht e he => ?_
  obtain ⟨hsrc, hdests⟩ := hlayer e.1 e.2 (Dict.mem_entries_iff.mp he)
  refine List.foldlRecOn (motive := ValidIds n) _ _ (ht.ensureSource hsrc) fun t ht f hf => ?_
  exact ht.set2 hsrc (hdests f.1 (Dict.mem_of_get? (Dict.mem_entries_iff.mp hf)))

end

/-- Activations are sent between chiplets of the system. -/
theorem validIds_activation (tc : TrafficCalculator) {n : ℕ} (modelDef : ModelDef)
    (metrics : List LayerMetrics) {mapping : LayerMappings} (hmap : ValidMapping n mapping)
    (layerIdx : ℕ) :
    ValidIds n (tc.calculateActivationTraffic modelDef metrics mapping layerIdx) := by
  unfold calculateActivationTraffic
  split
  · exact validIds_empty
  · split
    · exact validIds_empty
    · split
      · exact validIds_empty
      · dsimp only
        split
        · exact validIds_empty
        · split
          · exact validIds_empty
          · exact List.foldlRecOn (motive := ValidIds n) _ _ validIds_empty
              fun t ht receivingLayer _ => ht.sendToLayer hmap (hmap.mappingOf layerIdx) _

theorem mem_ioChipletIds {s : System} {chipletId : ℕ} (h : chipletId ∈ s.ioChipletIds) :
    1 ≤ chipletId ∧ chipletId ≤ s.numChiplets := by
  obtain ⟨hrange, -⟩ := List.mem_filter.mp h
  obtain ⟨i, hi, rfl⟩ := List.mem_map.mp hrange
  have := List.mem_range.mp hi
  omega

theorem getIoChipletForCompute_mem {s : System} {chipletId io : ℕ}
    (h : s.getIoChipletForCompute chipletId = some io) : io ∈ s.ioChipletIds := by
  unfold System.getIoChipletForCompute at h
  obtain ⟨⟨id, distance⟩, hbest, rfl⟩ := Option.map_eq_some_iff.mp h
  refine List.foldlRecOn
    (motive := fun best : Option (ℕ × ℕ) => ∀ b, best = some b → b.1 ∈ s.ioChipletIds)
    _ _ (fun b hb => by cases hb) (fun best hbest ioId hio => ?_) _ hbest
  intro b hb
  split at hb
  · exact hbest b hb
  · split at hb
    · cases hb; exact hio
    · split at hb
      · cases hb; exact hio
      · exact hbest b hb

/-- Weights are sent from I/O chiplets to chiplets of the mapping. -/
theorem validIds_singleLayer {tc : TrafficCalculator} {s : System} {metrics : List LayerMetrics}
    {mapping : LayerMappings} (hmap : ValidMapping s.numChiplets mapping) {layerIdx : ℕ}
    {t : TrafficMatrixDict}
    (h : tc.calculateSingleLayerWeightTraffic s metrics mapping layerIdx = .ok t) :
    ValidIds s.numChiplets t := by
  unfold calculateSingleLayerWeightTraffic at h
  split at h
  · cases h; exact validIds_empty
  · split at h
    · cases h; exact validIds_empty
    · split at h
      · cases h; exact validIds_empty
      · refine foldlM_invariant (ValidIds s.numChiplets) h validIds_empty ?_
        intro share hshare t t' ht hstep
        unfold loadChiplet at hstep
        dsimp only at hstep
        split at hstep
        · cases hstep
        · split at hstep
          · cases hstep; exact ht
          · split at hstep
            · cases hstep; exact ht
            · split at hstep
              · cases hstep; exact ht
              · next io hio =>
                cases hstep
                exact ht.set2 (mem_ioChipletIds (getIoChipletForCompute_mem hio))
                  (hmap.mappingOf layerIdx share hshare)

theorem validIds_weightLoading {tc : TrafficCalculator} {s : System} {metrics : List LayerMetrics}
    {mapping : LayerMappings} (hmap : ValidMapping s.numChiplets mapping) {layersToLoad : List ℕ}
    {t : TrafficMatrixDict}
    (h : tc.calculateWeightLoadingTraffic s metrics mapping layersToLoad = .ok t) :
    ValidIds s.numChiplets t := by
  unfold calculateWeightLoadingTraffic at h
  split at h
  · cases h; exact validIds_empty
  · exact validIds_singleLayer hmap h
  · refine foldlM_invariant (ValidIds s.numChiplets) h validIds_empty ?_
    intro layerIdx _ t t' ht hstep
    obtain ⟨layer, hlayer, hmerge⟩ := bind_eq_ok.mp hstep
    cases hmerge
    exact ht.mergeTraffic (validIds_singleLayer hmap hlayer)

end TrafficCalculator

end ChipSim
