import ChipSim.Lib.Double
import ChipSim.MappedModel.Phases
import ChipSim.System

/-!
# Mapping models to chiplets

`generate_mapping` maps the layers of a model one after the other with the nearest-neighbour
mapper, on a copy of the available capacity; the system is changed only when all layers are
mapped. Each layer starts at the chiplet that holds most of the previous layer and takes chiplets
in the order of their distance from it. The shares of a layer are floats: the allocation is given
for any rounding, and is the exact one unless another is named.
-/

namespace ChipSim

open Lib Arithmetic

/-- The reasons for which a mapping can fail. -/
inductive MapFailure
  | noAvailableChiplets
  | noChipletConnections
  | insufficientMemory
  | systemUpdateFailure
deriving DecidableEq, Repr

/-- The preference dictionary of the mapper. -/
structure Preference where
  performance : ℚ := 1
  energyEfficiency : ℚ := 0
  preferredStartChipletId : Option ℕ := none
  allowedChipletIds : Option (List ℕ) := none

namespace Preference

/-- The node attribute of the first metric that is switched on. Nodes have an attribute for the
energy efficiency only; all others are `0`. -/
def metricValue (preference : Preference) (spec : ChipletSpec) : ℚ :=
  if preference.performance ≠ 0 then 0
  else if preference.energyEfficiency ≠ 0 then spec.energyPerMac
  else 0

/-- An empty or missing list of allowed chiplets allows all. -/
def allows (preference : Preference) (chipletId : ℕ) : Bool :=
  match preference.allowedChipletIds with
  | none => true
  | some [] => true
  | some (a :: as) => decide (chipletId ∈ a :: as)

end Preference

namespace ModelMapper

/-- Crossbars for a matrix of `outputs` columns of weights and `inputs` rows. -/
def crossbarsFor (spec : ChipletSpec) (outputs inputs : ℕ) : ℕ :=
  ⌈(outputs * spec.bitsPerWeight / spec.bitsPerCell / spec.crossbarColumns : ℚ)⌉.toNat *
    ⌈(inputs / spec.crossbarRows : ℚ)⌉.toNat

/-- `_calculate_layer_requirements`: weights on a CMOS chiplet, crossbars otherwise. A
one-dimensional convolution is unknown to it and requires nothing. -/
def calculateLayerRequirements (shape : LayerShape) (spec : ChipletSpec) : ℕ :=
  if spec.type = .cmos then
    match shape with
    | .conv filterSize outChannels => filterSize * outChannels
    | .fc inFeatures outFeatures => inFeatures * outFeatures
    | .selfAttention outChannels _ => outChannels * outChannels
    | .conv1d _ _ => 0
  else
    match shape with
    | .conv filterSize outChannels => crossbarsFor spec outChannels filterSize
    | .fc inFeatures outFeatures => crossbarsFor spec outFeatures inFeatures
    | .selfAttention outChannels _ => crossbarsFor spec outChannels outChannels
    | .conv1d _ _ => 0

/-! ## The order of the chiplets -/

/-- `avail_memory_list[idx]`. -/
def availMemory (s : System) (remaining : List ℤ) (chipletId : ℕ) : ℤ :=
  if s.isIoChiplet chipletId then 0
  else remaining.getD (chipletId - 1) 0 *
    ((s.chiplet? chipletId).map (·.spec.getCapacityUnitSize)).getD 0

/-- The ids of compute chiplets with capacity left, as far as they are allowed. -/
def availableChipletIds (s : System) (preference : Preference) (remaining : List ℤ) : List ℕ :=
  ((List.range remaining.length).map (· + 1)).filter fun chipletId =>
    decide (0 < remaining.getD (chipletId - 1) 0) && !s.isIoChiplet chipletId &&
      preference.allows chipletId

/-- The metric of a chiplet. -/
def metricOf (s : System) (preference : Preference) (chipletId : ℕ) : ℚ :=
  ((s.chiplet? chipletId).map fun c => preference.metricValue c.spec).getD 0

/-- The sort key of the allocation: distance, then available memory and metric descending. -/
structure SortKey where
  distance : WithTop ℕ
  memory : ℤ
  metric : ℚ

/-- Python's order of the key tuples. -/
def SortKey.le (a b : SortKey) : Prop :=
  a.distance < b.distance ∨ a.distance = b.distance ∧
    (b.memory < a.memory ∨ b.memory = a.memory ∧ b.metric ≤ a.metric)

instance : DecidableRel SortKey.le := fun a b => by
  unfold SortKey.le
  infer_instance

/-- Stable sort of chiplets by their keys. -/
def sortByKey (key : ℕ → SortKey) (ids : List ℕ) : List ℕ :=
  ids.insertionSort fun a b => (key a).le (key b)

/-- The chiplet with the largest share of the last mapped layer; the first of several. -/
def largestShare : List (ℕ × ℚ) → Except PyError ℕ
  | [] => .error (.valueError "max() arg is an empty sequence")
  | e :: es => .ok (es.foldl (fun best e => if best.2 < e.2 then e else best) e).1

/-- The chiplet a layer starts at. -/
def startingChiplet (s : System) (preference : Preference) (remaining : List ℤ)
    (layerMappings : LayerMappings) : Except PyError (Except MapFailure ℕ) :=
  match layerMappings.getLast? with
  | none =>
    let available := availableChipletIds s preference remaining
    match preference.preferredStartChipletId.filter (· ∈ available),
      sortByKey (fun i => ⟨0, availMemory s remaining i, metricOf s preference i⟩) available with
    | some preferred, _ => .ok (.ok preferred)
    | none, first :: _ => .ok (.ok first)
    | none, [] => .ok (.error .noAvailableChiplets)
  | some (_, lastMapping) => do return .ok (← largestShare lastMapping)

/-! ## Allocation -/

/-- The state of the allocation loop of one layer. -/
structure Allocation where
  remaining : List ℤ
  action : List ℚ
  resources : ℤ
  percentage : ℚ

/-- Add to one entry of a list. -/
def addAt [Arithmetic] (l : List ℚ) (idx : ℕ) (v : ℚ) : List ℚ :=
  l.set idx (fl (l.getD idx 0 + v))

/-- Units needed on a chiplet for the resources that are left. -/
def unitsNeeded [Arithmetic] (required : ℕ) (resources : ℤ) (unitsFull : ℕ) : ℤ :=
  if 0 < required then ⌈fl (resources * unitsFull / required : ℚ)⌉ else 0

/-- One pass of the allocation loop. -/
def allocate [Arithmetic] (s : System) (layer : LayerMetrics) (st : Allocation) (chipletId : ℕ) :
    Allocation :=
  if st.resources ≤ 0 then st
  else
    let idx := chipletId - 1
    let available := st.remaining.getD idx 0
    let unitsFull := ((s.chiplet? chipletId).map fun c =>
      calculateLayerRequirements layer.shape c.spec).getD 0
    if available ≤ 0 then st
    else if unitsFull = 0 then st
    else
      let needed := unitsNeeded layer.crossbarsRequired st.resources unitsFull
      if needed ≤ available then
        { remaining := st.remaining.set idx (available - needed)
          action := addAt st.action idx st.percentage
          resources := 0
          percentage := 0 }
      else
        let share := fl (available * 100 / unitsFull : ℚ)
        { remaining := st.remaining.set idx 0
          action := addAt st.action idx share
          resources := st.resources - ⌈fl (fl (share * layer.crossbarsRequired) / 100)⌉
          percentage := fl (st.percentage - share) }

/-- The chiplets in the order in which a layer that starts at `start` takes them. -/
def allocationOrder (s : System) (preference : Preference) (remaining : List ℤ) (start : ℕ) :
    List ℕ :=
  sortByKey (fun i => ⟨(s.shortestPathLength start i).elim ⊤ (fun d => (d : WithTop ℕ)),
      availMemory s remaining i, metricOf s preference i⟩)
    (availableChipletIds s preference remaining)

/-- `_nearest_neighbor_mapper_v3`: the capacity that remains and the share of every chiplet. -/
def nearestNeighborMapperV3 [Arithmetic] (s : System) (preference : Preference)
    (layer : LayerMetrics) (remaining : List ℤ) (layerMappings : LayerMappings) :
    Except PyError (Except MapFailure (List ℤ × List ℚ)) := do
  match ← startingChiplet s preference remaining layerMappings with
  | .error reason => return .error reason
  | .ok start =>
    -- every node of the network has a distance to itself
    if ¬ (1 ≤ start ∧ start ≤ s.numChiplets) ∧ 1 < s.numChiplets then
      return .error .noChipletConnections
    else
      let st := (allocationOrder s preference remaining start).foldl (allocate s layer)
        { remaining := remaining
          action := List.replicate s.numChiplets 0
          resources := layer.crossbarsRequired
          percentage := 100 }
      if 0 < st.resources - 10 then return .error .insufficientMemory
      else return .ok (st.remaining, st.action)

/-- `[(i + 1, pct) for i, pct in enumerate(action) if pct > 0]`. -/
def positiveShares (action : List ℚ) : List (ℕ × ℚ) :=
  (action.zipIdx.map fun e => (e.2 + 1, e.1)).filter fun e => decide (0 < e.2)

/-- The capacity the mapper starts from: I/O chiplets are never mapped to. -/
def mappableCapacity (s : System) : List ℤ :=
  s.getAvailableCapacityPerChiplet.zipIdx.map fun e => if s.isIoChiplet (e.2 + 1) then 0 else e.1

/-- The loop over the layers. -/
def mapLayers [Arithmetic] (s : System) (preference : Preference) (metrics : List LayerMetrics) :
    Except PyError (Except MapFailure (List ℤ × LayerMappings)) :=
  metrics.zipIdx.foldlM (fun acc e =>
    match acc with
    | .error reason => .ok (.error reason)
    | .ok (remaining, mappings) => do
      match ← nearestNeighborMapperV3 s preference e.1 remaining mappings with
      | .error reason => return .error reason
      | .ok (remaining', action) =>
        return .ok (remaining', mappings ++ [(e.2, positiveShares action)]))
    (.ok (mappableCapacity s, []))

/-- `generate_mapping`: the system afterwards, and the mapping with the capacity it uses. -/
def generateMapping [Arithmetic] (s : System) (preference : Preference)
    (metrics : List LayerMetrics) :
    Except PyError (System × Except MapFailure (LayerMappings × List ℤ)) := do
  match ← mapLayers s preference metrics with
  | .error reason => return (s, .error reason)
  | .ok (remaining, mappings) =>
    let used := List.zipWith (· - ·) s.getAvailableCapacityPerChiplet remaining
    let r ← s.updateCapacityAvailability remaining
    if r.2 then return (r.1, .ok (mappings, used))
    else return (r.1, .error .systemUpdateFailure)

end ModelMapper

end ChipSim
