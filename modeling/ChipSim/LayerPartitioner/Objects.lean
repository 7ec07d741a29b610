import ChipSim.LayerPartitioner.Rounding

/-!
# Partitioning layer objects

The partitioner works on dictionaries that are shared by reference: it copies the layer dictionary
and its parameters for every chunk and then changes the copies in place. Here the dictionaries are
objects with a number; the partition of values is what the objects hold in the end, and no object
that was there before is changed.
-/

namespace ChipSim

open Lib

/-- A layer dictionary. Its parameters are an object of their own, given by its number. -/
structure LayerObject where
  description : LayerDescription
  parameters : ℕ
  receivingLayers : List ℤ := []
  name : Option String := none
  percentage : Option ℚ := none
  totalMacs : Option ℚ := none
deriving DecidableEq

instance : Inhabited LayerObject := ⟨{ description := .other "", parameters := 0 }⟩

/-- All dictionaries of layers and of layer parameters. -/
structure Objects where
  layers : List LayerObject
  parameters : List (Dict String ℤ)

namespace Objects

variable (o : Objects)

/-- Follow a reference to a layer dictionary. -/
def layer (ref : ℕ) : LayerObject := o.layers.getD ref default

/-- Follow a reference to parameters. -/
def params (ref : ℕ) : Dict String ℤ := o.parameters.getD ref .empty

/-- `layer_def.copy()`: the copy has the same parameters object. -/
def copyLayer (ref : ℕ) : Objects × ℕ :=
  ({ o with layers := o.layers ++ [o.layer ref] }, o.layers.length)

/-- `params.copy()`. -/
def copyParams (ref : ℕ) : Objects × ℕ :=
  ({ o with parameters := o.parameters ++ [o.params ref] }, o.parameters.length)

/-- Change a layer dictionary. -/
def writeLayer (ref : ℕ) (f : LayerObject → LayerObject) : Objects :=
  { o with layers := o.layers.modify ref f }

/-- `params[key] = value`. -/
def writeParams (ref : ℕ) (key : String) (value : ℤ) : Objects :=
  { o with parameters := o.parameters.modify ref fun d => d.set key value }

/-- The output channels of a chunk, which are always present. -/
def chunkChannels (chunk : ℕ × ℕ) : ℤ :=
  (o.params (o.layer chunk.2).parameters).getD "output_channels" 0

/-- `network_chunks[idx][1]['parameters'][param_key] = value`. -/
def writeChannels (chunks : List (ℕ × ℕ)) (idx : ℕ) (value : ℤ) : Objects :=
  match chunks[idx]? with
  | none => o
  | some chunk => o.writeParams (o.layer chunk.2).parameters "output_channels" value

end Objects

namespace LayerPartitioner

/-- The body of the loop over the chiplets: a copy for the chunk of one chiplet. -/
def cutLayerObject (layerDef params : ℕ) (acc : Objects × List (ℕ × ℕ)) (share : ℕ × ℚ) :
    Objects × List (ℕ × ℕ) :=
  let original := acc.1.layer layerDef
  let (o, partitionedLayer) := acc.1.copyLayer layerDef
  let (o, partitionedParams) := o.copyParams params
  let base := original.name.getD (descriptionText original.description)
  let chipletId := share.1
  let o := o.writeLayer partitionedLayer fun l =>
    { l with
      parameters := partitionedParams
      name := some s!"{base}_chiplet{chipletId}"
      percentage := some share.2
      totalMacs := original.totalMacs.map fun macs => macs * (share.2 / 100) }
  let originalOutChannels := (o.params params).getD "output_channels" 1
  let o := o.writeParams partitionedParams "output_channels"
    (max 1 (roundHalfEven (originalOutChannels * share.2 / 100)))
  (o, acc.2 ++ [(share.1, partitionedLayer)])

/-- The loop of `_distribute_remaining_difference`, on the objects. -/
def reduceChunkObject (chunks : List (ℕ × ℕ)) (acc : Objects × ℤ) (e : (ℕ × ℕ) × ℕ) :
    Objects × ℤ :=
  let canReduce := min (acc.1.chunkChannels e.1 - 1) |acc.2|
  if acc.2 ≠ 0 ∧ 0 < canReduce then
    (acc.1.writeChannels chunks e.2 (acc.1.chunkChannels e.1 - canReduce), acc.2 + canReduce)
  else acc

/-- `_distribute_remaining_difference`, on the objects. -/
def distributeRemainingDifferenceObjects (o : Objects) (chunks : List (ℕ × ℕ)) (excluded : ℕ)
    (remaining : ℤ) : Objects :=
  let order := (chunks.zipIdx.filter (·.2 ≠ excluded)).insertionSort fun a b =>
    o.chunkChannels b.1 ≤ o.chunkChannels a.1
  (order.foldl (reduceChunkObject chunks) (o, remaining)).1

/-- `_adjust_for_rounding_errors`, on the objects. -/
def adjustForRoundingErrorsObjects (originalValue : ℤ) (o : Objects) (chunks : List (ℕ × ℕ)) :
    Objects :=
  let channels := chunks.map o.chunkChannels
  let difference := originalValue - channels.sum
  if difference = 0 then o
  else if 0 < difference then
    match smallestChunk channels with
    | none => o
    | some (idx, value) => o.writeChannels chunks idx (value + difference)
  else
    match largestChunk channels with
    | none => o
    | some (idx, value) =>
      let newValue := max 1 (value + difference)
      let o := o.writeChannels chunks idx newValue
      let remaining := difference - (newValue - value)
      if remaining < 0 then distributeRemainingDifferenceObjects o chunks idx remaining else o

/-- `partition_layer`, on the objects: the objects afterwards, and a chunk for every chiplet. -/
def partitionLayerObjects (o : Objects) (layerDef : ℕ) (shares : List (ℕ × ℚ)) :
    Objects × List (ℕ × ℕ) :=
  let params := (o.layer layerDef).parameters
  let cut := shares.foldl (cutLayerObject layerDef params) (o, [])
  let original := (cut.1.params params).getD "output_channels" 1
  (adjustForRoundingErrorsObjects original cut.1 cut.2, cut.2)

/-! ## The objects of a partition -/

section Layout

variable {o : Objects} {object : LayerObject} {params : Dict String ℤ}
  {chunks : List (ℕ × PartitionedLayer)}

/-- The layer dictionary of a chunk. -/
def chunkObject (object : LayerObject) (ref : ℕ) (c : PartitionedLayer) : LayerObject :=
  { object with
    parameters := ref
    name := some c.name
    percentage := some c.percentage
    totalMacs := c.totalMacs }

/-- Objects extended by those of the chunks of a layer. -/
def withChunks (o : Objects) (object : LayerObject) (params : Dict String ℤ)
    (chunks : List (ℕ × PartitionedLayer)) : Objects where
  layers := o.layers ++ chunks.mapIdx fun i c => chunkObject object (o.parameters.length + i) c.2
  parameters := o.parameters ++
    chunks.map fun c => params.set "output_channels" c.2.outputChannels

/-- The references to the chunks. -/
def chunkRefs (o : Objects) (chunks : List (ℕ × PartitionedLayer)) : List (ℕ × ℕ) :=
  chunks.mapIdx fun i c => (c.1, o.layers.length + i)

theorem withChunks_layer {i : ℕ} {c : ℕ × PartitionedLayer} (h : chunks[i]? = some c) :
    (withChunks o object params chunks).layer (o.layers.length + i) =
      chunkObject object (o.parameters.length + i) c.2 := by
  simp [withChunks, Objects.layer, List.getD_eq_getElem?_getD, List.getElem?_append_right, h]

theorem withChunks_chunkChannels {i : ℕ} {c : ℕ × PartitionedLayer} (h : chunks[i]? = some c)
    (chipletId : ℕ) :
    (withChunks o object params chunks).chunkChannels (chipletId, o.layers.length + i) =
      c.2.outputChannels := by
  unfold Objects.chunkChannels
  rw [withChunks_layer h]
  simp [withChunks, chunkObject, Objects.params, List.getD_eq_getElem?_getD,
    List.getElem?_append_right, h, Dict.getD]

theorem map_chunkChannels (o : Objects) (object : LayerObject) (params : Dict String ℤ)
    (chunks : List (ℕ × PartitionedLayer)) :
    (chunkRefs o chunks).map (withChunks o object params chunks).chunkChannels =
      channels chunks := by
  refine List.ext_getElem? fun i => ?_
  unfold chunkRefs channels
  rw [List.getElem?_map, List.getElem?_mapIdx, List.getElem?_map]
  cases h : chunks[i]? with
  | none => rfl
  | some c =>
    simp only [Option.map_some]
    rw [withChunks_chunkChannels h]

/-- What does not depend on the channels is left as it is. -/
theorem mapIdx_setChannels {α : Type} {f : ℕ → ℕ × PartitionedLayer → α} (idx : ℕ) (v : ℤ)
    (hf : ∀ i c, f i (c.1, { c.2 with outputChannels := v }) = f i c) :
    (setChannels chunks idx v).mapIdx f = chunks.mapIdx f := by
  refine List.ext_getElem? fun i => ?_
  unfold setChannels
  rw [List.getElem?_mapIdx, List.getElem?_mapIdx, List.getElem?_modify]
  cases chunks[i]? with
  | none => rfl
  | some c =>
    by_cases h : idx = i
    · simp [h, hf]
    · simp [h]

theorem chunkRefs_setChannels (o : Objects) (chunks : List (ℕ × PartitionedLayer)) (idx : ℕ)
    (v : ℤ) :
    chunkRefs o (setChannels chunks idx v) = chunkRefs o chunks :=
  mapIdx_setChannels idx v fun _ _ => rfl

theorem map_set_setChannels (idx : ℕ) (v : ℤ) :
    ((setChannels chunks idx v).map fun c => params.set "output_channels" c.2.outputChannels) =
      (chunks.map fun c => params.set "output_channels" c.2.outputChannels).modify idx
        fun d => d.set "output_channels" v := by
  refine List.ext_getElem? fun i => ?_
  unfold setChannels
  rw [List.getElem?_map, List.getElem?_modify, List.getElem?_modify, List.getElem?_map]
  cases chunks[i]? with
  | none => rfl
  | some c =>
    by_cases h : idx = i
    · simp [h, Dict.set_set]
    · simp [h]

theorem chunkRefs_getElem? {i : ℕ} {c : ℕ × PartitionedLayer} (h : chunks[i]? = some c) :
    (chunkRefs o chunks)[i]? = some (c.1, o.layers.length + i) := by
  simp [chunkRefs, h]

/-- **Writing.** The channels of one chunk are changed, and nothing else. -/
theorem writeChannels_withChunks (idx : ℕ) (v : ℤ) :
    (withChunks o object params chunks).writeChannels (chunkRefs o chunks) idx v =
      withChunks o object params (setChannels chunks idx v) := by
  unfold Objects.writeChannels
  cases h : chunks[idx]? with
  | none =>
    have hnone : (chunkRefs o chunks)[idx]? = none := by simp [chunkRefs, h]
    have hset : setChannels chunks idx v = chunks :=
      List.modify_eq_self (List.getElem?_eq_none_iff.mp h)
    rw [hnone, hset]
  | some c =>
    rw [chunkRefs_getElem? h]
    dsimp only
    rw [withChunks_layer h]
    unfold Objects.writeParams withChunks
    rw [map_set_setChannels, mapIdx_setChannels idx v fun _ _ => rfl]
    congr 1
    exact modify_append_right _ _ idx _

end Layout

/-! ## Refinement -/

section Refinement

variable {o : Objects} {layerDef : ℕ} {object : LayerObject} {params : Dict String ℤ}
  {chunks : List (ℕ × PartitionedLayer)}

/-- The layer definition that an object stands for. -/
def layerDefOf (object : LayerObject) (params : Dict String ℤ) : LayerDef where
  description := object.description
  parameters := { outputChannels := (params.get? "output_channels").map Int.toNat }
  receivingLayers := object.receivingLayers
  name := object.name

theorem outputChannels_layerDefOf (h : 1 ≤ params.getD "output_channels" 1) :
    (((layerDefOf object params).parameters.outputChannels.getD 1 : ℕ) : ℤ) =
      params.getD "output_channels" 1 := by
  unfold layerDefOf Dict.getD at *
  cases hget : params.get? "output_channels" with
  | none => rfl
  | some v =>
    rw [hget, Option.getD_some] at h
    simp only [Option.map_some, Option.getD_some]
    omega

theorem withChunks_layer_old (h : o.layers[layerDef]? = some object) :
    (withChunks o object params chunks).layer layerDef = object := by
  have hlt := (List.getElem?_eq_some_iff.mp h).1
  unfold withChunks Objects.layer
  rw [List.getD_eq_getElem?_getD, List.getElem?_append_left hlt, h, Option.getD_some]

theorem withChunks_params_old (h : o.parameters[object.parameters]? = some params) :
    (withChunks o object params chunks).params object.parameters = params := by
  have hlt := (List.getElem?_eq_some_iff.mp h).1
  unfold withChunks Objects.params
  rw [List.getD_eq_getElem?_getD, List.getElem?_append_left hlt, h, Option.getD_some]

/-- The layer definition, its object and parameters. -/
structure Defined (o : Objects) (layerDef : ℕ) (object : LayerObject) (params : Dict String ℤ)
    (macs : Option ℕ) : Prop where
  one_le : 1 ≤ params.getD "output_channels" 1
  layer : o.layers[layerDef]? = some object
  macs : object.totalMacs = macs.map fun n => (n : ℚ)
  params : o.parameters[object.parameters]? = some params

variable {macs : Option ℕ}

/-- **Cutting.** The objects of one more chunk are added. -/
theorem cutLayerObject_withChunks (share : ℕ × ℚ) (h : Defined o layerDef object params macs) :
    cutLayerObject layerDef object.parameters
        (withChunks o object params chunks, chunkRefs o chunks) share =
      (withChunks o object params (chunks ++ [cutLayer (layerDefOf object params) macs share]),
        chunkRefs o (chunks ++ [cutLayer (layerDefOf object params) macs share])) := by
  have hout : (((layerDefOf object params).parameters.outputChannels.getD 1 : ℕ) : ℚ) =
      (params.getD "output_channels" 1 : ℤ) := by
    rw [← outputChannels_layerDefOf h.one_le]
    rfl
  have hread : ((withChunks o object params chunks).parameters ++ [params]).getD
      object.parameters .empty = params := by
    have hlt := (List.getElem?_eq_some_iff.mp h.params).1
    rw [List.getD_append _ _ _ _ (by simp only [withChunks, List.length_append]; omega)]
    exact withChunks_params_old h.params
  unfold cutLayerObject
  simp only [Objects.copyLayer, Objects.copyParams, Objects.writeLayer, Objects.writeParams,
    withChunks_layer_old h.layer]
  have hold : Objects.params
      ⟨(withChunks o object params chunks).layers ++ [object],
        (withChunks o object params chunks).parameters⟩ object.parameters = params :=
    withChunks_params_old h.params
  rw [hold]
  simp only [Objects.params, hread]
  have hlayers : ∀ (l : List LayerObject) f, (l ++ [object]).modify l.length f = l ++ [f object] :=
    fun l f => modify_append_right l [object] 0 f
  have hparameters : ∀ (l : List (Dict String ℤ)) f,
      (l ++ [params]).modify l.length f = l ++ [f params] :=
    fun l f => modify_append_right l [params] 0 f
  rw [hlayers, hparameters]
  unfold withChunks chunkRefs
  simp only [List.mapIdx_append, List.map_append, List.mapIdx_cons, List.mapIdx_nil,
    List.map_cons, List.map_nil, List.append_assoc, List.length_append, List.length_mapIdx,
    List.length_map, Nat.zero_add]
  unfold cutLayer chunkObject
  dsimp only
  rw [hout, h.macs]
  cases macs <;> rfl

theorem foldl_cutLayerObject (shares : List (ℕ × ℚ)) (h : Defined o layerDef object params macs) :
    shares.foldl (cutLayerObject layerDef object.parameters)
        (withChunks o object params chunks, chunkRefs o chunks) =
      (withChunks o object params (chunks ++ shares.map (cutLayer (layerDefOf object params) macs)),
        chunkRefs o (chunks ++ shares.map (cutLayer (layerDefOf object params) macs))) := by
  induction shares generalizing chunks with
  | nil => rw [List.map_nil, List.append_nil, List.foldl_nil]
  | cons share shares ih =>
    rw [List.foldl_cons, cutLayerObject_withChunks share h, ih,
      List.append_assoc, List.map_cons]
    rfl

/-- The sorted chunks are the same, as objects and as values. -/
theorem map_otherChunks (o : Objects) (object : LayerObject) (params : Dict String ℤ)
    (chunks : List (ℕ × PartitionedLayer)) (excluded : ℕ) :
    (((chunkRefs o chunks).zipIdx.filter (·.2 ≠ excluded)).insertionSort fun a b =>
        (withChunks o object params chunks).chunkChannels b.1 ≤
          (withChunks o object params chunks).chunkChannels a.1).map
      (fun e => (e.2, (withChunks o object params chunks).chunkChannels e.1)) =
      otherChunks chunks excluded := by
  have hzip : (chunkRefs o chunks).zipIdx =
      chunks.zipIdx.map fun e => ((e.1.1, o.layers.length + e.2), e.2) := by
    refine List.ext_getElem? fun i => ?_
    unfold chunkRefs
    rw [List.getElem?_zipIdx, List.getElem?_mapIdx, List.getElem?_map, List.getElem?_zipIdx]
    cases chunks[i]? with
    | none => rfl
    | some c => simp
  unfold otherChunks
  rw [List.map_insertionSort _ (fun a b : ℕ × ℤ => b.2 ≤ a.2) _ _ fun _ _ _ _ => Iff.rfl, hzip,
    List.filter_map, List.filter_map, List.map_map]
  congr 1
  refine List.map_congr_left fun e he => ?_
  have hget := List.mem_zipIdx_iff_getElem?.mp (List.mem_filter.mp he).1
  exact congrArg (Prod.mk e.2) (withChunks_chunkChannels hget e.1.1)

/-- **Taking away.** The loop over the other chunks does the same to objects and to values. -/
theorem foldl_reduceChunkObject {ids : List ℕ} {total : ℤ} {entries : List ((ℕ × ℕ) × ℕ)}
    {values : (ℕ × ℕ) × ℕ → ℤ} {remaining : ℤ}
    (h : Reducing ids total (entries.map fun e => (e.2, values e)) (chunks, remaining))
    (hnodup : ((entries.map fun e => (e.2, values e)).map Prod.fst).Nodup)
    (hrefs : ∀ e ∈ entries, (chunkRefs o chunks)[e.2]? = some e.1) :
    (entries.foldl (reduceChunkObject (chunkRefs o chunks))
        (withChunks o object params chunks, remaining)).1 =
      withChunks o object params
        ((entries.map fun e => (e.2, values e)).foldl reduceChunk (chunks, remaining)).1 := by
  induction entries generalizing chunks remaining with
  | nil => rfl
  | cons e entries ih =>
    rw [List.map_cons] at h hnodup
    rw [List.map_cons, List.nodup_cons] at hnodup
    have hstep := h.step fun e' he' heq => hnodup.1 (heq ▸ List.mem_map_of_mem he')
    have hvalue : (withChunks o object params chunks).chunkChannels e.1 = values e := by
      have hread : (channels chunks)[e.2]? = some (values e) := h.untouched _ List.mem_cons_self
      rw [← map_chunkChannels o object params, List.getElem?_map,
        hrefs e List.mem_cons_self] at hread
      exact Option.some.inj hread
    have hpass : reduceChunkObject (chunkRefs o chunks)
        (withChunks o object params chunks, remaining) e =
        (withChunks o object params (reduceChunk (chunks, remaining) (e.2, values e)).1,
          (reduceChunk (chunks, remaining) (e.2, values e)).2) := by
      unfold reduceChunkObject reduceChunk
      dsimp only
      rw [hvalue]
      split
      · rw [writeChannels_withChunks]
      · rfl
    have hsame : chunkRefs o (reduceChunk (chunks, remaining) (e.2, values e)).1 =
        chunkRefs o chunks := by
      unfold reduceChunk
      dsimp only
      split
      · exact chunkRefs_setChannels o chunks _ _
      · rfl
    rw [List.foldl_cons, List.map_cons, List.foldl_cons, hpass, ← hsame]
    refine ih hstep hnodup.2 fun e' he' => ?_
    rw [hsame]
    exact hrefs e' (List.mem_cons_of_mem e he')

theorem distributeRemainingDifferenceObjects_withChunks {ids : List ℕ} {total remaining : ℤ}
    {excluded : ℕ} (h : Reducing ids total (otherChunks chunks excluded) (chunks, remaining)) :
    distributeRemainingDifferenceObjects (withChunks o object params chunks) (chunkRefs o chunks)
        excluded remaining =
      withChunks o object params
        ((otherChunks chunks excluded).foldl reduceChunk (chunks, remaining)).1 := by
  have hnodup := nodup_otherChunks chunks excluded
  rw [← map_otherChunks o object params chunks excluded] at h hnodup ⊢
  refine foldl_reduceChunkObject h hnodup fun e he => ?_
  rw [(List.perm_insertionSort _ _).mem_iff, List.mem_filter] at he
  exact List.mem_zipIdx_iff_getElem?.mp he.1

/-- **Adjusting.** Rounding errors are adjusted alike on objects and on values. -/
theorem adjustForRoundingErrorsObjects_withChunks {ids : List ℕ} (original : ℤ)
    (hids : chunks.map Prod.fst = ids) (hone : ∀ c ∈ channels chunks, 1 ≤ c) :
    adjustForRoundingErrorsObjects original (withChunks o object params chunks)
        (chunkRefs o chunks) =
      withChunks o object params (adjustForRoundingErrors original chunks) := by
  have hchannels : chunks.map (·.2.outputChannels) = channels chunks := rfl
  unfold adjustForRoundingErrorsObjects adjustForRoundingErrors
  rw [map_chunkChannels, hchannels]
  dsimp only
  split
  · rfl
  · split
    · cases smallestChunk (channels chunks) with
      | none => rfl
      | some best => exact writeChannels_withChunks _ _
    · cases hlargest : largestChunk (channels chunks) with
      | none => rfl
      | some best =>
        dsimp only
        rw [writeChannels_withChunks]
        split
        · next hleft =>
          have hget := getElem?_of_largestChunk hlargest
          have hstart := reducing_largest hids hone hget rfl hleft
          rw [← chunkRefs_setChannels o chunks best.1
            (max 1 (best.2 + (original - (channels chunks).sum))),
            distributeRemainingDifference_eq]
          exact distributeRemainingDifferenceObjects_withChunks hstart
        · rfl

/-- **Refinement.** Partitioning an object adds the objects of the partitioned layer. -/
theorem partitionLayerObjects_eq (shares : List (ℕ × ℚ))
    (h : Defined o layerDef object params macs) :
    partitionLayerObjects o layerDef shares =
      (withChunks o object params (partitionLayer (layerDefOf object params) macs shares),
        chunkRefs o (shares.map (cutLayer (layerDefOf object params) macs))) := by
  have hstart : (o, ([] : List (ℕ × ℕ))) = (withChunks o object params [], chunkRefs o []) := by
    unfold withChunks
    rw [List.mapIdx_nil, List.map_nil, List.append_nil, List.append_nil]
    rfl
  have hobject : o.layer layerDef = object := by
    unfold Objects.layer
    rw [List.getD_eq_getElem?_getD, h.layer, Option.getD_some]
  unfold partitionLayerObjects partitionLayer
  dsimp only
  rw [hobject, hstart, foldl_cutLayerObject shares h, List.nil_append,
    withChunks_params_old h.params, outputChannels_layerDefOf h.one_le,
    adjustForRoundingErrorsObjects_withChunks _ rfl (one_le_cutLayer _ _ shares)]

end Refinement

theorem ids_chunkRefs (o : Objects) (chunks : List (ℕ × PartitionedLayer)) :
    (chunkRefs o chunks).map Prod.fst = chunks.map Prod.fst := by
  refine List.ext_getElem? fun i => ?_
  unfold chunkRefs
  rw [List.getElem?_map, List.getElem?_mapIdx, List.getElem?_map]
  cases chunks[i]? <;> rfl

/-- The references do not depend on what is adjusted. -/
theorem chunkRefs_congr {o : Objects} {chunks chunks' : List (ℕ × PartitionedLayer)}
    (h : chunks.map Prod.fst = chunks'.map Prod.fst) :
    chunkRefs o chunks = chunkRefs o chunks' := by
  refine List.ext_getElem? fun i => ?_
  have hi := congrArg (·[i]?) h
  simp only [List.getElem?_map] at hi
  unfold chunkRefs
  rw [List.getElem?_mapIdx, List.getElem?_mapIdx]
  cases hc : chunks[i]? with
  | none =>
    cases hc' : chunks'[i]? with
    | none => rfl
    | some c' => simp [hc, hc'] at hi
  | some c =>
    cases hc' : chunks'[i]? with
    | none => simp [hc, hc'] at hi
    | some c' =>
      rw [hc, hc'] at hi
      simp only [Option.map_some, Option.some.injEq] at hi ⊢
      rw [hi]

/-- What `partition_layer` guarantees for the layer definition `layerDef`: a chunk for every chiplet
with at least one channel, the right total, and an unchanged definition. -/
structure PartitionExact (layerDef : ℕ) (object : LayerObject) (params : Dict String ℤ)
    (shares : List (ℕ × ℚ)) (o : Objects) (chunks : List (ℕ × ℕ)) : Prop where
  chiplets : chunks.map Prod.fst = shares.map Prod.fst
  one_le : ∀ chunk ∈ chunks, 1 ≤ o.chunkChannels chunk
  sum : (chunks.map o.chunkChannels).sum = max (params.getD "output_channels" 1) shares.length
  layer : o.layers[layerDef]? = some object
  parameters : o.parameters[object.parameters]? = some params

/-- **Exact partitions.** A layer with at least one output channel is cut into chunks for the given
chiplets, in order, each with at least one output channel. They add up to the channels of the layer
or the number of chunks, whichever is larger, and the layer definition is left as it is. -/
theorem partition_layer_exact {o : Objects} {layerDef : ℕ} {object : LayerObject}
    {params : Dict String ℤ} {macs : Option ℕ} {shares : List (ℕ × ℚ)} (hne : shares ≠ [])
    (hlayer : o.layers[layerDef]? = some object)
    (hparams : o.parameters[object.parameters]? = some params)
    (hmacs : object.totalMacs = macs.map fun n => (n : ℚ))
    (hone : 1 ≤ params.getD "output_channels" 1) :
    PartitionExact layerDef object params shares (partitionLayerObjects o layerDef shares).1
      (partitionLayerObjects o layerDef shares).2 := by
  have hexact := partitionLayer_exact (layerDefOf object params) macs hne
  rw [outputChannels_layerDefOf hone] at hexact
  have hids : (shares.map (cutLayer (layerDefOf object params) macs)).map Prod.fst =
      shares.map Prod.fst := by
    rw [List.map_map]
    rfl
  rw [partitionLayerObjects_eq shares ⟨hone, hlayer, hmacs, hparams⟩,
    chunkRefs_congr (hids.trans hexact.chiplets.symm)]
  refine ⟨?_, fun chunk hchunk => ?_, ?_, ?_, ?_⟩
  · rw [ids_chunkRefs, hexact.chiplets]
  · refine hexact.one_le _ ?_
    rw [← map_chunkChannels o object params]
    exact List.mem_map_of_mem hchunk
  · rw [map_chunkChannels, hexact.sum, List.length_map]
  · exact (List.getElem?_append_left (List.getElem?_eq_some_iff.mp hlayer).1).trans hlayer
  · exact (List.getElem?_append_left (List.getElem?_eq_some_iff.mp hparams).1).trans hparams

/-- A convolution with one parameters object. -/
def tenChannels : Objects where
  layers := [{ description := .conv2d, parameters := 0 }]
  parameters := [Dict.empty.set "output_channels" 10]

/-- Ten channels for shares of `50`, `25` and `25` percent: rounding gives nine, and the first of
the smallest chunks gets the tenth. -/
theorem partition_layer_exact_ten :
    (partitionLayerObjects tenChannels 0 [(1, 50), (2, 25), (4, 25)]).2.map
        (partitionLayerObjects tenChannels 0 [(1, 50), (2, 25), (4, 25)]).1.chunkChannels =
      [5, 3, 2] ∧
    PartitionExact 0 { description := .conv2d, parameters := 0 }
      (Dict.empty.set "output_channels" 10) [(1, 50), (2, 25), (4, 25)]
      (partitionLayerObjects tenChannels 0 [(1, 50), (2, 25), (4, 25)]).1
      (partitionLayerObjects tenChannels 0 [(1, 50), (2, 25), (4, 25)]).2 := by
  have hmacs : (none : Option ℚ) = (none : Option ℕ).map fun n => (n : ℚ) := rfl
  exact ⟨by decide +kernel, partition_layer_exact (by simp) rfl rfl hmacs (by decide)⟩

end LayerPartitioner

end ChipSim
