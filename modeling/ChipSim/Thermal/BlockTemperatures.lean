import ChipSim.Thermal.PeakNodes

/-!
# Temperatures of the chiplets

The thermal model averages the temperatures of the nodes of each chiplet. It regroups the nodes by
their numbers and hands the groups to the chiplets in the order of their coordinates. The peak
finder gives a chiplet the nodes that overlap it. In a uniform layer with one chiplet at every
position of the grid both choose the same nodes.
-/

namespace ChipSim

open Lib

namespace Thermal

/-! ## `map_temperature_to_blk` -/

/-- What is read of a chiplet of the power grid: its name, and its numbers of nodes when the
chiplets differ. -/
structure BlockChiplet where
  name : String
  nodes : Option (ℕ × ℕ)
deriving DecidableEq

/-- A layer of the power grid. -/
structure BlockLayer where
  name : String
  powerChiplets : List BlockChiplet

/-- A layer of chiplets that are alike. -/
def BlockLayer.ofPowerLayer (p : PowerLayer) : BlockLayer where
  name := p.name
  powerChiplets := p.powerChiplets.map fun c => ⟨c.name, none⟩

/-- The rows that the loops copy to `sorted_temperature`, in the order of the copies. -/
def groupedIndices (numX numY xNodes yNodes : ℕ) : List ℕ :=
  (List.range numX).flatMap fun iChiplet => (List.range numY).flatMap fun jChiplet =>
    (List.range xNodes).flatMap fun i => (List.range yNodes).map fun j =>
      iChiplet * numY * yNodes * xNodes + jChiplet * yNodes + i * yNodes * numY + j

/-- One pass of the loop over the chiplets: a chiplet takes as many rows as it has nodes. The state
is `start_node` and the rows of the chiplets so far. -/
def sliceChiplet {α : Type} (totalNodes : BlockChiplet → Except PyError ℕ) (rows : List α)
    (acc : ℕ × List (String × List α)) (chiplet : BlockChiplet) :
    Except PyError (ℕ × List (String × List α)) := do
  let totalNodes ← totalNodes chiplet
  return (acc.1 + totalNodes, acc.2 ++ [(chiplet.name, (rows.drop acc.1).take totalNodes)])

/-- The rows of the chiplets. -/
def sliceChiplets {α : Type} (totalNodes : BlockChiplet → Except PyError ℕ) (rows : List α)
    (chiplets : List BlockChiplet) : Except PyError (List (String × List α)) := do
  let acc ← chiplets.foldlM (sliceChiplet totalNodes rows) (0, [])
  return acc.2

/-- `nodes_x * nodes_y` of a chiplet. -/
def BlockChiplet.totalNodes (c : BlockChiplet) : Except PyError ℕ :=
  match c.nodes with
  | some (nodesX, nodesY) => .ok (nodesX * nodesY)
  | none => .error (.attributeError "'Power_chiplet' object has no attribute 'nodes_x'")

section MapTemperature

variable {totalSteps : ℕ}

/-- `temperature_all[i]`. -/
def temperatureRow (temperatureAll : List (Fin totalSteps → ℚ)) (i : ℕ) :
    Except PyError (Fin totalSteps → ℚ) :=
  let size := temperatureAll.length
  match temperatureAll[i]? with
  | some row => .ok row
  | none => .error (.indexError s!"index {i} is out of bounds for axis 0 with size {size}")

/-- `np.mean(rows, axis=0)`; the mean of no rows is not a number. -/
def meanRows (rows : List (Fin totalSteps → ℚ)) : Fin totalSteps → Option ℚ := fun t =>
  if rows.isEmpty then none else some ((rows.map (· t)).sum / rows.length)

/-- `map_temperature_to_blk`: the name of every chiplet with its average temperatures. -/
def LayerGeometry.mapTemperatureToBlk (layer : LayerGeometry) (isHomogeneous : Bool)
    (utils : Utils) (powerLayers : List BlockLayer) (temperatureAll : List (Fin totalSteps → ℚ)) :
    Except PyError (List (String × (Fin totalSteps → Option ℚ))) :=
  match powerLayers.find? fun powerLayer => decide (powerLayer.name = layer.layerName) with
  | none => .error (.systemExit 1)
  | some geometryLayer =>
    if !layer.underChiplet then .error (.systemExit 1)
    else if isHomogeneous then
      if !layer.uniform then .error (.systemExit 1)
      else
        match layer.xNodes, layer.yNodes with
        | .count xNodes, .count yNodes => do
          let sortedTemperature ← (groupedIndices utils.numChipletX utils.numChipletY xNodes
            yNodes).mapM (temperatureRow temperatureAll)
          let blocks ← sliceChiplets (fun _ => .ok (xNodes * yNodes)) sortedTemperature
            geometryLayer.powerChiplets
          return blocks.map fun b => (b.1, meanRows b.2)
        | _, _ => .error (.typeError "'list' object cannot be interpreted as an integer")
    else do
      let blocks ← sliceChiplets BlockChiplet.totalNodes temperatureAll
        geometryLayer.powerChiplets
      return blocks.map fun b => (b.1, meanRows b.2)

end MapTemperature

/-! ## The groups -/

/-- The nodes that are grouped for the chiplet in a row and a column. -/
def group (numY xNodes yNodes I J : ℕ) : List ℕ :=
  (List.range xNodes).flatMap fun i => (List.range yNodes).map fun j =>
    I * numY * yNodes * xNodes + J * yNodes + i * yNodes * numY + j

/-- The groups in the order of the loops. -/
def groups (numX numY xNodes yNodes : ℕ) : List (List ℕ) :=
  (List.range numX).flatMap fun I => (List.range numY).map (group numY xNodes yNodes I)

section Groups

variable {numX numY xNodes yNodes : ℕ}

theorem groupedIndices_eq (numX numY xNodes yNodes : ℕ) :
    groupedIndices numX numY xNodes yNodes = (groups numX numY xNodes yNodes).flatten := by
  unfold groupedIndices groups group
  simp only [List.flatten_eq_flatMap, List.flatMap_assoc, List.flatMap_map, id]

theorem length_group (numY xNodes yNodes I J : ℕ) :
    (group numY xNodes yNodes I J).length = xNodes * yNodes := by
  unfold group
  rw [length_flatMap_map, List.length_range, List.length_range]

theorem length_groups (numX numY xNodes yNodes : ℕ) :
    (groups numX numY xNodes yNodes).length = numX * numY := by
  unfold groups
  rw [length_flatMap_map, List.length_range, List.length_range]

theorem getElem?_groups {I J : ℕ} (hI : I < numX) (hJ : J < numY) :
    (groups numX numY xNodes yNodes)[I * numY + J]? = some (group numY xNodes yNodes I J) := by
  have h := getElem?_flatMap_map (group numY xNodes yNodes) (List.getElem?_range hI)
    (List.getElem?_range hJ)
  rw [List.length_range] at h
  exact h

theorem length_of_mem_groups {g : List ℕ} (hg : g ∈ groups numX numY xNodes yNodes) :
    g.length = xNodes * yNodes := by
  obtain ⟨I, -, hg⟩ := List.mem_flatMap.mp hg
  obtain ⟨J, -, rfl⟩ := List.mem_map.mp hg
  exact length_group numY xNodes yNodes I J

/-- A group holds the nodes of its rows and columns of the layer. -/
theorem mem_group {I J k : ℕ} :
    k ∈ group numY xNodes yNodes I J ↔
      ∃ i < xNodes, ∃ j < yNodes, k = (I * xNodes + i) * (numY * yNodes) + (J * yNodes + j) := by
  have hindex : ∀ i j, I * numY * yNodes * xNodes + J * yNodes + i * yNodes * numY + j =
      (I * xNodes + i) * (numY * yNodes) + (J * yNodes + j) := fun i j => by ring
  unfold group
  simp only [List.mem_flatMap, List.mem_map, List.mem_range, hindex, eq_comm (a := k)]

/-- **The groups partition the nodes**: every node of the layer is grouped once. -/
theorem groupedIndices_perm (numX numY xNodes yNodes : ℕ) :
    (groupedIndices numX numY xNodes yNodes).Perm
      (List.range (numX * xNodes * (numY * yNodes))) := by
  have hlength : (groupedIndices numX numY xNodes yNodes).length =
      numX * xNodes * (numY * yNodes) := by
    have hsame : (groups numX numY xNodes yNodes).map List.length =
        List.replicate (numX * numY) (xNodes * yNodes) := by
      rw [← length_groups numX numY xNodes yNodes, ← List.map_const']
      exact List.map_congr_left fun g hg => length_of_mem_groups hg
    rw [groupedIndices_eq, List.length_flatten, hsame, List.sum_replicate_nat]
    ring
  have hsubset : List.range (numX * xNodes * (numY * yNodes)) ⊆
      groupedIndices numX numY xNodes yNodes := by
    intro k hk
    -- The row and the column of the node, then the chiplet and the node in both directions.
    obtain ⟨hr, hc, hk⟩ := place_eq (List.mem_range.mp hk)
    obtain ⟨hI, hi, hr⟩ := place_eq hr
    obtain ⟨hJ, hj, hc⟩ := place_eq hc
    rw [groupedIndices_eq]
    refine List.mem_flatten.mpr ⟨_, List.mem_of_getElem? (getElem?_groups hI hJ), ?_⟩
    exact mem_group.mpr ⟨_, hi, _, hj, by rw [hr, hc, hk]⟩
  refine (List.Subperm.perm_of_length_le ?_ ?_).symm
  · exact List.subperm_of_subset List.nodup_range hsubset
  · rw [hlength, List.length_range]

end Groups

/-! ## The slices -/

theorem foldlM_sliceChiplet {α : Type} {n start : ℕ} {rows : List α} {blocks : List (List α)}
    {chiplets : List BlockChiplet} (hlength : ∀ g ∈ blocks, g.length = n)
    (hcount : blocks.length = chiplets.length) (hrows : rows.drop start = blocks.flatten)
    (acc : List (String × List α)) :
    chiplets.foldlM (sliceChiplet (fun _ => .ok n) rows) (start, acc) =
      .ok (start + chiplets.length * n,
        acc ++ List.zipWith (fun c g => (c.name, g)) chiplets blocks) := by
  induction chiplets generalizing blocks start acc with
  | nil => simp
  | cons c chiplets ih =>
    cases blocks with
    | nil => cases hcount
    | cons g blocks =>
      have hg := hlength g List.mem_cons_self
      rw [List.flatten_cons] at hrows
      have hslice : sliceChiplet (fun _ => .ok n) rows (start, acc) c =
          .ok (start + n, acc ++ [(c.name, g)]) := by
        unfold sliceChiplet
        dsimp only
        rw [hrows, ok_bind, ← hg, List.take_left]
        rfl
      have hrest : rows.drop (start + n) = blocks.flatten := by
        rw [← List.drop_drop, hrows, ← hg, List.drop_left]
      rw [List.foldlM_cons, hslice, ok_bind,
        ih (fun g' hg' => hlength g' (List.mem_cons_of_mem g hg')) (Nat.succ.inj hcount) hrest,
        List.zipWith_cons_cons, List.append_assoc, List.singleton_append, List.length_cons]
      congr 2
      ring

/-- Rows in groups of equal length: every chiplet gets a group. -/
theorem sliceChiplets_flatten {α : Type} {n : ℕ} {blocks : List (List α)}
    {chiplets : List BlockChiplet} (hlength : ∀ g ∈ blocks, g.length = n)
    (hcount : blocks.length = chiplets.length) :
    sliceChiplets (fun _ => .ok n) blocks.flatten chiplets =
      .ok (List.zipWith (fun c g => (c.name, g)) chiplets blocks) := by
  unfold sliceChiplets
  rw [foldlM_sliceChiplet hlength hcount rfl, ok_bind, List.nil_append]
  rfl

/-! ## The positions of the grid -/

theorem chipletSpans_pairwise {length spacing : ℚ} (hlength : 0 ≤ length) (hspacing : 0 ≤ spacing)
    (start : ℚ) (n : ℕ) :
    (chipletSpans start length spacing n).Pairwise fun a b => a.2 ≤ b.1 := by
  induction n generalizing start with
  | zero => exact .nil
  | succ n ih =>
    refine List.pairwise_cons.mpr ⟨fun span hspan => ?_, ih _⟩
    have hafter := le_of_mem_chipletSpans hlength hspacing hspan
    dsimp only
    linarith

/-- The positions of the chiplets of a layer, in the order of their `x`, then their `y`. -/
def gridPositions (layer : LayerGeometry) (utils : Utils) : List (ℚ × ℚ) :=
  (chipletSpans layer.startX utils.chipletXLen utils.chipletSpacing utils.numChipletX).flatMap
    fun xSpan => (chipletSpans layer.startY utils.chipletYLen utils.chipletSpacing
      utils.numChipletY).map fun ySpan => (xSpan.1, ySpan.1)

/-- The power configuration places one chiplet at each position of the grid. -/
def OnePerPosition (layer : LayerGeometry) (utils : Utils) (config : LayerConfig) : Prop :=
  (config.entries.map fun e => (e.2.startChipletX, e.2.startChipletY)).Perm
    (gridPositions layer utils)

/-- The order of the chiplets: by `x`, then by `y`. -/
def InOrder (p q : ℚ × ℚ) : Prop := p.1 ≤ q.1 ∧ (q.1 ≤ p.1 → p.2 ≤ q.2)

theorem InOrder.antisymm {p q : ℚ × ℚ} (h : InOrder p q) (h' : InOrder q p) : p = q :=
  Prod.ext (le_antisymm h.1 h'.1) (le_antisymm (h.2 h'.1) (h'.2 h.1))

section Positions

variable {layer : LayerGeometry} {utils : Utils} {config : LayerConfig} {powerLayer : PowerLayer}

theorem gridPositions_inOrder (layer : LayerGeometry) (hx : 0 < utils.chipletXLen)
    (hy : 0 < utils.chipletYLen) (hspacing : 0 ≤ utils.chipletSpacing) :
    (gridPositions layer utils).Pairwise fun p q => InOrder p q ∧ p ≠ q := by
  unfold gridPositions
  refine List.pairwise_flatMap.mpr ⟨fun xSpan _ => ?_, ?_⟩
  · refine List.pairwise_map.mpr ?_
    refine (chipletSpans_pairwise hy.le hspacing _ _).imp_of_mem fun {a b} ha _ hab => ?_
    have hlt : a.1 < b.1 := by linarith [snd_of_mem_chipletSpans ha]
    exact ⟨⟨le_rfl, fun _ => hlt.le⟩, fun h => hlt.ne (Prod.mk.inj h).2⟩
  · refine (chipletSpans_pairwise hx.le hspacing _ _).imp_of_mem fun {a b} ha _ hab p hp q hq => ?_
    have hlt : a.1 < b.1 := by linarith [snd_of_mem_chipletSpans ha]
    obtain ⟨_, -, rfl⟩ := List.mem_map.mp hp
    obtain ⟨_, -, rfl⟩ := List.mem_map.mp hq
    exact ⟨⟨hlt.le, fun h => absurd hlt (not_lt.mpr h)⟩, fun h => hlt.ne (Prod.mk.inj h).1⟩

theorem powerChiplet_new_eq {e : String × ChipletConfig} {c : PowerChiplet}
    (h : PowerChiplet.new e = .ok c) :
    (c.name, c.chipletX, c.chipletY) = (e.1, e.2.startChipletX, e.2.startChipletY) := by
  unfold PowerChiplet.new at h
  split at h
  · cases h
    rfl
  · obtain ⟨blocks, -, h⟩ := bind_eq_ok.mp h
    cases h
    rfl

/-- The chiplets of a power layer are those of the configuration. -/
theorem powerChiplets_perm {name : String}
    (hpower : PowerLayer.new (name, config) = .ok powerLayer) :
    (powerLayer.powerChiplets.map fun c => (c.name, c.chipletX, c.chipletY)).Perm
      (config.entries.map fun e => (e.1, e.2.startChipletX, e.2.startChipletY)) := by
  unfold PowerLayer.new at hpower
  obtain ⟨chiplets, hchiplets, hpower⟩ := bind_eq_ok.mp hpower
  cases hpower
  have hkeys : config.entries.map (fun e => (e.1, e.2.startChipletX, e.2.startChipletY)) =
      chiplets.map fun c => (c.name, c.chipletX, c.chipletY) := by
    rw [← List.forall₂_eq_eq_eq, List.forall₂_map_left_iff, List.forall₂_map_right_iff]
    exact forall₂_mapM hchiplets fun e _ c hc => (powerChiplet_new_eq hc).symm
  rw [hkeys]
  exact ((List.perm_insertionSort _ _).trans (List.perm_insertionSort _ _)).map _

/-- The power layer has its chiplets in the order of the grid. -/
theorem powerChiplets_positions {name : String} (hx : 0 < utils.chipletXLen)
    (hy : 0 < utils.chipletYLen) (hspacing : 0 ≤ utils.chipletSpacing)
    (hplaces : OnePerPosition layer utils config)
    (hpower : PowerLayer.new (name, config) = .ok powerLayer) :
    powerLayer.powerChiplets.map (fun c => (c.chipletX, c.chipletY)) =
      gridPositions layer utils := by
  have hperm : (powerLayer.powerChiplets.map fun c => (c.chipletX, c.chipletY)).Perm
      (gridPositions layer utils) := by
    have h := (powerChiplets_perm hpower).map Prod.snd
    rw [List.map_map, List.map_map] at h
    exact h.trans hplaces
  refine hperm.eq_of_pairwise (fun p q _ _ => InOrder.antisymm) ?_
    ((gridPositions_inOrder layer hx hy hspacing).imp And.left)
  unfold PowerLayer.new at hpower
  obtain ⟨chiplets, -, hpower⟩ := bind_eq_ok.mp hpower
  cases hpower
  have hsorted : (chiplets.insertionSort fun a b => a.chipletY ≤ b.chipletY).Pairwise
      fun a b => a.chipletY ≤ b.chipletY :=
    (pairwise_insertionSort_stable (s := fun _ _ => True)
      (fun a b : PowerChiplet => le_total a.chipletY b.chipletY) le_trans
      (List.pairwise_of_forall fun _ _ => trivial)).imp And.left
  exact List.pairwise_map.mpr (pairwise_insertionSort_stable
    (fun a b : PowerChiplet => le_total a.chipletX b.chipletX) le_trans hsorted)

end Positions

/-! ## Nodes that overlap a chiplet -/

section Spans

variable {start length spacing : ℚ} {num : ℕ}

theorem exists_span (start length spacing : ℚ) {I : ℕ} (hI : I < num) :
    ∃ span, (chipletSpans start length spacing num)[I]? = some span :=
  ⟨_, List.getElem?_eq_getElem (by rw [PeakFinder.length_chipletSpans]; exact hI)⟩

theorem span_le_span (hlength : 0 ≤ length) (hspacing : 0 ≤ spacing) {I I' : ℕ}
    {span span' : ℚ × ℚ} (hspan : (chipletSpans start length spacing num)[I]? = some span)
    (hspan' : (chipletSpans start length spacing num)[I']? = some span') (hlt : I < I') :
    span.2 ≤ span'.1 := by
  obtain ⟨hI, rfl⟩ := List.getElem?_eq_some_iff.mp hspan
  obtain ⟨hI', rfl⟩ := List.getElem?_eq_some_iff.mp hspan'
  exact List.pairwise_iff_getElem.mp (chipletSpans_pairwise hlength hspacing _ _) I I' hI hI' hlt

/-- Two chiplets of a row that meet are the same. -/
theorem span_eq_of_meet (hlength : 0 ≤ length) (hspacing : 0 ≤ spacing) {I I' : ℕ}
    {span span' : ℚ × ℚ} (hspan : (chipletSpans start length spacing num)[I]? = some span)
    (hspan' : (chipletSpans start length spacing num)[I']? = some span')
    (hbefore : span.1 < span'.2) (hafter : span'.1 < span.2) : I = I' := by
  rcases lt_trichotomy I I' with hlt | heq | hlt
  · exact absurd (span_le_span hlength hspacing hspan hspan' hlt) (not_le.mpr hafter)
  · exact heq
  · exact absurd (span_le_span hlength hspacing hspan' hspan hlt) (not_le.mpr hbefore)

/-- Different chiplets of a row start at different places. -/
theorem span_injective (hlength : 0 < length) (hspacing : 0 ≤ spacing) {I I' : ℕ}
    {span span' : ℚ × ℚ} (hspan : (chipletSpans start length spacing num)[I]? = some span)
    (hspan' : (chipletSpans start length spacing num)[I']? = some span')
    (h : span.1 = span'.1) : I = I' := by
  have hend := snd_of_mem_chipletSpans (List.mem_of_getElem? hspan)
  have hend' := snd_of_mem_chipletSpans (List.mem_of_getElem? hspan')
  exact span_eq_of_meet hlength.le hspacing hspan hspan' (by linarith) (by linarith)

/-- A cell of a chiplet overlaps this chiplet and no other one of the row. -/
theorem overlap_cell_pos_iff (hlength : 0 < length) (hspacing : 0 ≤ spacing) {n I I' i : ℕ}
    {span span' : ℚ × ℚ} (hspan : (chipletSpans start length spacing num)[I]? = some span)
    (hspan' : (chipletSpans start length spacing num)[I']? = some span') (hi : i < n) :
    0 < overlap (PeakFinder.uniformCell n span i).2
      ((PeakFinder.uniformCell n span i).2 + (PeakFinder.uniformCell n span i).1)
      span'.1 (span'.1 + length) ↔ I = I' := by
  have hend := snd_of_mem_chipletSpans (List.mem_of_getElem? hspan)
  have hend' := snd_of_mem_chipletSpans (List.mem_of_getElem? hspan')
  have hn : (0 : ℚ) < n := Nat.cast_pos.mpr (by omega)
  have hwidth : (0 : ℚ) < length / n := div_pos hlength hn
  have hwhole : (n : ℚ) * (length / n) = length := mul_div_cancel₀ length hn.ne'
  have hlow : 0 ≤ (i : ℚ) * (length / n) := mul_nonneg (Nat.cast_nonneg i) hwidth.le
  have hsucc : (i : ℚ) + 1 ≤ n := by exact_mod_cast hi
  have hhigh : ((i : ℚ) + 1) * (length / n) ≤ length :=
    (mul_le_mul_of_nonneg_right hsucc hwidth.le).trans_eq hwhole
  unfold PeakFinder.uniformCell
  rw [overlap_pos_iff, hend, add_sub_cancel_left, max_lt_iff, lt_min_iff, lt_min_iff]
  dsimp only
  rw [add_one_mul] at hhigh
  constructor
  · rintro ⟨⟨-, hbefore⟩, hafter, -⟩
    exact span_eq_of_meet hlength.le hspacing hspan hspan' (by linarith) (by linarith)
  · rintro rfl
    cases hspan.symm.trans hspan'
    exact ⟨⟨by linarith, by linarith⟩, by linarith, by linarith⟩

end Spans

section Assigned

open PeakFinder

/-- A node number that the peak finder gives to a chiplet. -/
def AssignedTo (nodeMap : Dict ℕ NodeInfo) (name : String) (id : ℕ) : Prop :=
  ∃ info, nodeMap.get? id = some info ∧ info.chiplet = name

/-- A chiplet overlaps a node. -/
def Overlaps (utils : Utils) (chiplet : PeakFinder.PowerChiplet) (node : Rect) : Prop :=
  0 < overlapArea node chiplet.chipletX chiplet.chipletY utils.chipletXLen utils.chipletYLen

instance (utils : Utils) (chiplet : PeakFinder.PowerChiplet) (node : Rect) :
    Decidable (Overlaps utils chiplet node) :=
  inferInstanceAs (Decidable (_ < _))

/-- The last chiplet that overlaps a node takes it. -/
theorem get?_mapOverlapping (layerNodes : List NodeRect) (layerGlobalStart : ℕ)
    (chiplets : List PeakFinder.PowerChiplet) (utils : Utils) (id : ℕ) :
    (∃ chiplet ∈ chiplets, ∃ node ∈ layerNodes, Overlaps utils chiplet node.toRect ∧
        layerGlobalStart + node.localNodeId = id ∧
        (mapOverlapping layerNodes layerGlobalStart chiplets utils).get? id =
          some (nodeInfo layerGlobalStart chiplet node)) ∨
      (∀ chiplet ∈ chiplets, ∀ node ∈ layerNodes, Overlaps utils chiplet node.toRect →
        layerGlobalStart + node.localNodeId ≠ id) ∧
        (mapOverlapping layerNodes layerGlobalStart chiplets utils).get? id = none := by
  have hstep : ∀ chiplet (nodeMap : Dict ℕ NodeInfo) (node : NodeRect),
      (if Overlaps utils chiplet node.toRect ∧ layerGlobalStart + node.localNodeId = id then
        some (nodeInfo layerGlobalStart chiplet node) else nodeMap.get? id) =
      (if overlapArea node.toRect chiplet.chipletX chiplet.chipletY utils.chipletXLen
          utils.chipletYLen ≤ 0 then nodeMap
        else assign layerGlobalStart chiplet nodeMap node).get? id := by
    intro chiplet nodeMap node
    by_cases hover : Overlaps utils chiplet node.toRect
    · rw [if_neg (not_le.mpr hover), assign, Dict.get?_set]
      simp only [hover, true_and, eq_comm (a := id)]
    · rw [if_neg (fun h => hover h.1), if_pos (not_lt.mp hover)]
  -- The two loops as one over the pairs.
  have hloop : (mapOverlapping layerNodes layerGlobalStart chiplets utils).get? id =
      (chiplets.flatMap fun chiplet => layerNodes.map fun node => (chiplet, node)).foldl
        (fun t e => if Overlaps utils e.1 e.2.toRect ∧ layerGlobalStart + e.2.localNodeId = id then
          some (nodeInfo layerGlobalStart e.1 e.2) else t) none := by
    have hempty : (none : Option NodeInfo) = (Dict.empty : Dict ℕ NodeInfo).get? id := rfl
    rw [hempty]
    simp only [List.foldl_flatMap, List.foldl_map]
    refine (List.foldl_hom (fun d : Dict ℕ NodeInfo => d.get? id) ?_).symm
    intro nodeMap chiplet
    exact List.foldl_hom (fun d : Dict ℕ NodeInfo => d.get? id) (hstep chiplet)
  rw [hloop]
  obtain ⟨⟨chiplet, node⟩, hmem, ⟨hover, hid⟩, hlast⟩ | ⟨hnone, hlast⟩ := foldl_overwrite
    (fun e : PeakFinder.PowerChiplet × NodeRect =>
      Overlaps utils e.1 e.2.toRect ∧ layerGlobalStart + e.2.localNodeId = id)
    (fun e => some (nodeInfo layerGlobalStart e.1 e.2))
    (chiplets.flatMap fun chiplet => layerNodes.map fun node => (chiplet, node)) none
  · obtain ⟨_, hchiplet, hnode⟩ := List.mem_flatMap.mp hmem
    obtain ⟨_, hnode, hpair⟩ := List.mem_map.mp hnode
    cases hpair
    exact .inl ⟨chiplet, hchiplet, node, hnode, hover, hid, hlast⟩
  · refine .inr ⟨fun chiplet hchiplet node hnode hover hid => ?_, hlast⟩
    refine hnone (chiplet, node) ?_ ⟨hover, hid⟩
    exact List.mem_flatMap.mpr ⟨chiplet, hchiplet, List.mem_map_of_mem hnode⟩

variable {layer : LayerGeometry} {utils : Utils} {xNodes yNodes : ℕ}

/-- The chiplet in a row and a column of the grid has a given position. -/
def PositionAt (layer : LayerGeometry) (utils : Utils) (I J : ℕ) (x y : ℚ) : Prop :=
  ∃ xSpan ySpan,
    (chipletSpans layer.startX utils.chipletXLen utils.chipletSpacing
      utils.numChipletX)[I]? = some xSpan ∧
    (chipletSpans layer.startY utils.chipletYLen utils.chipletSpacing
      utils.numChipletY)[J]? = some ySpan ∧ x = xSpan.1 ∧ y = ySpan.1

/-- The nodes of a uniform layer of chiplets. -/
def uniformLayerNodes (layer : LayerGeometry) (utils : Utils) (xNodes yNodes : ℕ) :
    List NodeRect :=
  numbered (productRects (xCells layer utils xNodes) (yCells layer utils yNodes))

/-- A node of a chiplet: where it is, and its number in the layer. -/
structure NodeAt (layer : LayerGeometry) (utils : Utils) (xNodes yNodes I J : ℕ)
    (node : NodeRect) : Prop where
  cell : ∃ xSpan ySpan i j,
    (chipletSpans layer.startX utils.chipletXLen utils.chipletSpacing
      utils.numChipletX)[I]? = some xSpan ∧
    (chipletSpans layer.startY utils.chipletYLen utils.chipletSpacing
      utils.numChipletY)[J]? = some ySpan ∧ i < xNodes ∧ j < yNodes ∧
    node.toRect = rectOf (uniformCell xNodes xSpan i) (uniformCell yNodes ySpan j) ∧
    node.localNodeId = (I * xNodes + i) * (utils.numChipletY * yNodes) + (J * yNodes + j)

theorem NodeAt.mem_group {I J : ℕ} {node : NodeRect}
    (h : NodeAt layer utils xNodes yNodes I J node) :
    node.localNodeId ∈ group utils.numChipletY xNodes yNodes I J := by
  obtain ⟨_, _, i, j, -, -, hi, hj, -, hid⟩ := h.cell
  exact Thermal.mem_group.mpr ⟨i, hi, j, hj, hid⟩

theorem length_yCells (layer : LayerGeometry) (utils : Utils) (yNodes : ℕ) :
    (yCells layer utils yNodes).length = utils.numChipletY * yNodes := by
  unfold yCells
  rw [length_chipletCells, length_chipletSpans]

/-- Every node belongs to a chiplet of the grid. -/
theorem exists_nodeAt {node : NodeRect}
    (h : node ∈ uniformLayerNodes layer utils xNodes yNodes) :
    ∃ I J, NodeAt layer utils xNodes yNodes I J node := by
  obtain ⟨r, x, c, y, hx, hy, hid, hrect⟩ := productRects_eq_some.mp (mem_numbered.mp h)
  obtain ⟨I, xSpan, i, hxSpan, hi, rfl, rfl⟩ := chipletCells_eq_some hx
  obtain ⟨J, ySpan, j, hySpan, hj, rfl, rfl⟩ := chipletCells_eq_some hy
  rw [length_yCells] at hid
  exact ⟨I, J, ⟨xSpan, ySpan, i, j, hxSpan, hySpan, hi, hj, hrect, hid⟩⟩

/-- Every number in the group of a chiplet is the number of a node of the chiplet. -/
theorem exists_node_of_mem_group {I J k : ℕ} {x y : ℚ} (hat : PositionAt layer utils I J x y)
    (hk : k ∈ group utils.numChipletY xNodes yNodes I J) :
    ∃ node ∈ uniformLayerNodes layer utils xNodes yNodes, node.localNodeId = k ∧
      NodeAt layer utils xNodes yNodes I J node := by
  obtain ⟨i, hi, j, hj, rfl⟩ := Thermal.mem_group.mp hk
  obtain ⟨xSpan, ySpan, hxSpan, hySpan, -, -⟩ := hat
  refine ⟨⟨rectOf (uniformCell xNodes xSpan i) (uniformCell yNodes ySpan j), _⟩, ?_, rfl,
    ⟨xSpan, ySpan, i, j, hxSpan, hySpan, hi, hj, rfl, rfl⟩⟩
  refine mem_numbered.mpr (productRects_eq_some.mpr ⟨_, _, _, _,
    getElem?_chipletCells _ hxSpan hi, getElem?_chipletCells _ hySpan hj, ?_, rfl⟩)
  rw [length_yCells]

theorem PositionAt.eq {I J : ℕ} {x y x' y' : ℚ} (h : PositionAt layer utils I J x y)
    (h' : PositionAt layer utils I J x' y') : x = x' ∧ y = y' := by
  obtain ⟨xSpan, ySpan, hxSpan, hySpan, rfl, rfl⟩ := h
  obtain ⟨xSpan', ySpan', hxSpan', hySpan', rfl, rfl⟩ := h'
  cases hxSpan.symm.trans hxSpan'
  cases hySpan.symm.trans hySpan'
  exact ⟨rfl, rfl⟩

section Geometry

variable (hx : 0 < utils.chipletXLen) (hy : 0 < utils.chipletYLen)
  (hspacing : 0 ≤ utils.chipletSpacing)

include hx hy hspacing

theorem PositionAt.injective {I J I' J' : ℕ} {x y : ℚ} (h : PositionAt layer utils I J x y)
    (h' : PositionAt layer utils I' J' x y) : I = I' ∧ J = J' := by
  obtain ⟨xSpan, ySpan, hxSpan, hySpan, hxEq, hyEq⟩ := h
  obtain ⟨xSpan', ySpan', hxSpan', hySpan', hxEq', hyEq'⟩ := h'
  exact ⟨span_injective hx hspacing hxSpan hxSpan' (hxEq.symm.trans hxEq'),
    span_injective hy hspacing hySpan hySpan' (hyEq.symm.trans hyEq')⟩

/-- A node overlaps the chiplet it belongs to and no other one. -/
theorem overlaps_iff {chiplet : PeakFinder.PowerChiplet} {I J I' J' : ℕ}
    (hat : PositionAt layer utils I' J' chiplet.chipletX chiplet.chipletY) {node : NodeRect}
    (hnode : NodeAt layer utils xNodes yNodes I J node) :
    Overlaps utils chiplet node.toRect ↔ I = I' ∧ J = J' := by
  obtain ⟨xSpan, ySpan, i, j, hxSpan, hySpan, hi, hj, hrect, -⟩ := hnode.cell
  obtain ⟨xSpan', ySpan', hxSpan', hySpan', hxEq, hyEq⟩ := hat
  unfold Overlaps overlapArea
  rw [calculateOverlappingArea_eq, hrect, hxEq, hyEq,
    ← overlap_cell_pos_iff hx hspacing hxSpan hxSpan' hi,
    ← overlap_cell_pos_iff hy hspacing hySpan hySpan' hj]
  constructor
  · intro h
    exact ⟨pos_of_mul_pos_left h (overlap_nonneg ..), pos_of_mul_pos_right h (overlap_nonneg ..)⟩
  · rintro ⟨h, h'⟩
    exact mul_pos h h'

/-- **What the peak finder assigns**: a chiplet gets the nodes of its group. -/
theorem assignedTo_iff {chiplets : List PeakFinder.PowerChiplet}
    (hat : ∀ c ∈ chiplets, ∃ I J, PositionAt layer utils I J c.chipletX c.chipletY)
    (hsingle : ∀ c ∈ chiplets, ∀ c' ∈ chiplets, c.chipletX = c'.chipletX →
      c.chipletY = c'.chipletY → c = c') (layerGlobalStart k : ℕ) {name : String} :
    AssignedTo (mapOverlapping (uniformLayerNodes layer utils xNodes yNodes) layerGlobalStart
        chiplets utils) name (layerGlobalStart + k) ↔
      ∃ c ∈ chiplets, c.name = name ∧ ∃ I J, PositionAt layer utils I J c.chipletX c.chipletY ∧
        k ∈ group utils.numChipletY xNodes yNodes I J := by
  constructor
  · rintro ⟨info, hinfo, rfl⟩
    obtain ⟨c, hc, node, hnode, hover, hid, hget⟩ | ⟨-, hget⟩ := get?_mapOverlapping
      (uniformLayerNodes layer utils xNodes yNodes) layerGlobalStart chiplets utils
      (layerGlobalStart + k)
    · rw [hinfo] at hget
      cases hget
      obtain ⟨I, J, hnodeAt⟩ := exists_nodeAt hnode
      obtain ⟨I', J', hcAt⟩ := hat c hc
      obtain ⟨rfl, rfl⟩ := (overlaps_iff hx hy hspacing hcAt hnodeAt).mp hover
      cases Nat.add_left_cancel hid
      exact ⟨c, hc, rfl, I, J, hcAt, hnodeAt.mem_group⟩
    · rw [hinfo] at hget
      cases hget
  · rintro ⟨c, hc, rfl, I, J, hcAt, hk⟩
    obtain ⟨node, hnode, hid, hnodeAt⟩ := exists_node_of_mem_group hcAt hk
    have hover := (overlaps_iff hx hy hspacing hcAt hnodeAt).mpr ⟨rfl, rfl⟩
    obtain ⟨c', hc', node', hnode', hover', hid', hget⟩ | ⟨hnone, -⟩ := get?_mapOverlapping
      (uniformLayerNodes layer utils xNodes yNodes) layerGlobalStart chiplets utils
      (layerGlobalStart + k)
    · -- Any chiplet that overlaps the node is at the same position.
      cases numbered_injective hnode' hnode ((Nat.add_left_cancel hid').trans hid.symm)
      obtain ⟨I', J', hcAt'⟩ := hat c' hc'
      obtain ⟨rfl, rfl⟩ := (overlaps_iff hx hy hspacing hcAt' hnodeAt).mp hover'
      obtain ⟨hposX, hposY⟩ := hcAt'.eq hcAt
      cases hsingle c' hc' c hc hposX hposY
      exact ⟨_, hget, rfl⟩
    · exact absurd (by rw [hid]) (hnone c hc node hnode hover)

end Geometry

theorem getElem?_gridPositions {m : ℕ} {p : ℚ × ℚ}
    (h : (gridPositions layer utils)[m]? = some p) :
    ∃ I J, I < utils.numChipletX ∧ J < utils.numChipletY ∧ m = I * utils.numChipletY + J ∧
      PositionAt layer utils I J p.1 p.2 := by
  have hlength : (gridPositions layer utils).length = utils.numChipletX * utils.numChipletY := by
    unfold gridPositions
    rw [length_flatMap_map, length_chipletSpans, length_chipletSpans]
  have hm : m < utils.numChipletX * utils.numChipletY := by
    rw [← hlength]
    exact (List.getElem?_eq_some_iff.mp h).1
  obtain ⟨hI, hJ, hplace⟩ := place_eq hm
  obtain ⟨xSpan, hxSpan⟩ := exists_span layer.startX utils.chipletXLen utils.chipletSpacing hI
  obtain ⟨ySpan, hySpan⟩ := exists_span layer.startY utils.chipletYLen utils.chipletSpacing hJ
  have hp := getElem?_flatMap_map (fun xSpan ySpan : ℚ × ℚ => (xSpan.1, ySpan.1)) hxSpan hySpan
  rw [length_chipletSpans, hplace] at hp
  cases h.symm.trans hp
  exact ⟨_, _, hI, hJ, hplace.symm, _, _, hxSpan, hySpan, rfl, rfl⟩

/-! ## Both programs -/

/-- The chiplets of the peak finder are those of the configuration. -/
theorem mem_sortChiplets {config : LayerConfig} {c : PeakFinder.PowerChiplet} :
    c ∈ sortChiplets (config.entries.map PeakFinder.PowerChiplet.ofConfig) ↔
      ∃ e ∈ config.entries, PeakFinder.PowerChiplet.ofConfig e = c := by
  unfold sortChiplets
  rw [List.mem_insertionSort, List.mem_insertionSort, List.mem_map]

/-- The power layers of the thermal model by name. -/
theorem find?_powerLayers {entries : List (String × LayerConfig)} {powerLayers : List PowerLayer}
    (hlayers : entries.mapM PowerLayer.new = .ok powerLayers) {name : String}
    {config : LayerConfig} (hconfig : entries.lookup name = some config) :
    ∃ powerLayer, PowerLayer.new (name, config) = .ok powerLayer ∧
      powerLayers.find? (fun powerLayer => decide (powerLayer.name = name)) = some powerLayer := by
  induction entries generalizing powerLayers with
  | nil => cases hconfig
  | cons e entries ih =>
    rw [List.mapM_cons] at hlayers
    obtain ⟨first, hfirst, hlayers⟩ := bind_eq_ok.mp hlayers
    obtain ⟨rest, hrest, hlayers⟩ := bind_eq_ok.mp hlayers
    cases hlayers
    have hname : first.name = e.1 := by
      unfold PowerLayer.new at hfirst
      obtain ⟨_, -, hfirst⟩ := bind_eq_ok.mp hfirst
      cases hfirst
      rfl
    rw [Dict.lookup_cons_ite] at hconfig
    split at hconfig
    · next heq =>
      cases hconfig
      cases heq
      exact ⟨first, hfirst, List.find?_cons_of_pos (decide_eq_true hname)⟩
    · next hne =>
      obtain ⟨powerLayer, hnew, hfind⟩ := ih hrest hconfig
      refine ⟨powerLayer, hnew, ?_⟩
      rw [List.find?_cons, decide_eq_false fun h => hne (h.symm.trans hname)]
      exact hfind

/-- The nodes that are averaged for each chiplet: the chiplets take the groups in their order. -/
def averagedNodes (powerLayer : PowerLayer) (utils : Utils) (xNodes yNodes : ℕ) :
    List (String × List ℕ) :=
  List.zipWith (fun (c : PowerChiplet) g => (c.name, g)) powerLayer.powerChiplets
    (groups utils.numChipletX utils.numChipletY xNodes yNodes)

/-- A uniform layer under chiplets that are alike, with one chiplet of the configuration at each
position of the grid. -/
structure UniformChipletLayer (layer : LayerGeometry) (utils : Utils) (powerConfig : PowerConfig)
    (config : LayerConfig) (xNodes yNodes : ℕ) : Prop where
  underChiplet : layer.underChiplet = true
  uniform : layer.uniform = true
  xNodes_eq : layer.xNodes = .count xNodes
  yNodes_eq : layer.yNodes = .count yNodes
  chipletX_pos : 0 < utils.chipletXLen
  chipletY_pos : 0 < utils.chipletYLen
  spacing_nonneg : 0 ≤ utils.chipletSpacing
  config_eq : powerConfig.get? layer.layerName = some config
  onePerPosition : OnePerPosition layer utils config

namespace UniformChipletLayer

variable {powerConfig : PowerConfig} {config : LayerConfig} {powerLayer : PowerLayer}
  (h : UniformChipletLayer layer utils powerConfig config xNodes yNodes)

include h

/-- The chiplets of the configuration are at positions of the grid. -/
theorem positionAt {e : String × ChipletConfig} (he : e ∈ config.entries) :
    ∃ I J, PositionAt layer utils I J e.2.startChipletX e.2.startChipletY := by
  have hmem := h.onePerPosition.mem_iff.mp (List.mem_map_of_mem he)
  obtain ⟨m, hm⟩ := List.mem_iff_getElem?.mp hmem
  obtain ⟨I, J, -, -, -, hat⟩ := getElem?_gridPositions hm
  exact ⟨I, J, hat⟩

/-- Two chiplets of the configuration at one position are the same. -/
theorem eq_of_position {e e' : String × ChipletConfig} (he : e ∈ config.entries)
    (he' : e' ∈ config.entries) (hx : e.2.startChipletX = e'.2.startChipletX)
    (hy : e.2.startChipletY = e'.2.startChipletY) : e = e' := by
  have hnodup : (config.entries.map fun e => (e.2.startChipletX, e.2.startChipletY)).Nodup :=
    h.onePerPosition.nodup_iff.mpr ((gridPositions_inOrder layer h.chipletX_pos h.chipletY_pos
      h.spacing_nonneg).imp And.right)
  exact List.inj_on_of_nodup_map hnodup he he' (Prod.ext hx hy)

/-- The groups that the thermal model hands to the chiplets. -/
theorem averaged_group (hpower : PowerLayer.new (layer.layerName, config) = .ok powerLayer)
    {a : String × List ℕ} (ha : a ∈ averagedNodes powerLayer utils xNodes yNodes) :
    ∃ e ∈ config.entries, a.1 = e.1 ∧ ∃ I J,
      PositionAt layer utils I J e.2.startChipletX e.2.startChipletY ∧
      a.2 = group utils.numChipletY xNodes yNodes I J := by
  obtain ⟨m, hm⟩ := List.mem_iff_getElem?.mp ha
  obtain ⟨c, g, hc, hg, rfl⟩ := List.getElem?_zipWith_eq_some.mp hm
  have hposition : (gridPositions layer utils)[m]? = some (c.chipletX, c.chipletY) := by
    rw [← powerChiplets_positions h.chipletX_pos h.chipletY_pos h.spacing_nonneg h.onePerPosition
      hpower, List.getElem?_map, hc]
    rfl
  obtain ⟨I, J, hI, hJ, rfl, hat⟩ := getElem?_gridPositions hposition
  rw [getElem?_groups hI hJ] at hg
  cases hg
  -- The chiplet comes from an entry of the configuration.
  have hkey := (powerChiplets_perm hpower).mem_iff.mp
    (List.mem_map_of_mem (List.mem_of_getElem? hc))
  obtain ⟨e, he, hkey⟩ := List.mem_map.mp hkey
  obtain ⟨hname, hx, hy⟩ : e.1 = c.name ∧ e.2.startChipletX = c.chipletX ∧
      e.2.startChipletY = c.chipletY := by simpa using hkey
  exact ⟨e, he, hname.symm, I, J, hx ▸ hy ▸ hat, rfl⟩

/-- The nodes that the thermal model averages are those that the peak finder assigns. -/
theorem mem_averaged_iff (hpower : PowerLayer.new (layer.layerName, config) = .ok powerLayer)
    (layerGlobalStart : ℕ) {a : String × List ℕ}
    (ha : a ∈ averagedNodes powerLayer utils xNodes yNodes) (k : ℕ) :
    k ∈ a.2 ↔ AssignedTo (mapOverlapping (uniformLayerNodes layer utils xNodes yNodes)
      layerGlobalStart (sortChiplets (config.entries.map PeakFinder.PowerChiplet.ofConfig)) utils)
      a.1 (layerGlobalStart + k) := by
  obtain ⟨e, he, hname, I, J, hat, hgroup⟩ := h.averaged_group hpower ha
  rw [assignedTo_iff h.chipletX_pos h.chipletY_pos h.spacing_nonneg]
  · constructor
    · intro hk
      exact ⟨_, mem_sortChiplets.mpr ⟨e, he, rfl⟩, hname.symm, I, J, hat, hgroup ▸ hk⟩
    · rintro ⟨c, hc, hcname, I', J', hat', hk⟩
      obtain ⟨e', he', rfl⟩ := mem_sortChiplets.mp hc
      -- The names of the configuration are distinct.
      have hsame : e' = e := List.inj_on_of_nodup_map config.nodup he' he (hcname.trans hname)
      subst hsame
      obtain ⟨rfl, rfl⟩ := hat.injective h.chipletX_pos h.chipletY_pos h.spacing_nonneg hat'
      rw [hgroup]
      exact hk
  · intro c hc
    obtain ⟨e', he', rfl⟩ := mem_sortChiplets.mp hc
    exact h.positionAt he'
  · intro c hc c' hc' hx hy
    obtain ⟨e', he', rfl⟩ := mem_sortChiplets.mp hc
    obtain ⟨e'', he'', rfl⟩ := mem_sortChiplets.mp hc'
    rw [h.eq_of_position he' he'' hx hy]

theorem length_powerChiplets (hpower : PowerLayer.new (layer.layerName, config) = .ok powerLayer) :
    powerLayer.powerChiplets.length = utils.numChipletX * utils.numChipletY := by
  have hpositions := congrArg List.length (powerChiplets_positions h.chipletX_pos h.chipletY_pos
    h.spacing_nonneg h.onePerPosition hpower)
  unfold gridPositions at hpositions
  rwa [List.length_map, length_flatMap_map, length_chipletSpans, length_chipletSpans] at hpositions

/-- Every chiplet of the configuration has its average. -/
theorem averagedNodes_names (hpower : PowerLayer.new (layer.layerName, config) = .ok powerLayer) :
    ((averagedNodes powerLayer utils xNodes yNodes).map Prod.fst).Perm config.keys := by
  have hcount : powerLayer.powerChiplets.length =
      (groups utils.numChipletX utils.numChipletY xNodes yNodes).length := by
    rw [length_groups, h.length_powerChiplets hpower]
  have hnames := (powerChiplets_perm hpower).map Prod.fst
  rw [List.map_map, List.map_map] at hnames
  unfold averagedNodes
  rw [map_fst_zipWith (·.name) hcount]
  exact hnames

/-- Every node of the layer is averaged once. -/
theorem averagedNodes_partition
    (hpower : PowerLayer.new (layer.layerName, config) = .ok powerLayer) :
    ((averagedNodes powerLayer utils xNodes yNodes).flatMap Prod.snd).Perm
      (List.range (utils.numChipletX * xNodes * (utils.numChipletY * yNodes))) := by
  have hcount : powerLayer.powerChiplets.length =
      (groups utils.numChipletX utils.numChipletY xNodes yNodes).length := by
    rw [length_groups, h.length_powerChiplets hpower]
  unfold averagedNodes
  rw [List.flatMap_def, map_snd_zipWith (fun c : PowerChiplet => c.name) hcount,
    ← groupedIndices_eq]
  exact groupedIndices_perm ..

/-- The averages are taken over the groups. -/
theorem mapTemperatureToBlk_eq {powerLayers : List BlockLayer}
    (hpower : PowerLayer.new (layer.layerName, config) = .ok powerLayer)
    (hfind : powerLayers.find? (fun p => decide (p.name = layer.layerName)) =
      some (BlockLayer.ofPowerLayer powerLayer))
    {totalSteps : ℕ} {temperatureAll : List (Fin totalSteps → ℚ)}
    (hrows : temperatureAll.length =
      utils.numChipletX * xNodes * (utils.numChipletY * yNodes)) :
    layer.mapTemperatureToBlk true utils powerLayers temperatureAll =
      .ok ((averagedNodes powerLayer utils xNodes yNodes).map fun a =>
        (a.1, meanRows (a.2.map fun k => temperatureAll.getD k 0))) := by
  have hsorted : (groupedIndices utils.numChipletX utils.numChipletY xNodes yNodes).mapM
      (temperatureRow temperatureAll) = .ok ((groups utils.numChipletX utils.numChipletY xNodes
        yNodes).map fun g => g.map fun k => temperatureAll.getD k 0).flatten := by
    rw [← List.map_flatten, ← groupedIndices_eq]
    refine mapM_ok fun k hk => ?_
    have hlt : k < temperatureAll.length := by
      rw [hrows]
      exact List.mem_range.mp ((groupedIndices_perm ..).mem_iff.mp hk)
    unfold temperatureRow
    rw [List.getElem?_eq_getElem hlt, List.getD_eq_getElem temperatureAll 0 hlt]
  have hlength : ∀ g ∈ (groups utils.numChipletX utils.numChipletY xNodes yNodes).map
      (fun g => g.map fun k => temperatureAll.getD k 0), g.length = xNodes * yNodes := by
    intro g hg
    obtain ⟨g', hg', rfl⟩ := List.mem_map.mp hg
    rw [List.length_map, length_of_mem_groups hg']
  unfold LayerGeometry.mapTemperatureToBlk
  rw [hfind]
  dsimp only
  rw [if_neg (by rw [h.underChiplet]; decide), if_pos rfl, if_neg (by rw [h.uniform]; decide),
    h.xNodes_eq, h.yNodes_eq]
  dsimp only
  rw [hsorted, ok_bind, sliceChiplets_flatten hlength]
  · unfold BlockLayer.ofPowerLayer averagedNodes
    rw [ok_bind, List.zipWith_map_left, List.zipWith_map_right, List.map_zipWith, List.map_zipWith]
    rfl
  · unfold BlockLayer.ofPowerLayer
    rw [List.length_map, length_groups, List.length_map, h.length_powerChiplets hpower]

end UniformChipletLayer

/-- **The chiplets of both programs.** In a uniform layer with one chiplet at each position of the
grid, the thermal model averages for each chiplet the nodes that the peak finder assigns to it, and
these sets partition the nodes of the layer. The peak finder builds the nodes the thermal model
makes, unless a chiplet has none. -/
theorem averaged_eq_assigned {powerConfig : PowerConfig} {config : LayerConfig}
    (h : UniformChipletLayer layer utils powerConfig config xNodes yNodes)
    {powerLayers : List PowerLayer}
    (hlayers : powerConfig.entries.mapM PowerLayer.new = .ok powerLayers)
    (layerGlobalStart : ℕ) :
    ∃ averaged : List (String × List ℕ),
      (∀ (totalSteps : ℕ) (temperatureAll : List (Fin totalSteps → ℚ)),
        temperatureAll.length = utils.numChipletX * xNodes * (utils.numChipletY * yNodes) →
        layer.mapTemperatureToBlk true utils (powerLayers.map BlockLayer.ofPowerLayer)
          temperatureAll = .ok (averaged.map fun a =>
            (a.1, meanRows (a.2.map fun k => temperatureAll.getD k 0)))) ∧
      (averaged.map Prod.fst).Perm config.keys ∧
      (averaged.flatMap Prod.snd).Perm
        (List.range (utils.numChipletX * xNodes * (utils.numChipletY * yNodes))) ∧
      (xNodes ≠ 0 → yNodes ≠ 0 →
        ∃ nodes, buildHomogeneousChipletLayerNodes layer utils = .ok nodes) ∧
      ∀ nodes, buildHomogeneousChipletLayerNodes layer utils = .ok nodes →
        nodes.map (·.localNodeId) =
          List.range (utils.numChipletX * xNodes * (utils.numChipletY * yNodes)) ∧
        (∀ (input : PackageInput) (material : Material) (thermalNodes : List Node),
          input.utils = utils → input.isHomogeneous = true →
          layer.makeNodes input material = .ok thermalNodes →
          nodes = numbered (thermalNodes.map rectOfNode)) ∧
        ∃ chiplets nodeMap,
          (buildPowerLayers powerConfig).get? layer.layerName = some chiplets ∧
          mapNodesToChiplets nodes layerGlobalStart chiplets utils true = .ok nodeMap ∧
          ∀ a ∈ averaged, ∀ k, k ∈ a.2 ↔ AssignedTo nodeMap a.1 (layerGlobalStart + k) := by
  obtain ⟨powerLayer, hpower, hfind⟩ := find?_powerLayers hlayers h.config_eq
  refine ⟨averagedNodes powerLayer utils xNodes yNodes, ?_, h.averagedNodes_names hpower,
    h.averagedNodes_partition hpower, ?_, ?_⟩
  · intro totalSteps temperatureAll hrows
    refine h.mapTemperatureToBlk_eq hpower ?_ hrows
    rw [List.find?_map]
    exact congrArg (Option.map BlockLayer.ofPowerLayer) hfind
  · intro hx hy
    exact ⟨_, buildHomogeneousChipletLayerNodes_ok h.uniform h.xNodes_eq h.yNodes_eq
      fun _ _ => ⟨hx, hy⟩⟩
  · intro nodes hnodes
    rw [buildHomogeneousChipletLayerNodes_ok h.uniform h.xNodes_eq h.yNodes_eq
      (nodes_ne_zero_of_build h.uniform h.xNodes_eq h.yNodes_eq hnodes)] at hnodes
    cases hnodes
    refine ⟨?_, ?_, _, _, ?_, rfl, fun a ha k => h.mem_averaged_iff hpower layerGlobalStart ha k⟩
    · have hlength : (productRects (xCells layer utils xNodes) (yCells layer utils yNodes)).length =
          utils.numChipletX * xNodes * (utils.numChipletY * yNodes) := by
        unfold productRects xCells yCells
        rw [length_flatMap_map, length_chipletCells, length_chipletCells, length_chipletSpans,
          length_chipletSpans]
      rw [map_localNodeId_numbered, hlength]
    · rintro input material thermalNodes rfl hhomogeneous hmake
      rw [makeNodes_rects h.underChiplet hhomogeneous h.uniform h.xNodes_eq h.yNodes_eq hmake]
    · unfold buildPowerLayers
      rw [Dict.get?_mapValues, h.config_eq]
      rfl

/-- Two chiplets of one node, named in the other order. -/
def twoChiplets : LayerConfig :=
  .ofList [("right", ⟨3, 0, none⟩), ("left", ⟨0, 0, none⟩)]

/-- A layer for them. -/
def twoChipletLayer : LayerGeometry where
  layerName := "chiplet"
  material := "silicon"
  thickness := 1
  uniform := true
  underChiplet := true
  xNodes := .count 1
  yNodes := .count 1
  startX := 0
  startY := 0
  startZ := 1

/-- A package for them. -/
def twoChipletUtils : Utils where
  packageXLen := 5
  packageYLen := 2
  packageZLen := 2
  chipletXLen := 2
  chipletYLen := 2
  chipletSpacing := 1
  numChipletX := 2
  numChipletY := 1
  topHtc := 1
  bottomHtc := 1

theorem averaged_eq_assigned_twoChiplets :
    ∃ (averaged : List (String × List ℕ)) (nodes : List NodeRect) (nodeMap : Dict ℕ NodeInfo),
      (averaged.map Prod.fst).Perm ["right", "left"] ∧
      (averaged.flatMap Prod.snd).Perm (List.range 2) ∧
      buildHomogeneousChipletLayerNodes twoChipletLayer twoChipletUtils = .ok nodes ∧
      mapNodesToChiplets nodes 7 (sortChiplets (twoChiplets.entries.map PowerChiplet.ofConfig))
        twoChipletUtils true = .ok nodeMap ∧
      ∀ a ∈ averaged, ∀ k, k ∈ a.2 ↔ AssignedTo nodeMap a.1 (7 + k) := by
  have h : UniformChipletLayer twoChipletLayer twoChipletUtils
      (.ofList [("chiplet", twoChiplets)]) twoChiplets 1 1 :=
    { underChiplet := rfl
      uniform := rfl
      xNodes_eq := rfl
      yNodes_eq := rfl
      chipletX_pos := by decide +kernel
      chipletY_pos := by decide +kernel
      spacing_nonneg := by decide +kernel
      config_eq := rfl
      onePerPosition := by
        unfold OnePerPosition
        decide +kernel }
  obtain ⟨averaged, -, hnames, hpartition, hbuild, hassigned⟩ :=
    averaged_eq_assigned h rfl 7
  obtain ⟨nodes, hnodes⟩ := hbuild one_ne_zero one_ne_zero
  obtain ⟨-, -, chiplets, nodeMap, hchiplets, hmap, hsame⟩ := hassigned nodes hnodes
  cases hchiplets
  exact ⟨averaged, nodes, nodeMap, hnames, hpartition, hnodes, hmap, hsame⟩

end Assigned

end Thermal

end ChipSim
