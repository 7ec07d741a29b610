import Mathlib.Data.List.GetD
import ChipSim.Lib.Binning
import ChipSim.Lib.Fold
import ChipSim.Thermal.Layers
import ChipSim.Thermal.PowerGrid

/-!
# The peak finder

After a run of the thermal model a second program looks for the highest temperature of every
chiplet. It does not call the thermal model: it builds the nodes of the chiplets' layers once more
from the geometry file, and gives a chiplet the nodes that overlap it.
-/

namespace ChipSim

open Lib

namespace Thermal

namespace PeakFinder

/-! ## Nodes and chiplets -/

/-- The rectangle of a node. Until `flatten_grid` numbers it, a node has the number `-1`, which is
not read. -/
structure Rect where
  xMm : ℚ
  yMm : ℚ
  widthMm : ℚ
  heightMm : ℚ
deriving DecidableEq

/-- `NodeRect`. -/
structure NodeRect extends Rect where
  localNodeId : ℕ
deriving DecidableEq

/-- `NodeInfo`. -/
structure NodeInfo extends NodeRect where
  chiplet : String
  globalNodeId : ℕ
deriving DecidableEq

/-- `PowerChiplet`, with the node counts of chiplets that differ. -/
structure PowerChiplet where
  name : String
  chipletX : ℚ
  chipletY : ℚ
  nodesX : Option ℕ := none
  nodesY : Option ℕ := none
deriving DecidableEq

/-- The chiplet of a configuration without node counts. -/
def PowerChiplet.ofConfig (e : String × ChipletConfig) : PowerChiplet where
  name := e.1
  chipletX := e.2.startChipletX
  chipletY := e.2.startChipletY

/-- The chiplets of a layer in the order of their `x`, then their `y`. -/
def sortChiplets (chiplets : List PowerChiplet) : List PowerChiplet :=
  (chiplets.insertionSort fun a b => a.chipletY ≤ b.chipletY).insertionSort
    fun a b => a.chipletX ≤ b.chipletX

/-- `build_power_layers` of a configuration without node counts. -/
def buildPowerLayers (powerConfig : PowerConfig) : Dict String (List PowerChiplet) :=
  powerConfig.mapValues fun _ layer => sortChiplets (layer.entries.map PowerChiplet.ofConfig)

/-! ## The nodes of a layer -/

/-- `calculate_length_for_non_uniform_node`. -/
def calculateLengthForNonUniformNode (index : ℕ) (nodes : List ℚ)
    (startCoordinate endCoordinate : ℚ) : Except PyError (ℚ × ℚ) := do
  if index = 0 then
    let here ← getIndex nodes index
    let next ← getIndex nodes (index + 1)
    return (here + ((here + next) / 2 - here), startCoordinate)
  else if index = nodes.length - 1 then
    let here ← getIndex nodes index
    let before ← getIndex nodes (index - 1)
    return (endCoordinate - (here + startCoordinate) + (here - (here + before) / 2),
      (here + before) / 2 + startCoordinate)
  else
    let here ← getIndex nodes index
    let next ← getIndex nodes (index + 1)
    let before ← getIndex nodes (index - 1)
    return ((here + next) / 2 - (here + before) / 2, (here + before) / 2 + startCoordinate)

/-- The nodes under construction, by row and column. -/
abbrev Grid := ℕ → ℕ → Option Rect

/-- `grid[i][j] = rect`. -/
def Grid.set (grid : Grid) (i j : ℕ) (rect : Rect) : Grid := fun i' j' =>
  if i' = i ∧ j' = j then some rect else grid i' j'

/-- Nodes numbered in the order of the list. -/
def numbered (rects : List Rect) : List NodeRect := rects.zipIdx.map fun e => ⟨e.1, e.2⟩

/-- `grid[i][j]` in `flatten_grid`. -/
def Grid.get (grid : Grid) (i j : ℕ) : Except PyError Rect :=
  match grid i j with
  | some rect => .ok rect
  | none => .error (.valueError s!"Missing generated node at grid index ({i}, {j})")

/-- `flatten_grid`. -/
def flattenGrid (totalX totalY : ℕ) (grid : Grid) : Except PyError (List NodeRect) := do
  let rows ← (List.range totalX).mapM fun i => (List.range totalY).mapM fun j => grid.get i j
  return numbered rows.flatten

/-- The nodes of one chiplet, cut into equal parts. The spans come with the number of the chiplet
in their direction. -/
def fillUniformChiplet (xNodes yNodes : ℕ) (grid : Grid) (xSpan ySpan : (ℚ × ℚ) × ℕ) :
    Except PyError Grid := do
  let xLength ← divide (xSpan.1.2 - xSpan.1.1) xNodes
  let yLength ← divide (ySpan.1.2 - ySpan.1.1) yNodes
  return (List.range xNodes).foldl (fun grid (i : ℕ) =>
    (List.range yNodes).foldl (fun grid (j : ℕ) =>
      grid.set (xSpan.2 * xNodes + i) (ySpan.2 * yNodes + j)
        ⟨i * xLength + xSpan.1.1, j * yLength + ySpan.1.1, xLength, yLength⟩) grid) grid

/-- The nodes of one chiplet at given positions. -/
def fillNonUniformChiplet (xNodes yNodes : List ℚ) (grid : Grid) (xSpan ySpan : (ℚ × ℚ) × ℕ) :
    Except PyError Grid :=
  (List.range xNodes.length).foldlM (fun grid i => do
    let x ← calculateLengthForNonUniformNode i xNodes xSpan.1.1 xSpan.1.2
    (List.range yNodes.length).foldlM (fun grid j => do
      let y ← calculateLengthForNonUniformNode j yNodes ySpan.1.1 ySpan.1.2
      return Grid.set grid (xSpan.2 * xNodes.length + i) (ySpan.2 * yNodes.length + j)
        ⟨x.2, y.2, x.1, y.1⟩) grid) grid

/-- The loops over the chiplets in both directions. -/
def fillChiplets (fill : Grid → (ℚ × ℚ) × ℕ → (ℚ × ℚ) × ℕ → Except PyError Grid)
    (xSpans ySpans : List (ℚ × ℚ)) : Except PyError Grid :=
  xSpans.zipIdx.foldlM (fun grid xSpan =>
    ySpans.zipIdx.foldlM (fun grid ySpan => fill grid xSpan ySpan) grid) fun _ _ => none

/-- `build_homogeneous_chiplet_layer_nodes`. -/
def buildHomogeneousChipletLayerNodes (layer : LayerGeometry) (utils : Utils) :
    Except PyError (List NodeRect) :=
  let xSpans := chipletSpans layer.startX utils.chipletXLen utils.chipletSpacing utils.numChipletX
  let ySpans := chipletSpans layer.startY utils.chipletYLen utils.chipletSpacing utils.numChipletY
  if layer.uniform then
    match layer.xNodes, layer.yNodes with
    | .count xNodes, .count yNodes => do
      let grid ← fillChiplets (fillUniformChiplet xNodes yNodes) xSpans ySpans
      flattenGrid (xNodes * utils.numChipletX) (yNodes * utils.numChipletY) grid
    | _, _ => .error (.typeError "'list' object cannot be interpreted as an integer")
  else
    match layer.xNodes, layer.yNodes with
    | .positions xNodes, .positions yNodes => do
      let grid ← fillChiplets (fillNonUniformChiplet xNodes yNodes) xSpans ySpans
      flattenGrid (xNodes.length * utils.numChipletX) (yNodes.length * utils.numChipletY) grid
    | _, _ => .error (.typeError "object of type 'int' has no len()")

/-! ## The nodes of a chiplet -/

/-- `overlap_area`. -/
def overlapArea (node : Rect) (chipletX chipletY chipletW chipletH : ℚ) : ℚ :=
  calculateOverlappingArea node.xMm node.yMm chipletX chipletY node.widthMm node.heightMm
    chipletW chipletH

/-- What is noted about a node of a chiplet. -/
def nodeInfo (layerGlobalStart : ℕ) (chiplet : PowerChiplet) (node : NodeRect) : NodeInfo where
  toNodeRect := node
  chiplet := chiplet.name
  globalNodeId := layerGlobalStart + node.localNodeId

/-- `node_map[global_id] = NodeInfo(...)`. -/
def assign (layerGlobalStart : ℕ) (chiplet : PowerChiplet) (nodeMap : Dict ℕ NodeInfo)
    (node : NodeRect) : Dict ℕ NodeInfo :=
  nodeMap.set (layerGlobalStart + node.localNodeId) (nodeInfo layerGlobalStart chiplet node)

/-- The chiplets take the nodes that overlap them. -/
def mapOverlapping (layerNodes : List NodeRect) (layerGlobalStart : ℕ)
    (chiplets : List PowerChiplet) (utils : Utils) : Dict ℕ NodeInfo :=
  chiplets.foldl (fun nodeMap chiplet => layerNodes.foldl (fun nodeMap node =>
    if overlapArea node.toRect chiplet.chipletX chiplet.chipletY utils.chipletXLen
        utils.chipletYLen ≤ 0 then nodeMap
    else assign layerGlobalStart chiplet nodeMap node) nodeMap) .empty

/-- The chiplets take as many nodes as they have, one after the other. The state is the map and the
number of the next node. -/
def mapConsecutive (layerNodes : List NodeRect) (layerGlobalStart : ℕ)
    (chiplets : List PowerChiplet) : Except PyError (Dict ℕ NodeInfo) := do
  let flatNodes : Dict ℕ NodeRect := .ofList (layerNodes.map fun node => (node.localNodeId, node))
  let (nodeMap, _) ← chiplets.foldlM (fun (acc : Dict ℕ NodeInfo × ℕ) chiplet => do
    match chiplet.nodesX, chiplet.nodesY with
    | some nodesX, some nodesY =>
      let nodeMap ← (List.range' acc.2 (nodesX * nodesY)).foldlM (fun nodeMap localId => do
        let node ← getItem flatNodes localId
        return assign layerGlobalStart chiplet nodeMap node) acc.1
      return (nodeMap, acc.2 + nodesX * nodesY)
    | _, _ => .error (.typeError "unsupported operand type(s) for *: 'NoneType' and 'NoneType'"))
    (.empty, 0)
  return nodeMap

/-- `map_nodes_to_chiplets`. -/
def mapNodesToChiplets (layerNodes : List NodeRect) (layerGlobalStart : ℕ)
    (chiplets : List PowerChiplet) (utils : Utils) (isHomogeneous : Bool) :
    Except PyError (Dict ℕ NodeInfo) :=
  if isHomogeneous then .ok (mapOverlapping layerNodes layerGlobalStart chiplets utils)
  else mapConsecutive layerNodes layerGlobalStart chiplets

/-! ## Nodes at given positions -/

/-- Where the cell of a node starts: halfway from the node before, and at the start of the extent
for the first one. The number after the last node gives the end of the extent. -/
def cellStart (nodes : List ℚ) (start stop : ℚ) (i : ℕ) : ℚ :=
  if i = 0 then start
  else if i = nodes.length then stop
  else (nodes.getD i 0 + nodes.getD (i - 1) 0) / 2 + start

/-- Both programs cut at the same places. -/
theorem calculateLengthForNonUniformNode_eq (index : ℕ) (nodes : List ℚ) (start stop : ℚ) :
    calculateLengthForNonUniformNode index nodes start stop =
      calculateLengthForNonUniformNodes index nodes start stop := rfl

theorem getIndex_of_lt {nodes : List ℚ} {i : ℕ} (h : i < nodes.length) :
    getIndex nodes i = .ok (nodes.getD i 0) := by
  rw [getIndex_eq_ok, List.getD_eq_getElem?_getD, List.getElem?_eq_getElem h, Option.getD_some]

/-- The cell of a node ends where the next one starts. -/
theorem calculateLengthForNonUniformNodes_ok {nodes : List ℚ} (hlength : 2 ≤ nodes.length)
    (start stop : ℚ) {i : ℕ} (hi : i < nodes.length) :
    calculateLengthForNonUniformNodes i nodes start stop =
      .ok (cellStart nodes start stop (i + 1) - cellStart nodes start stop i,
        cellStart nodes start stop i) := by
  unfold calculateLengthForNonUniformNodes cellStart
  rw [getIndex_of_lt hi, if_neg (Nat.succ_ne_zero i), Nat.add_sub_cancel]
  by_cases h0 : i = 0
  · subst h0
    rw [if_pos rfl, if_pos rfl, getIndex_of_lt (by omega), if_neg (by omega)]
    simp only [ok_bind, pure_eq_ok, Except.ok.injEq, Prod.mk.injEq, and_true]
    ring
  · rw [if_neg h0, if_neg h0, if_neg hi.ne, getIndex_of_lt (by omega : i - 1 < nodes.length)]
    by_cases hlast : i = nodes.length - 1
    · rw [if_pos hlast, if_pos (by omega)]
      simp only [ok_bind, pure_eq_ok, Except.ok.injEq, Prod.mk.injEq, and_true]
      ring
    · rw [if_neg hlast, if_neg (by omega), getIndex_of_lt (by omega : i + 1 < nodes.length)]
      simp only [ok_bind, pure_eq_ok, Except.ok.injEq, Prod.mk.injEq, and_true]
      ring

/-- Positions in order inside the extent give cells in order. -/
theorem cellStart_le_succ {nodes : List ℚ} (hsorted : nodes.Pairwise (· ≤ ·)) {start stop : ℚ}
    (hinside : ∀ p ∈ nodes, 0 ≤ p ∧ p ≤ stop - start) {i : ℕ} (hi : i < nodes.length) :
    cellStart nodes start stop i ≤ cellStart nodes start stop (i + 1) := by
  have hmem : ∀ {k : ℕ}, k < nodes.length → nodes.getD k 0 ∈ nodes := by
    intro k hk
    rw [List.getD_eq_getElem nodes 0 hk]
    exact List.getElem_mem hk
  have horder : ∀ {k l : ℕ}, k < l → l < nodes.length → nodes.getD k 0 ≤ nodes.getD l 0 := by
    intro k l hkl hl
    rw [List.getD_eq_getElem nodes 0 hl, List.getD_eq_getElem nodes 0 (hkl.trans hl)]
    exact List.pairwise_iff_getElem.mp hsorted k l (hkl.trans hl) hl hkl
  obtain ⟨hlow, hhigh⟩ := hinside _ (hmem hi)
  unfold cellStart
  rw [if_neg (Nat.succ_ne_zero i), Nat.add_sub_cancel]
  by_cases h0 : i = 0
  · rw [if_pos h0]
    split
    · linarith
    · have hnext := hinside _ (hmem (by omega : i + 1 < nodes.length))
      linarith [hnext.1]
  · rw [if_neg h0, if_neg hi.ne]
    have hbefore := horder (by omega : i - 1 < i) hi
    split
    · linarith
    · have hafter := horder (Nat.lt_succ_self i) (by omega)
      linarith

/-- **Nodes at given positions tile the extent.** Two or more positions in order, counted from the
start of the extent and inside it, give a cell each; the cells lie side by side from its start to
its end, and the peak finder computes the same ones. -/
theorem nonUniformCells_tile {nodes : List ℚ} (hlength : 2 ≤ nodes.length)
    (hsorted : nodes.Pairwise (· ≤ ·)) {startCordinates endCordinates : ℚ}
    (hinside : ∀ p ∈ nodes, 0 ≤ p ∧ p ≤ endCordinates - startCordinates) :
    ∃ cells : List (ℚ × ℚ), cells.length = nodes.length ∧
      (∀ iter < nodes.length, ∃ c, cells[iter]? = some c ∧
        calculateLengthForNonUniformNodes iter nodes startCordinates endCordinates = .ok c ∧
        calculateLengthForNonUniformNode iter nodes startCordinates endCordinates = .ok c) ∧
      Tiles startCordinates endCordinates cells := by
  have hfirst : cellStart nodes startCordinates endCordinates 0 = startCordinates := if_pos rfl
  have hlast : cellStart nodes startCordinates endCordinates nodes.length = endCordinates := by
    unfold cellStart
    rw [if_neg (by omega), if_pos rfl]
  have htiles := tiles_cutCells fun i hi => cellStart_le_succ hsorted hinside (i := i) hi
  rw [hfirst, hlast] at htiles
  refine ⟨_, length_cutCells _ _, fun iter hiter => ⟨_, getElem?_cutCells _ hiter, ?_⟩, htiles⟩
  have hcell := calculateLengthForNonUniformNodes_ok hlength startCordinates endCordinates hiter
  exact ⟨hcell, (calculateLengthForNonUniformNode_eq ..).trans hcell⟩

/-- Three nodes of an extent of five millimetres that starts at ten. -/
theorem nonUniformCells_tile_three :
    ∃ cells : List (ℚ × ℚ), cells.length = 3 ∧
      (∀ iter < 3, ∃ c, cells[iter]? = some c ∧
        calculateLengthForNonUniformNodes iter [1, 3, 4] 10 15 = .ok c ∧
        calculateLengthForNonUniformNode iter [1, 3, 4] 10 15 = .ok c) ∧
      Tiles 10 15 cells := by
  have hlength : 2 ≤ [(1 : ℚ), 3, 4].length := by decide
  exact nonUniformCells_tile hlength (by decide +kernel) (by decide +kernel)

end PeakFinder

end Thermal

end ChipSim
