import Mathlib.Algebra.Group.Action.Pi
import ChipSim.Lib.Binning
import ChipSim.Lib.Fold
import ChipSim.Lib.Lists
import ChipSim.Thermal.Layers
import ChipSim.Thermal.PowerGrid

/-!
# The power of the nodes

A layer with power sources spreads the power of every block over the nodes it overlaps, in
proportion to the area in common. A node that the blocks do not cover stops the program; a block
that the nodes do not cover is not checked. So a block contributes the share of its power that
falls on nodes, and all of it exactly when the nodes tile the block, as the nodes of a uniform layer
do for every block inside the layer.
-/

namespace ChipSim

open Lib

namespace Thermal

/-! ## `get_power` -/

/-- A block with its `power_seq`, a fraction of `max_power` for each step. -/
structure SequencedBlock (totalSteps : ℕ) extends PowerBlock where
  powerSeq : Fin totalSteps → ℚ

/-- `get_area`. -/
def PowerBlock.getArea (b : PowerBlock) : ℚ := b.lengthX * b.lengthY

/-- What `get_power` reads of a power layer: the blocks of each of its chiplets. -/
structure SequencedLayer (totalSteps : ℕ) where
  name : String
  powerChiplets : List (List (SequencedBlock totalSteps))

/-- The area that a node and a block have in common. -/
def Node.overlapArea (node : Node) (b : PowerBlock) : ℚ :=
  calculateOverlappingArea node.x node.y b.x b.y node.xLength node.yLength b.lengthX b.lengthY

section GetPower

variable {totalSteps : ℕ}

/-- One pass of the loop over the blocks. The state is the area of the node that is left to cover
and its power. A block that overlaps a node has an area, so the quotient is defined. -/
def addBlock (node : Node) (acc : ℚ × (Fin totalSteps → ℚ)) (b : SequencedBlock totalSteps) :
    ℚ × (Fin totalSteps → ℚ) :=
  let overlapArea := node.overlapArea b.toPowerBlock
  if overlapArea > 0 then
    let nodeMaxPower := b.maxPower * overlapArea / b.getArea
    (acc.1 - overlapArea, acc.2 + nodeMaxPower • b.powerSeq)
  else acc

/-- The power of one node, which the blocks have to cover. -/
def nodePower (now : SequencedLayer totalSteps) (node : Node) :
    Except PyError (Fin totalSteps → ℚ) :=
  let covered := now.powerChiplets.foldl (fun acc blocks => blocks.foldl (addBlock node) acc)
    (node.getAreaXy, 0)
  if covered.1 > 1 / 10000 ∨ covered.1 < -(1 / 10000) then .error (.systemExit 1)
  else .ok covered.2

/-- The power layer of a given name, the last one if there are several. -/
def findPowerLayer (powerLayers : List (SequencedLayer totalSteps)) (name : String) :
    Option (SequencedLayer totalSteps) :=
  powerLayers.foldl (fun found powerLayer =>
    if powerLayer.name = name then some powerLayer else found) none

namespace LayerGeometry

variable (layer : LayerGeometry)

/-- The nodes that take power: under chiplets that differ, only those of chiplets with blocks. -/
def takesPower (isHomogeneous : Bool) (node : Node) : Bool :=
  !(layer.underChiplet && !isHomogeneous) || node.isPowerSrc

/-- `get_power`: the power of every node of the layer. -/
def getPower (isHomogeneous isPowerSrc : Bool) (nodes : List Node)
    (powerLayers : List (SequencedLayer totalSteps)) : Except PyError (List (Fin totalSteps → ℚ)) :=
  if !isPowerSrc then .ok (nodes.map fun _ => 0)
  else
    match findPowerLayer powerLayers layer.layerName with
    | none => .error (.systemExit 1)
    | some now => nodes.mapM fun node =>
      if layer.takesPower isHomogeneous node then nodePower now node else .ok 0

end LayerGeometry

/-! ## What a block contributes -/

/-- All blocks of a power layer. -/
def SequencedLayer.blocks (now : SequencedLayer totalSteps) : List (SequencedBlock totalSteps) :=
  now.powerChiplets.flatten

/-- The area of a block that the nodes have in common with it, counted once for each node. -/
def coveredArea (nodes : List Node) (b : PowerBlock) : ℚ := (nodes.map (·.overlapArea b)).sum

/-- The watts of a block at a step. -/
def SequencedBlock.wattsAt (b : SequencedBlock totalSteps) (t : Fin totalSteps) : ℚ :=
  b.maxPower * b.powerSeq t

theorem calculateOverlappingArea_eq (x1 y1 x2 y2 xLen1 yLen1 xLen2 yLen2 : ℚ) :
    calculateOverlappingArea x1 y1 x2 y2 xLen1 yLen1 xLen2 yLen2 =
      overlap x1 (x1 + xLen1) x2 (x2 + xLen2) * overlap y1 (y1 + yLen1) y2 (y2 + yLen2) :=
  rfl

theorem Node.overlapArea_nonneg (node : Node) (b : PowerBlock) : 0 ≤ node.overlapArea b := by
  unfold Node.overlapArea
  rw [calculateOverlappingArea_eq]
  exact mul_nonneg (overlap_nonneg ..) (overlap_nonneg ..)

/-- A block adds its watts in proportion to the area, none if there is no area in common. -/
theorem addBlock_power (node : Node) (acc : ℚ × (Fin totalSteps → ℚ))
    (b : SequencedBlock totalSteps) (t : Fin totalSteps) :
    (addBlock node acc b).2 t =
      acc.2 t + b.wattsAt t * (node.overlapArea b.toPowerBlock / b.getArea) := by
  unfold addBlock SequencedBlock.wattsAt
  dsimp only
  split
  · change acc.2 t + (b.maxPower * node.overlapArea b.toPowerBlock / b.getArea) * b.powerSeq t = _
    ring
  · next hnone =>
    have hzero := le_antisymm (not_lt.mp hnone) (node.overlapArea_nonneg b.toPowerBlock)
    rw [hzero, zero_div, mul_zero, add_zero]

theorem foldl_addBlock_power (node : Node) (blocks : List (SequencedBlock totalSteps))
    (acc : ℚ × (Fin totalSteps → ℚ)) (t : Fin totalSteps) :
    (blocks.foldl (addBlock node) acc).2 t = acc.2 t +
      (blocks.map fun b => b.wattsAt t * (node.overlapArea b.toPowerBlock / b.getArea)).sum := by
  induction blocks generalizing acc with
  | nil => simp
  | cons b blocks ih =>
    rw [List.foldl_cons, ih, addBlock_power, List.map_cons, List.sum_cons, add_assoc]

theorem nodePower_eq {now : SequencedLayer totalSteps} {node : Node} {power : Fin totalSteps → ℚ}
    (h : nodePower now node = .ok power) (t : Fin totalSteps) :
    power t = (now.blocks.map fun b =>
      b.wattsAt t * (node.overlapArea b.toPowerBlock / b.getArea)).sum := by
  unfold nodePower at h
  dsimp only at h
  split at h
  · cases h
  · cases h
    rw [← List.foldl_flatten, foldl_addBlock_power]
    exact zero_add _

/-- The power of every node, and none where a node takes no power. -/
theorem getPower_nodes {layer : LayerGeometry} {isHomogeneous : Bool} {nodes : List Node}
    {powerLayers : List (SequencedLayer totalSteps)} {now : SequencedLayer totalSteps}
    (hnow : findPowerLayer powerLayers layer.layerName = some now)
    {power : List (Fin totalSteps → ℚ)}
    (hpower : layer.getPower isHomogeneous true nodes powerLayers = .ok power)
    (t : Fin totalSteps) :
    power.map (· t) = nodes.map fun node =>
      if layer.takesPower isHomogeneous node then (now.blocks.map fun b =>
        b.wattsAt t * (node.overlapArea b.toPowerBlock / b.getArea)).sum else 0 := by
  unfold LayerGeometry.getPower at hpower
  rw [if_neg (by decide), hnow] at hpower
  dsimp only at hpower
  refine Eq.symm ?_
  rw [← List.forall₂_eq_eq_eq, List.forall₂_map_left_iff, List.forall₂_map_right_iff]
  refine forall₂_mapM hpower fun node _ p hp => ?_
  split at hp
  · next htakes => rw [if_pos htakes, nodePower_eq hp]
  · next htakes =>
    cases hp
    rw [if_neg htakes, Pi.zero_apply]

section Total

variable {layer : LayerGeometry} {isHomogeneous : Bool} {nodes : List Node}
  {powerLayers : List (SequencedLayer totalSteps)} {now : SequencedLayer totalSteps}
  {power : List (Fin totalSteps → ℚ)}

theorem getPower_sum (hnow : findPowerLayer powerLayers layer.layerName = some now)
    (hpower : layer.getPower isHomogeneous true nodes powerLayers = .ok power)
    (t : Fin totalSteps) :
    (power.map (· t)).sum = (now.blocks.map fun b => b.wattsAt t *
      (coveredArea (nodes.filter (layer.takesPower isHomogeneous)) b.toPowerBlock /
        b.getArea)).sum := by
  rw [getPower_nodes hnow hpower, sum_map_ite_zero, sum_sum_comm]
  refine congrArg List.sum (List.map_congr_left fun b _ => ?_)
  unfold coveredArea
  rw [List.sum_map_mul_left]
  simp only [div_eq_mul_inv, List.sum_map_mul_right, Bool.decide_eq_true]

/-- The nodes that take power tile a block: their areas in common with it add up to its area. -/
def Tiled (layer : LayerGeometry) (isHomogeneous : Bool) (nodes : List Node) (b : PowerBlock) :
    Prop :=
  b.getArea ≠ 0 ∧ coveredArea (nodes.filter (layer.takesPower isHomogeneous)) b = b.getArea

theorem getPower_sum_of_tiled (hnow : findPowerLayer powerLayers layer.layerName = some now)
    (hpower : layer.getPower isHomogeneous true nodes powerLayers = .ok power)
    (htiled : ∀ b ∈ now.blocks, Tiled layer isHomogeneous nodes b.toPowerBlock)
    (t : Fin totalSteps) :
    (power.map (· t)).sum = (now.blocks.map (·.wattsAt t)).sum := by
  rw [getPower_sum hnow hpower]
  refine congrArg List.sum (List.map_congr_left fun b hb => ?_)
  obtain ⟨harea, hcovered⟩ := htiled b hb
  rw [hcovered, div_self harea, mul_one]

/-- **Power of a layer.** Whenever the power of the nodes is returned, each block contributes at
every step the share of its watts that its area in common with the nodes is of its area. Nothing is
lost or counted twice when the nodes tile the blocks. -/
theorem getPower_total (hnow : findPowerLayer powerLayers layer.layerName = some now)
    (hpower : layer.getPower isHomogeneous true nodes powerLayers = .ok power)
    (t : Fin totalSteps) :
    (power.map (· t)).sum = (now.blocks.map fun b => b.wattsAt t *
        (coveredArea (nodes.filter (layer.takesPower isHomogeneous)) b.toPowerBlock /
          b.getArea)).sum ∧
      ((∀ b ∈ now.blocks, Tiled layer isHomogeneous nodes b.toPowerBlock) →
        (power.map (· t)).sum = (now.blocks.map (·.wattsAt t)).sum) :=
  ⟨getPower_sum hnow hpower t, fun htiled => getPower_sum_of_tiled hnow hpower htiled t⟩

end Total

end GetPower

/-- A layer of one node of a square millimetre. -/
def unitLayer : LayerGeometry where
  layerName := "chiplet"
  material := "silicon"
  thickness := 1
  uniform := true
  underChiplet := false
  xNodes := .count 1
  yNodes := .count 1
  startX := 0
  startY := 0
  startZ := 0

/-- The package of `unitLayer`. -/
def unitPackage : PackageInput where
  utils := ⟨1, 1, 1, 1, 1, 0, 1, 1, 1, 1⟩
  layers := [unitLayer]
  materialProperties := .empty
  isHomogeneous := true
  powerLayers := []

/-- A block of ten watts, a millimetre high and as wide as given. -/
def tenWatts (lengthX : ℚ) : SequencedBlock 1 where
  name := "b"
  x := 0
  y := 0
  lengthX := lengthX
  lengthY := 1
  maxPower := 10
  powerSeq := fun _ => 1

/-- The power of `unitLayer` when all of it comes from one block. -/
def unitPower (b : SequencedBlock 1) : Except PyError ℚ := do
  let nodes ← unitLayer.makeNodes unitPackage ⟨.isotropic 1, 1, 1⟩
  let power ← unitLayer.getPower true true nodes [⟨"chiplet", [[b]]⟩]
  return (power.map (· 0)).sum

/-- Three by two nodes of a square millimetre. -/
def sixNodes : LayerGeometry := { unitLayer with xNodes := .count 3, yNodes := .count 2 }

/-- The package of `sixNodes`. -/
def sixNodesPackage : PackageInput :=
  { unitPackage with
    utils := ⟨3, 2, 1, 3, 2, 0, 1, 1, 1, 1⟩
    layers := [sixNodes] }

/-- Two blocks of ten watts, which meet in the middle of the second column of nodes. -/
def twoBlocks : List (SequencedBlock 1) :=
  [{ tenWatts (3 / 2) with lengthY := 2 }, { tenWatts (3 / 2) with x := 3 / 2, lengthY := 2 }]

/-- The six nodes tile both blocks: all of the twenty watts arrive. -/
theorem getPower_total_sixNodes : ∃ nodes power,
    sixNodes.makeNodes sixNodesPackage ⟨.isotropic 1, 1, 1⟩ = .ok nodes ∧
      sixNodes.getPower true true nodes [⟨"chiplet", [twoBlocks]⟩] = .ok power ∧
        power.length = 6 ∧ (power.map (· 0)).sum = 20 := by
  have hrun : ∃ nodes ∈ (sixNodes.makeNodes sixNodesPackage ⟨.isotropic 1, 1, 1⟩).toOption,
      ∃ power ∈ (sixNodes.getPower true true nodes [⟨"chiplet", [twoBlocks]⟩]).toOption,
        power.length = 6 ∧ ∀ b ∈ twoBlocks, b.getArea ≠ 0 ∧
          coveredArea (nodes.filter (sixNodes.takesPower true)) b.toPowerBlock = b.getArea := by
    decide +kernel
  obtain ⟨nodes, hnodes, power, hpower, hlength, htiled⟩ := hrun
  have hpower := toOption_eq_some.mp hpower
  have hnow : findPowerLayer [⟨"chiplet", [twoBlocks]⟩] sixNodes.layerName =
      some ⟨"chiplet", [twoBlocks]⟩ := rfl
  refine ⟨nodes, power, toOption_eq_some.mp hnodes, hpower, hlength, ?_⟩
  rw [(getPower_total hnow hpower 0).2 htiled]
  decide +kernel

/-- The only node is covered by a block twice as wide, so the power is returned, and half of the
ten watts is lost. -/
theorem overhang_lost : unitPower (tenWatts 2) = .ok 5 ∧ (tenWatts 2).wattsAt 0 = 10 := by
  decide +kernel

/-! ## Nodes in rows and columns -/

/-- What an interval has in common with cells, each a length and where it starts. -/
def cellsOverlap (s e : ℚ) (cells : List (ℚ × ℚ)) : ℚ :=
  (cells.map fun c => overlap s e c.2 (c.2 + c.1)).sum

/-- The cells that cut a span into equal parts. -/
def equalCells (start length : ℚ) (count : ℕ) : List (ℚ × ℚ) :=
  (List.range count).map fun i : ℕ => (length / count, start + i * (length / count))

/-- Equal parts have in common with an interval what the whole span has. -/
theorem cellsOverlap_equalCells (s e start : ℚ) {length : ℚ} (hlength : 0 ≤ length) {count : ℕ}
    (hcount : count ≠ 0) :
    cellsOverlap s e (equalCells start length count) = overlap s e start (start + length) := by
  have hwhole : (count : ℚ) * (length / count) = length :=
    mul_div_cancel₀ length (Nat.cast_ne_zero.mpr hcount)
  have hsum := sum_overlap_cells (div_nonneg hlength (Nat.cast_nonneg count)) s e start count
  unfold cellsOverlap equalCells
  rw [List.map_map]
  rw [hwhole] at hsum
  exact hsum

theorem cellsOverlap_flatMap {α : Type*} (s e : ℚ) (l : List α) (cells : α → List (ℚ × ℚ)) :
    cellsOverlap s e (l.flatMap cells) = (l.map fun a => cellsOverlap s e (cells a)).sum := by
  unfold cellsOverlap
  rw [List.map_flatMap, List.flatMap_def, List.sum_flatten, List.map_map]
  rfl

/-- Nodes in rows and columns: the areas are products of the lengths in both directions. -/
theorem coveredArea_product (node : ℚ × ℚ → ℚ × ℚ → Node)
    (hnode : ∀ x y, (node x y).x = x.2 ∧ (node x y).y = y.2 ∧ (node x y).xLength = x.1 ∧
      (node x y).yLength = y.1) (xs ys : List (ℚ × ℚ)) (b : PowerBlock) :
    coveredArea (xs.flatMap fun x => ys.map (node x)) b =
      cellsOverlap b.x (b.x + b.lengthX) xs * cellsOverlap b.y (b.y + b.lengthY) ys := by
  have hcell : ∀ x y : ℚ × ℚ, (node x y).overlapArea b =
      overlap b.x (b.x + b.lengthX) x.2 (x.2 + x.1) *
        overlap b.y (b.y + b.lengthY) y.2 (y.2 + y.1) := by
    intro x y
    obtain ⟨hx, hy, hxLength, hyLength⟩ := hnode x y
    unfold Node.overlapArea
    rw [calculateOverlappingArea_eq, hx, hy, hxLength, hyLength, overlap_comm, overlap_comm y.2]
  unfold coveredArea cellsOverlap
  rw [List.map_flatMap, List.flatMap_def, List.sum_flatten, List.map_map]
  simp only [Function.comp_def, List.map_map, hcell, List.sum_map_mul_left, List.sum_map_mul_right]

/-- A block that has an area lies inside a rectangle. -/
structure PowerBlock.Inside (b : PowerBlock) (xSpan ySpan : ℚ × ℚ) : Prop where
  lengthX_pos : 0 < b.lengthX
  lengthY_pos : 0 < b.lengthY
  left : xSpan.1 ≤ b.x
  right : b.x + b.lengthX ≤ xSpan.2
  bottom : ySpan.1 ≤ b.y
  top : b.y + b.lengthY ≤ ySpan.2

theorem le_of_mem_chipletSpans {start length spacing : ℚ} (hlength : 0 ≤ length)
    (hspacing : 0 ≤ spacing) {n : ℕ} {span : ℚ × ℚ}
    (hspan : span ∈ chipletSpans start length spacing n) : start ≤ span.1 := by
  induction n generalizing start with
  | zero => cases hspan
  | succ n ih =>
    rcases List.mem_cons.mp hspan with rfl | hrest
    · exact le_rfl
    · exact le_trans (by linarith) (ih hrest)

theorem snd_of_mem_chipletSpans {start length spacing : ℚ} {n : ℕ} {span : ℚ × ℚ}
    (hspan : span ∈ chipletSpans start length spacing n) : span.2 = span.1 + length := by
  induction n generalizing start with
  | zero => cases hspan
  | succ n ih =>
    rcases List.mem_cons.mp hspan with rfl | hrest
    · rfl
    · exact ih hrest

/-- The spans of chiplets in a row do not overlap, so a part of one of them is counted once. -/
theorem sum_overlap_chipletSpans {s e : ℚ} (hse : s ≤ e) {start length spacing : ℚ}
    (hlength : 0 ≤ length) (hspacing : 0 ≤ spacing) {n : ℕ} {span : ℚ × ℚ}
    (hspan : span ∈ chipletSpans start length spacing n) (hs : span.1 ≤ s) (he : e ≤ span.2) :
    ((chipletSpans start length spacing n).map fun o => overlap s e o.1 o.2).sum = e - s := by
  induction n generalizing start with
  | zero => cases hspan
  | succ n ih =>
    rw [chipletSpans, List.map_cons, List.sum_cons]
    rcases List.mem_cons.mp hspan with rfl | hrest
    · -- The later spans begin after this one ends.
      have hzero : ((chipletSpans (start + length + spacing) length spacing n).map fun o =>
          overlap s e o.1 o.2).sum = 0 := by
        refine List.sum_eq_zero (List.forall_mem_map.mpr fun o ho => overlap_eq_zero_iff.mpr ?_)
        have hafter := le_of_mem_chipletSpans hlength hspacing ho
        exact (min_le_left _ _).trans (le_max_of_le_right (by dsimp only at he; linarith))
      rw [hzero, add_zero, overlap_comm, overlap_of_covers hse hs he]
    · have hafter := le_of_mem_chipletSpans hlength hspacing hrest
      have hzero : overlap s e start (start + length) = 0 :=
        overlap_eq_zero_iff.mpr ((min_le_right _ _).trans (le_max_of_le_left (by linarith)))
      rw [hzero, zero_add, ih hrest]

namespace LayerGeometry

variable {layer : LayerGeometry} {input : PackageInput} {material : Material}

/-- The cells of a uniform layer cut the layer into equal parts. -/
theorem uniformNodes_eq {rows : List (List Node)}
    (h : layer.uniformNodes input material = .ok rows) :
    ∃ xNodes yNodes : ℕ, xNodes ≠ 0 ∧ yNodes ≠ 0 ∧ rows.flatten =
      (equalCells layer.startX (input.utils.packageXLen - 2 * layer.startX) xNodes).flatMap
        fun x => (equalCells layer.startY (input.utils.packageYLen - 2 * layer.startY) yNodes).map
          (layer.node material x) := by
  unfold uniformNodes at h
  split at h
  · cases h
  · next xNodes yNodes _ _ =>
    obtain ⟨xLength, hx, h⟩ := bind_eq_ok.mp h
    obtain ⟨yLength, hy, h⟩ := bind_eq_ok.mp h
    obtain ⟨hx0, rfl⟩ := divide_eq_ok hx
    obtain ⟨hy0, rfl⟩ := divide_eq_ok hy
    cases h
    refine ⟨xNodes, yNodes, Nat.cast_ne_zero.mp hx0, Nat.cast_ne_zero.mp hy0, ?_⟩
    unfold equalCells
    rw [List.flatMap_map, List.flatMap_def]
    simp only [bind_pure_comp, List.map_eq_map, List.map_map, Function.comp_def, add_comm]
  · obtain ⟨_, _, h⟩ := bind_eq_ok.mp h
    cases h

/-- The cells of a layer of equal chiplets cut every chiplet into equal parts. -/
theorem uniformChipletNodes_eq {rows : List (List Node)}
    (h : layer.uniformChipletNodes input material = .ok rows) :
    ∃ xNodes yNodes : ℕ, layer.xNodes = .count xNodes ∧ layer.yNodes = .count yNodes ∧
      rows.flatten =
        ((layer.xSpans input).flatMap fun span =>
          equalCells span.1 (span.2 - span.1) xNodes).flatMap fun x =>
            ((layer.ySpans input).flatMap fun span =>
              equalCells span.1 (span.2 - span.1) yNodes).map (layer.node material x) := by
  unfold uniformChipletNodes at h
  split at h
  · cases h
  · next xNodes yNodes hx hy =>
    cases h
    refine ⟨xNodes, yNodes, hx, hy, ?_⟩
    unfold equalCells
    simp only [bind_pure_comp, List.map_eq_map, List.map_map, Function.comp_def,
      List.flatMap_assoc, List.flatMap_map, List.map_flatMap, mul_div_assoc,
      List.flatten_eq_flatMap, id, add_comm]
  · cases h

/-- The nodes of a chiplet of the power grid cut it into equal parts. -/
theorem gridChipletNodes_eq {layerMaterial : Material} {chiplet : GridChiplet}
    {nodes : List Node} (h : layer.gridChipletNodes input layerMaterial chiplet = .ok nodes) :
    ∃ material, chiplet.nodesX ≠ 0 ∧ chiplet.nodesY ≠ 0 ∧ nodes =
      (equalCells chiplet.chipletX chiplet.lengthChipletX chiplet.nodesX).flatMap fun x =>
        (equalCells chiplet.chipletY chiplet.lengthChipletY chiplet.nodesY).map fun y =>
          { layer.node material x y with isPowerSrc := chiplet.isPowerSrc } := by
  unfold gridChipletNodes at h
  obtain ⟨xLength, hxLength, h⟩ := bind_eq_ok.mp h
  obtain ⟨yLength, hyLength, h⟩ := bind_eq_ok.mp h
  obtain ⟨hx0, rfl⟩ := divide_eq_ok hxLength
  obtain ⟨hy0, rfl⟩ := divide_eq_ok hyLength
  dsimp only at h
  split at h <;> obtain ⟨material, _, h⟩ := bind_eq_ok.mp h <;> cases h <;>
    refine ⟨material, Nat.cast_ne_zero.mp hx0, Nat.cast_ne_zero.mp hy0, ?_⟩ <;>
    unfold equalCells <;>
    simp only [bind_pure_comp, List.map_eq_map, List.flatMap_map, List.map_map, Function.comp_def]

theorem gridChipletNodes_isPowerSrc {layerMaterial : Material} {chiplet : GridChiplet}
    {nodes : List Node} (h : layer.gridChipletNodes input layerMaterial chiplet = .ok nodes) :
    ∀ node ∈ nodes, node.isPowerSrc = chiplet.isPowerSrc := by
  obtain ⟨material, -, -, rfl⟩ := gridChipletNodes_eq h
  intro node hnode
  obtain ⟨x, -, hnode⟩ := List.mem_flatMap.mp hnode
  obtain ⟨y, -, rfl⟩ := List.mem_map.mp hnode
  rfl

theorem gridChipletNodes_covered {layerMaterial : Material} {chiplet : GridChiplet}
    {nodes : List Node} (h : layer.gridChipletNodes input layerMaterial chiplet = .ok nodes)
    (hx : 0 ≤ chiplet.lengthChipletX) (hy : 0 ≤ chiplet.lengthChipletY) (b : PowerBlock) :
    coveredArea nodes b = calculateOverlappingArea chiplet.chipletX chiplet.chipletY b.x b.y
      chiplet.lengthChipletX chiplet.lengthChipletY b.lengthX b.lengthY := by
  obtain ⟨material, hx0, hy0, rfl⟩ := gridChipletNodes_eq h
  rw [calculateOverlappingArea_eq, overlap_comm, overlap_comm chiplet.chipletY,
    coveredArea_product (fun x y =>
      { layer.node material x y with isPowerSrc := chiplet.isPowerSrc })
      fun _ _ => ⟨rfl, rfl, rfl, rfl⟩,
    cellsOverlap_equalCells _ _ _ hx hx0, cellsOverlap_equalCells _ _ _ hy hy0]

/-! ## Blocks inside the nodes -/

theorem filter_takesPower_of_homogeneous {isHomogeneous : Bool}
    (h : (layer.underChiplet && !isHomogeneous) = false) (nodes : List Node) :
    nodes.filter (layer.takesPower isHomogeneous) = nodes := by
  refine List.filter_eq_self.mpr fun node _ => ?_
  unfold takesPower
  rw [h]
  rfl

/-- A uniform layer tiles every block inside it. -/
theorem uniform_tiled (hunder : layer.underChiplet = false) (huniform : layer.uniform = true)
    {nodes : List Node} (hnodes : layer.makeNodes input material = .ok nodes)
    (isHomogeneous : Bool) {b : PowerBlock}
    (hb : b.Inside (layer.startX, input.utils.packageXLen - layer.startX)
      (layer.startY, input.utils.packageYLen - layer.startY)) :
    Tiled layer isHomogeneous nodes b := by
  unfold makeNodes at hnodes
  rw [if_pos (by rw [hunder]; rfl), if_pos huniform] at hnodes
  obtain ⟨rows, hrows, rfl⟩ := map_eq_ok.mp hnodes
  obtain ⟨xNodes, yNodes, hx0, hy0, hrows⟩ := uniformNodes_eq hrows
  obtain ⟨hlx, hly, hleft, hright, hbottom, htop⟩ := hb
  dsimp only at hleft hright hbottom htop
  refine ⟨(mul_pos hlx hly).ne', ?_⟩
  rw [filter_takesPower_of_homogeneous (by rw [hunder]; rfl), hrows,
    coveredArea_product (layer.node material) fun _ _ => ⟨rfl, rfl, rfl, rfl⟩,
    cellsOverlap_equalCells _ _ _ (by linarith) hx0,
    cellsOverlap_equalCells _ _ _ (by linarith) hy0, overlap_comm,
    overlap_of_covers (by linarith) hleft (by linarith), overlap_comm,
    overlap_of_covers (by linarith) hbottom (by linarith), add_sub_cancel_left,
    add_sub_cancel_left]
  rfl

theorem cellsOverlap_spans {s e : ℚ} (hse : s ≤ e) {start length spacing : ℚ}
    (hlength : 0 ≤ length) (hspacing : 0 ≤ spacing) {n count : ℕ} (hcount : count ≠ 0)
    {span : ℚ × ℚ} (hspan : span ∈ chipletSpans start length spacing n) (hs : span.1 ≤ s)
    (he : e ≤ span.2) :
    cellsOverlap s e ((chipletSpans start length spacing n).flatMap fun span =>
      equalCells span.1 (span.2 - span.1) count) = e - s := by
  rw [cellsOverlap_flatMap, ← sum_overlap_chipletSpans hse hlength hspacing hspan hs he]
  refine congrArg List.sum (List.map_congr_left fun o ho => ?_)
  have hend := snd_of_mem_chipletSpans ho
  rw [cellsOverlap_equalCells _ _ _ (by linarith) hcount, add_sub_cancel]

/-- A uniform layer of equal chiplets tiles every block inside a chiplet. -/
theorem uniformChiplets_tiled (hunder : layer.underChiplet = true)
    (hhomogeneous : input.isHomogeneous = true) (huniform : layer.uniform = true)
    (hxNodes : layer.xNodes ≠ .count 0) (hyNodes : layer.yNodes ≠ .count 0)
    (hchipletX : 0 ≤ input.utils.chipletXLen) (hchipletY : 0 ≤ input.utils.chipletYLen)
    (hspacing : 0 ≤ input.utils.chipletSpacing)
    {nodes : List Node} (hnodes : layer.makeNodes input material = .ok nodes) {b : PowerBlock}
    {xSpan ySpan : ℚ × ℚ} (hxSpan : xSpan ∈ layer.xSpans input)
    (hySpan : ySpan ∈ layer.ySpans input) (hb : b.Inside xSpan ySpan) :
    Tiled layer input.isHomogeneous nodes b := by
  unfold makeNodes at hnodes
  rw [if_neg (by rw [hunder]; decide), if_pos hhomogeneous, if_neg (by rw [huniform]; decide)]
    at hnodes
  obtain ⟨rows, hrows, rfl⟩ := map_eq_ok.mp hnodes
  obtain ⟨xNodes, yNodes, hx, hy, hrows⟩ := uniformChipletNodes_eq hrows
  have hx0 : xNodes ≠ 0 := fun h => hxNodes (h ▸ hx)
  have hy0 : yNodes ≠ 0 := fun h => hyNodes (h ▸ hy)
  have hlx := le_add_of_nonneg_right (a := b.x) hb.lengthX_pos.le
  have hly := le_add_of_nonneg_right (a := b.y) hb.lengthY_pos.le
  refine ⟨(mul_pos hb.lengthX_pos hb.lengthY_pos).ne', ?_⟩
  rw [filter_takesPower_of_homogeneous (by rw [hunder, hhomogeneous]; rfl), hrows,
    coveredArea_product (layer.node material) fun _ _ => ⟨rfl, rfl, rfl, rfl⟩]
  unfold xSpans at hxSpan ⊢
  unfold ySpans at hySpan ⊢
  rw [cellsOverlap_spans hlx hchipletX hspacing hx0 hxSpan hb.left hb.right,
    cellsOverlap_spans hly hchipletY hspacing hy0 hySpan hb.bottom hb.top, add_sub_cancel_left,
    add_sub_cancel_left]
  rfl

/-- The nodes of chiplets that differ have in common with a block what the chiplets with blocks
have. -/
theorem gridNodes_covered {geometryLayer : GridLayer}
    (hfind : input.powerLayers.find? (fun powerLayer =>
      decide (powerLayer.name = layer.layerName)) = some geometryLayer)
    (hlengths : ∀ c ∈ geometryLayer.powerChiplets, 0 ≤ c.lengthChipletX ∧ 0 ≤ c.lengthChipletY)
    {nodes : List Node} (hnodes : layer.gridNodes input material = .ok nodes) (b : PowerBlock) :
    coveredArea (nodes.filter (·.isPowerSrc)) b =
      ((geometryLayer.powerChiplets.filter (·.isPowerSrc)).map fun c =>
        calculateOverlappingArea c.chipletX c.chipletY b.x b.y c.lengthChipletX c.lengthChipletY
          b.lengthX b.lengthY).sum := by
  unfold gridNodes at hnodes
  rw [hfind] at hnodes
  obtain ⟨parts, hparts, hnodes⟩ := bind_eq_ok.mp hnodes
  cases hnodes
  have hpart : geometryLayer.powerChiplets.map (fun c => if c.isPowerSrc then
      calculateOverlappingArea c.chipletX c.chipletY b.x b.y c.lengthChipletX c.lengthChipletY
        b.lengthX b.lengthY else 0) =
      parts.map fun part => coveredArea (part.filter (·.isPowerSrc)) b := by
    rw [← List.forall₂_eq_eq_eq, List.forall₂_map_left_iff, List.forall₂_map_right_iff]
    refine forall₂_mapM hparts fun c hc part hpart => ?_
    obtain ⟨hx, hy⟩ := hlengths c hc
    have hsource := gridChipletNodes_isPowerSrc hpart
    split
    · next hsrc =>
      rw [List.filter_eq_self.mpr fun node hnode => (hsource node hnode).trans hsrc,
        gridChipletNodes_covered hpart hx hy]
    · next hsrc =>
      rw [List.filter_eq_nil_iff.mpr fun node hnode => hsource node hnode ▸ hsrc]
      rfl
  unfold coveredArea at hpart ⊢
  rw [List.filter_flatten, List.map_flatten, List.sum_flatten, List.map_map, List.map_map]
  simp only [Function.comp_def]
  rw [← hpart, sum_map_ite_zero]
  simp only [Bool.decide_eq_true]

/-- Chiplets that differ tile a block when those with blocks do. -/
theorem grid_tiled (hunder : layer.underChiplet = true) (hdiffer : input.isHomogeneous = false)
    {geometryLayer : GridLayer}
    (hfind : input.powerLayers.find? (fun powerLayer =>
      decide (powerLayer.name = layer.layerName)) = some geometryLayer)
    (hlengths : ∀ c ∈ geometryLayer.powerChiplets, 0 ≤ c.lengthChipletX ∧ 0 ≤ c.lengthChipletY)
    {nodes : List Node} (hnodes : layer.makeNodes input material = .ok nodes) {b : PowerBlock}
    (harea : b.getArea ≠ 0)
    (hb : ((geometryLayer.powerChiplets.filter (·.isPowerSrc)).map fun c =>
      calculateOverlappingArea c.chipletX c.chipletY b.x b.y c.lengthChipletX c.lengthChipletY
        b.lengthX b.lengthY).sum = b.getArea) :
    Tiled layer input.isHomogeneous nodes b := by
  unfold makeNodes at hnodes
  rw [if_neg (by rw [hunder]; decide), if_neg (by rw [hdiffer]; decide)] at hnodes
  have htakes : layer.takesPower input.isHomogeneous = fun node => node.isPowerSrc := by
    funext node
    unfold takesPower
    rw [hunder, hdiffer]
    rfl
  exact ⟨harea, by rw [htakes, gridNodes_covered hfind hlengths hnodes, hb]⟩

/-- Where the blocks of a layer belong: inside the layer, inside one of its equal chiplets, or on
chiplets of the power grid that tile them. -/
inductive Places (layer : LayerGeometry) (input : PackageInput) (b : PowerBlock) : Prop
  | layer (hunder : layer.underChiplet = false)
      (hb : b.Inside (layer.startX, input.utils.packageXLen - layer.startX)
        (layer.startY, input.utils.packageYLen - layer.startY))
  | chiplet (hunder : layer.underChiplet = true) (hhomogeneous : input.isHomogeneous = true)
      {xSpan ySpan : ℚ × ℚ} (hxSpan : xSpan ∈ layer.xSpans input)
      (hySpan : ySpan ∈ layer.ySpans input) (hb : b.Inside xSpan ySpan)
  | grid (hunder : layer.underChiplet = true) (hdiffer : input.isHomogeneous = false)
      {geometryLayer : GridLayer}
      (hfind : input.powerLayers.find? (fun powerLayer =>
        decide (powerLayer.name = layer.layerName)) = some geometryLayer)
      (hlengths : ∀ c ∈ geometryLayer.powerChiplets, 0 ≤ c.lengthChipletX ∧ 0 ≤ c.lengthChipletY)
      (harea : b.getArea ≠ 0)
      (hb : ((geometryLayer.powerChiplets.filter (·.isPowerSrc)).map fun c =>
        calculateOverlappingArea c.chipletX c.chipletY b.x b.y c.lengthChipletX c.lengthChipletY
          b.lengthX b.lengthY).sum = b.getArea)

/-- **No power is lost** in a uniform layer whose blocks are in their places. -/
theorem getPower_conserves (huniform : layer.uniform = true)
    (hxNodes : layer.xNodes ≠ .count 0) (hyNodes : layer.yNodes ≠ .count 0)
    (hchipletX : 0 ≤ input.utils.chipletXLen) (hchipletY : 0 ≤ input.utils.chipletYLen)
    (hspacing : 0 ≤ input.utils.chipletSpacing) {nodes : List Node}
    (hnodes : layer.makeNodes input material = .ok nodes) {totalSteps : ℕ}
    {powerLayers : List (SequencedLayer totalSteps)} {now : SequencedLayer totalSteps}
    (hnow : findPowerLayer powerLayers layer.layerName = some now)
    {power : List (Fin totalSteps → ℚ)}
    (hpower : layer.getPower input.isHomogeneous true nodes powerLayers = .ok power)
    (hplaces : ∀ b ∈ now.blocks, Places layer input b.toPowerBlock) (t : Fin totalSteps) :
    (power.map (· t)).sum = (now.blocks.map (·.wattsAt t)).sum := by
  refine getPower_sum_of_tiled hnow hpower (fun b hb => ?_) t
  cases hplaces b hb with
  | layer hunder hb => exact uniform_tiled hunder huniform hnodes _ hb
  | chiplet hunder hhomogeneous hxSpan hySpan hb =>
    exact uniformChiplets_tiled hunder hhomogeneous huniform hxNodes hyNodes hchipletX hchipletY
      hspacing hnodes hxSpan hySpan hb
  | grid hunder hdiffer hfind hlengths harea hb =>
    exact grid_tiled hunder hdiffer hfind hlengths hnodes harea hb

theorem getPower_conserves_sixNodes : ∃ nodes power,
    sixNodes.makeNodes sixNodesPackage ⟨.isotropic 1, 1, 1⟩ = .ok nodes ∧
      sixNodes.getPower true true nodes [⟨"chiplet", [twoBlocks]⟩] = .ok power ∧
        (power.map (· 0)).sum = 20 := by
  have hrun : ∃ nodes ∈ (sixNodes.makeNodes sixNodesPackage ⟨.isotropic 1, 1, 1⟩).toOption,
      (sixNodes.getPower true true nodes [⟨"chiplet", [twoBlocks]⟩]).toOption.isSome := by
    decide +kernel
  obtain ⟨nodes, hnodes, hsome⟩ := hrun
  obtain ⟨power, hpower⟩ := Option.isSome_iff_exists.mp hsome
  have hnodes := toOption_eq_some.mp hnodes
  have hpower := toOption_eq_some.mp hpower
  refine ⟨nodes, power, hnodes, hpower, ?_⟩
  have hnow : findPowerLayer [⟨"chiplet", [twoBlocks]⟩] sixNodes.layerName =
      some ⟨"chiplet", [twoBlocks]⟩ := rfl
  have hinside : ∀ b ∈ twoBlocks, 0 < b.lengthX ∧ 0 < b.lengthY ∧ 0 ≤ b.x ∧ b.x + b.lengthX ≤ 3 ∧
      0 ≤ b.y ∧ b.y + b.lengthY ≤ 2 := by decide +kernel
  have hplaces : ∀ b ∈ twoBlocks, Places sixNodes sixNodesPackage b.toPowerBlock := by
    intro b hb
    obtain ⟨hlx, hly, hleft, hright, hbottom, htop⟩ := hinside b hb
    exact .layer rfl ⟨hlx, hly, hleft, by simpa [sixNodesPackage, sixNodes, unitLayer] using hright,
      hbottom, by simpa [sixNodesPackage, sixNodes, unitLayer] using htop⟩
  rw [getPower_conserves rfl (by simp [sixNodes]) (by simp [sixNodes]) (by decide +kernel)
    (by decide +kernel) (by decide +kernel) hnodes hnow hpower hplaces 0]
  decide +kernel

end LayerGeometry

end Thermal

end ChipSim
