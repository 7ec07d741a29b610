import Mathlib.Algebra.Order.Ring.Rat
import ChipSim.PyError

/-!
# Nodes and layers of the thermal model

A layer of the package is cut into rectangular nodes. Each node gets its conductances in the three
directions, its capacitance, and the convection at the surface it lies on. The arrays of a layer
hold the conductances between its own nodes. Lengths are in millimetres.
-/

namespace ChipSim

open Lib

namespace Thermal

/-! ## Common functions -/

/-- A quotient of floats. -/
def divide (a b : ℚ) : Except PyError ℚ :=
  if b = 0 then .error (.zeroDivisionError "float division by zero") else .ok (a / b)

theorem divide_of_ne {a b : ℚ} (h : b ≠ 0) : divide a b = .ok (a / b) := if_neg h

theorem divide_eq_ok {a b c : ℚ} (h : divide a b = .ok c) : b ≠ 0 ∧ c = a / b := by
  unfold divide at h
  split at h
  · cases h
  · next hb => exact ⟨hb, (Except.ok.inj h).symm⟩

/-- `cal_conductance`. -/
def calConductance (thermalConductivity area thickness : ℚ) : Except PyError ℚ :=
  divide (thermalConductivity * area * 2) (thickness * 1000)

/-- `cal_convection_conductance`. -/
def calConvectionConductance (h area : ℚ) : ℚ := h * area / (1 * 1000000)

/-- `cal_thermal_capacitance`. -/
def calThermalCapacitance (specificHeat volume density : ℚ) : ℚ :=
  specificHeat * volume * density / 1000000000

/-- `calculate_overlapping_length`. -/
def calculateOverlappingLength (x1 x2 xLen1 xLen2 : ℚ) : ℚ :=
  max 0 (min (x1 + xLen1) (x2 + xLen2) - max x1 x2)

/-- `calculate_overlapping_area`. -/
def calculateOverlappingArea (x1 y1 x2 y2 xLen1 yLen1 xLen2 yLen2 : ℚ) : ℚ :=
  let xOverlap := max 0 (min (x1 + xLen1) (x2 + xLen2) - max x1 x2)
  let yOverlap := max 0 (min (y1 + yLen1) (y2 + yLen2) - max y1 y2)
  xOverlap * yOverlap

/-- The properties of the package, `Utils`. -/
structure Utils where
  packageXLen : ℚ
  packageYLen : ℚ
  packageZLen : ℚ
  chipletXLen : ℚ
  chipletYLen : ℚ
  chipletSpacing : ℚ
  numChipletX : ℕ
  numChipletY : ℕ
  topHtc : ℚ
  bottomHtc : ℚ

/-- A conductivity, which may depend on the direction. -/
inductive Conductivity
  | isotropic (k : ℚ)
  | directional (kx ky kz : ℚ)

/-- The conductivity in the direction of `x`. -/
def Conductivity.x : Conductivity → ℚ
  | .isotropic k => k
  | .directional kx _ _ => kx

/-- The conductivity in the direction of `y`. -/
def Conductivity.y : Conductivity → ℚ
  | .isotropic k => k
  | .directional _ ky _ => ky

/-- The conductivity in the direction of `z`. -/
def Conductivity.z : Conductivity → ℚ
  | .isotropic k => k
  | .directional _ _ kz => kz

/-- The properties of a material. -/
structure Material where
  thermalConductivity : Conductivity
  density : ℚ
  specificHeat : ℚ

/-! ## Nodes -/

/-- A node, with the material its thermal properties are set from. -/
structure Node where
  x : ℚ
  y : ℚ
  z : ℚ
  xLength : ℚ
  yLength : ℚ
  thickness : ℚ
  materialProperties : Material
  isPowerSrc : Bool := false

namespace Node

variable (n : Node)

/-- `get_volume`. -/
def getVolume : ℚ := n.xLength * n.yLength * n.thickness

/-- `get_area_xy`. -/
def getAreaXy : ℚ := n.xLength * n.yLength

/-- `get_area_xz`. -/
def getAreaXz : ℚ := n.xLength * n.thickness

/-- `get_area_yz`. -/
def getAreaYz : ℚ := n.yLength * n.thickness

end Node

/-- The surface of the package a node lies on. -/
inductive Boundary
  | zPlus
  | zMinus
deriving DecidableEq

/-- A node whose thermal properties are set. A node on a surface has a convection conductance. -/
structure RcNode extends Node where
  thermalConductanceX : ℚ
  thermalConductanceY : ℚ
  thermalConductanceZ : ℚ
  thermalCapacitance : ℚ
  boundaryCondition : Option (Boundary × ℚ) := none

/-- `set_thermal_properties`, with `set_thermal_capacitance` and `set_thermal_conductance`. -/
def Node.setThermalProperties (n : Node) : Except PyError RcNode := do
  let material := n.materialProperties
  let capacitance :=
    calThermalCapacitance material.specificHeat n.getVolume material.density
  let conductanceX ← calConductance material.thermalConductivity.x n.getAreaYz n.xLength
  let conductanceY ← calConductance material.thermalConductivity.y n.getAreaXz n.yLength
  let conductanceZ ← calConductance material.thermalConductivity.z n.getAreaXy n.thickness
  return {
    toNode := n
    thermalConductanceX := conductanceX
    thermalConductanceY := conductanceY
    thermalConductanceZ := conductanceZ
    thermalCapacitance := capacitance }

namespace RcNode

/-- `set_boundary_condition`. -/
def setBoundaryCondition (n : RcNode) (boundary : Option Boundary) (utils : Utils) : RcNode :=
  match boundary with
  | some .zPlus => { n with
      boundaryCondition := some (.zPlus, calConvectionConductance utils.topHtc n.getAreaXy) }
  | some .zMinus => { n with
      boundaryCondition := some (.zMinus, calConvectionConductance utils.bottomHtc n.getAreaXy) }
  | none => n

/-- The conductance through the common part of two faces, for half conductances `self` and `other`
of nodes whose faces have the lengths `selfLength` and `otherLength`. -/
def faceConductance (commonLen self other selfLength otherLength : ℚ) : Except PyError ℚ :=
  divide (commonLen * self * other) (self * otherLength + other * selfLength)

/-- `get_thermal_conductance_bw_nodes_of_same_layer`. -/
def getThermalConductanceBwNodesOfSameLayer (self node : RcNode) : Except PyError ℚ :=
  if |node.y + node.yLength - self.y| < 1 / 10000 then
    -- node can be below the current node y-
    faceConductance (calculateOverlappingLength self.x node.x self.xLength node.xLength)
      self.thermalConductanceY node.thermalConductanceY self.xLength node.xLength
  else if |node.y - self.yLength - self.y| < 1 / 10000 then
    -- node can be above the current node y+
    faceConductance (calculateOverlappingLength self.x node.x self.xLength node.xLength)
      self.thermalConductanceY node.thermalConductanceY self.xLength node.xLength
  else if |node.x + node.xLength - self.x| < 1 / 10000 then
    -- node can be to the left of the current node x-
    faceConductance (calculateOverlappingLength self.y node.y self.yLength node.yLength)
      self.thermalConductanceX node.thermalConductanceX self.yLength node.yLength
  else if |node.x - self.xLength - self.x| < 1 / 10000 then
    -- node can be to the right of the current node x+
    faceConductance (calculateOverlappingLength self.y node.y self.yLength node.yLength)
      self.thermalConductanceX node.thermalConductanceX self.yLength node.yLength
  else .ok 0

end RcNode

/-! ## The nodes of a layer -/

/-- `x_nodes` or `y_nodes` of a layer: a number of nodes, or their positions. -/
inductive NodeSpec
  | count (n : ℕ)
  | positions (l : List ℚ)

/-- A layer of the geometry file. -/
structure LayerGeometry where
  layerName : String
  material : String
  thickness : ℚ
  uniform : Bool
  underChiplet : Bool
  xNodes : NodeSpec
  yNodes : NodeSpec
  startX : ℚ
  startY : ℚ
  startZ : ℚ

/-- What the layers read of a chiplet of the power grid when the chiplets differ. -/
structure GridChiplet where
  chipletX : ℚ
  chipletY : ℚ
  lengthChipletX : ℚ
  lengthChipletY : ℚ
  nodesX : ℕ
  nodesY : ℕ
  material : Option String
  isPowerSrc : Bool

/-- A layer of the power grid. -/
structure GridLayer where
  name : String
  powerChiplets : List GridChiplet

/-- The input of the thermal network. -/
structure PackageInput where
  utils : Utils
  layers : List LayerGeometry
  materialProperties : Dict String Material
  isHomogeneous : Bool
  powerLayers : List GridLayer

/-- `calculate_length_for_non_uniform_nodes`: the length of a node and where it starts. -/
def calculateLengthForNonUniformNodes (iter : ℕ) (nodes : List ℚ)
    (startCordinates endCordinates : ℚ) : Except PyError (ℚ × ℚ) := do
  if iter = 0 then
    let here ← getIndex nodes iter
    let next ← getIndex nodes (iter + 1)
    return (here + ((here + next) / 2 - here), startCordinates)
  else if iter = nodes.length - 1 then
    let here ← getIndex nodes iter
    let before ← getIndex nodes (iter - 1)
    return (endCordinates - (here + startCordinates) + (here - (here + before) / 2),
      (here + before) / 2 + startCordinates)
  else
    let here ← getIndex nodes iter
    let next ← getIndex nodes (iter + 1)
    let before ← getIndex nodes (iter - 1)
    return ((here + next) / 2 - (here + before) / 2, (here + before) / 2 + startCordinates)

/-- Where the chiplets of a row start and end. -/
def chipletSpans (start length spacing : ℚ) : ℕ → List (ℚ × ℚ)
  | 0 => []
  | n + 1 => (start, start + length) :: chipletSpans (start + length + spacing) length spacing n

namespace LayerGeometry

variable (layer : LayerGeometry) (input : PackageInput)

/-- A node of the layer from its place in `x` and `y`, each a length and where it starts. -/
def node (material : Material) (x y : ℚ × ℚ) : Node where
  x := x.2
  y := y.2
  z := layer.startZ
  xLength := x.1
  yLength := y.1
  thickness := layer.thickness
  materialProperties := material

/-- Uniform nodes over the package. -/
def uniformNodes (material : Material) : Except PyError (List (List Node)) :=
  match layer.xNodes, layer.yNodes with
  | .positions _, _ => .error (.systemExit 1)
  | .count xNodes, .count yNodes => do
    let xLength ← divide (input.utils.packageXLen - 2 * layer.startX) xNodes
    let yLength ← divide (input.utils.packageYLen - 2 * layer.startY) yNodes
    return (List.range xNodes).map fun i => (List.range yNodes).map fun j =>
      layer.node material (xLength, i * xLength + layer.startX)
        (yLength, j * yLength + layer.startY)
  | .count xNodes, .positions _ => do
    let _ ← divide (input.utils.packageXLen - 2 * layer.startX) xNodes
    .error (.typeError "unsupported operand type(s) for /: 'float' and 'list'")

/-- Nodes at given positions of the package. -/
def nonUniformNodes (material : Material) : Except PyError (List (List Node)) :=
  match layer.xNodes, layer.yNodes with
  | .count _, _ => .error (.systemExit 1)
  | .positions xNodes, .positions yNodes =>
    (List.range xNodes.length).mapM fun i => do
      let x ← calculateLengthForNonUniformNodes i xNodes layer.startX
        (input.utils.packageXLen - layer.startX)
      (List.range yNodes.length).mapM fun j => do
        let y ← calculateLengthForNonUniformNodes j yNodes layer.startY
          (input.utils.packageYLen - layer.startY)
        return layer.node material x y
  | .positions _, .count _ => .error (.typeError "object of type 'int' has no len()")

/-- The spans of the chiplets in the direction of `x`. -/
def xSpans : List (ℚ × ℚ) :=
  chipletSpans layer.startX input.utils.chipletXLen input.utils.chipletSpacing
    input.utils.numChipletX

/-- The spans of the chiplets in the direction of `y`. -/
def ySpans : List (ℚ × ℚ) :=
  chipletSpans layer.startY input.utils.chipletYLen input.utils.chipletSpacing
    input.utils.numChipletY

/-- Nodes at given positions of every chiplet. The node `i`, `j` of the chiplet `i_chiplet`,
`j_chiplet` is put in the row `i_chiplet * len(x_nodes) + i`, so the loop over `j_chiplet` is inside
the one over `i` here. -/
def nonUniformChipletNodes (material : Material) : Except PyError (List (List Node)) :=
  match layer.xNodes, layer.yNodes with
  | .count _, _ => .error (.systemExit 1)
  | .positions xNodes, .positions yNodes => do
    let rows ← (layer.xSpans input).mapM fun xSpan =>
      (List.range xNodes.length).mapM fun i => do
        let parts ← (layer.ySpans input).mapM fun ySpan => do
          let x ← calculateLengthForNonUniformNodes i xNodes xSpan.1 xSpan.2
          (List.range yNodes.length).mapM fun j => do
            let y ← calculateLengthForNonUniformNodes j yNodes ySpan.1 ySpan.2
            return layer.node material x y
        return parts.flatten
    return rows.flatten
  | .positions _, .count _ => .error (.typeError "object of type 'int' has no len()")

/-- Uniform nodes of every chiplet, in rows as above. -/
def uniformChipletNodes (material : Material) : Except PyError (List (List Node)) :=
  match layer.xNodes, layer.yNodes with
  | .positions _, _ => .error (.systemExit 1)
  | .count xNodes, .count yNodes =>
    .ok ((layer.xSpans input).flatMap fun xSpan => (List.range xNodes).map fun i =>
      (layer.ySpans input).flatMap fun ySpan => (List.range yNodes).map fun j =>
        layer.node material
          ((xSpan.2 - xSpan.1) / xNodes, i * (xSpan.2 - xSpan.1) / xNodes + xSpan.1)
          ((ySpan.2 - ySpan.1) / yNodes, j * (ySpan.2 - ySpan.1) / yNodes + ySpan.1))
  | .count _, .positions _ =>
    .error (.typeError "'list' object cannot be interpreted as an integer")

/-- The nodes of one chiplet of the power grid. -/
def gridChipletNodes (layerMaterial : Material) (chiplet : GridChiplet) :
    Except PyError (List Node) := do
  let xLength ← divide chiplet.lengthChipletX chiplet.nodesX
  let yLength ← divide chiplet.lengthChipletY chiplet.nodesY
  let material ← match chiplet.material with
    | some name => getItem input.materialProperties name
    | none => pure layerMaterial
  return (List.range chiplet.nodesX).flatMap fun i => (List.range chiplet.nodesY).map fun j =>
    { layer.node material (xLength, chiplet.chipletX + i * xLength)
        (yLength, chiplet.chipletY + j * yLength) with
      isPowerSrc := chiplet.isPowerSrc }

/-- The nodes of the chiplets of the power layer with the name of this layer. -/
def gridNodes (layerMaterial : Material) : Except PyError (List Node) :=
  match input.powerLayers.find? fun powerLayer => decide (powerLayer.name = layer.layerName) with
  | none => .error (.systemExit 1)
  | some geometryLayer => do
    let parts ← geometryLayer.powerChiplets.mapM (layer.gridChipletNodes input layerMaterial)
    return parts.flatten

/-- The nodes `create_nodes` makes, in the order of their numbers: `nodes[i][j]` has the number
`i * total_y_nodes + j`. -/
def makeNodes (material : Material) : Except PyError (List Node) :=
  if !layer.underChiplet then
    if layer.uniform then (·.flatten) <$> layer.uniformNodes input material
    else (·.flatten) <$> layer.nonUniformNodes input material
  else if input.isHomogeneous then
    if !layer.uniform then (·.flatten) <$> layer.nonUniformChipletNodes input material
    else (·.flatten) <$> layer.uniformChipletNodes input material
  else layer.gridNodes input material

/-- The surface the layer lies on. -/
def boundary : Option Boundary :=
  if layer.startZ = 0 then some .zMinus
  else if layer.startZ + layer.thickness = input.utils.packageZLen then some .zPlus
  else none

/-- `create_nodes`. -/
def createNodes (material : Material) : Except PyError (List RcNode) := do
  let nodes ← layer.makeNodes input material
  nodes.mapM fun node => do
    let node ← node.setThermalProperties
    return node.setBoundaryCondition (layer.boundary input) input.utils

end LayerGeometry

/-! ## The arrays of a layer -/

/-- One entry of each array of a layer: those of one node. -/
structure NodeEntry where
  capacitance : ℚ
  xyConductance : List ℚ
  zConductance : ℚ
  xLength : ℚ
  yLength : ℚ
  xyArea : ℚ
  xCordinate : ℚ
  yCordinate : ℚ
  zPlusConductance : ℚ
  zMinusConductance : ℚ
deriving DecidableEq

/-- The conductance through a surface: the convection in series with the half of the node. -/
def RcNode.surfaceConductance (n : RcNode) (side : Boundary) : Except PyError ℚ :=
  match n.boundaryCondition with
  | some (boundary, convection) =>
    if boundary = side then
      divide (convection * n.thermalConductanceZ) (convection + n.thermalConductanceZ)
    else .ok 0
  | none => .ok 0

/-- One node of `connect_nodes`, with its number. -/
def connectNode (nodes : List RcNode) (e : RcNode × ℕ) : Except PyError NodeEntry := do
  let zPlus ← e.1.surfaceConductance .zPlus
  let zMinus ← e.1.surfaceConductance .zMinus
  let row ← nodes.zipIdx.mapM fun o =>
    if e.2 = o.2 then pure 0 else e.1.getThermalConductanceBwNodesOfSameLayer o.1
  return {
    capacitance := e.1.thermalCapacitance
    xyConductance := row
    zConductance := e.1.thermalConductanceZ
    xLength := e.1.xLength
    yLength := e.1.yLength
    xyArea := e.1.getAreaXy
    xCordinate := e.1.x
    yCordinate := e.1.y
    zPlusConductance := zPlus
    zMinusConductance := zMinus }

/-- `Layer_chiplet.connect_nodes`. -/
def layerConnectNodes (nodes : List RcNode) : Except PyError (List NodeEntry) :=
  nodes.zipIdx.mapM (connectNode nodes)

/-- One entry of `get_convective_conductance`. -/
def NodeEntry.convectiveConductance (e : NodeEntry) : ℚ :=
  e.zPlusConductance + e.zMinusConductance

end Thermal

end ChipSim
