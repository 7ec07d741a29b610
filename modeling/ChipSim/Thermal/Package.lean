import Mathlib.Algebra.BigOperators.Group.List.Basic
import Mathlib.LinearAlgebra.Matrix.Adjugate
import ChipSim.Thermal.Layers

/-!
# The package of the thermal model

The layers lie on each other in the order of the geometry file. The package joins their arrays to
one matrix of conductances, keeps the non-zero entries of its rows, and solves for the temperatures
with one implicit step for each row of the power.
-/

namespace ChipSim

open Lib

namespace Thermal

/-! ## Layers -/

/-- `create_layers`: first the materials of all layers are looked up, then the nodes are made. -/
def createLayers (input : PackageInput) : Except PyError (List (List RcNode)) := do
  let layers ← input.layers.mapM fun layer => do
    return (layer, ← getItem input.materialProperties layer.material)
  layers.mapM fun e => e.1.createNodes input e.2

/-- One entry of `connect_layers`. -/
def sharedConductance (bottom top : NodeEntry) : ℚ :=
  let commonArea := calculateOverlappingArea bottom.xCordinate bottom.yCordinate top.xCordinate
    top.yCordinate bottom.xLength bottom.yLength top.xLength top.yLength
  if 0 < commonArea then
    commonArea * bottom.zConductance * top.zConductance /
      (bottom.zConductance * top.xyArea + top.zConductance * bottom.xyArea)
  else 0

/-- `connect_layers`: a row for each node of the bottom layer. -/
def connectLayers (top bottom : List NodeEntry) : List (List ℚ) :=
  bottom.map fun b => top.map fun t => sharedConductance b t

/-- `shared_conductance_list`. -/
def sharedConductanceList : List (List NodeEntry) → List (List (List ℚ))
  | bottom :: top :: layers => connectLayers top bottom :: sharedConductanceList (top :: layers)
  | _ => []

/-! ## The matrix of conductances -/

/-- `l[start:start + len(values)] = values`. -/
def setSlice {α : Type} (l : List α) (start : ℕ) (values : List α) : List α :=
  l.take start ++ values ++ l.drop (start + values.length)

/-- A row of the transposed matrix. -/
def transposedRow (m : List (List ℚ)) (i : ℕ) : List ℚ := m.map fun row => row.getD i 0

/-- The neighbour of a layer: its number of nodes, and the conductances to it. -/
abbrev Neighbour := ℕ × List (List ℚ)

/-- The layer below; the first layer has none. -/
def bottomNeighbour (layers : List (List NodeEntry)) (shared : List (List (List ℚ)))
    (layerIter : ℕ) : Except PyError (Option Neighbour) :=
  if layerIter = 0 then .ok none
  else do
    let bottom ← getIndex layers (layerIter - 1)
    let conductance ← getIndex shared (layerIter - 1)
    return some (bottom.length, conductance)

/-- The layer above; the last layer has none. For a single layer the first case of the source
comes first, and raises. -/
def topNeighbour (layers : List (List NodeEntry)) (shared : List (List (List ℚ)))
    (layerIter : ℕ) : Except PyError (Option Neighbour) :=
  if layerIter ≠ 0 ∧ layerIter = layers.length - 1 then .ok none
  else do
    let top ← getIndex layers (layerIter + 1)
    let conductance ← getIndex shared layerIter
    return some (top.length, conductance)

/-- The conductances to the layer below. -/
def setBottom (row : List ℚ) (layerGlobalIter : ℕ) (bottom : Option Neighbour)
    (layerNodeIter : ℕ) : List ℚ :=
  match bottom with
  | some (bottomLayerLength, conductance) =>
    setSlice row (layerGlobalIter - bottomLayerLength) (transposedRow conductance layerNodeIter)
  | none => row

/-- The conductances to the layer above, from the number of its first node. -/
def setTop (row : List ℚ) (start : ℕ) (top : Option Neighbour) (layerNodeIter : ℕ) : List ℚ :=
  match top with
  | some (_, conductance) => setSlice row start (conductance.getD layerNodeIter [])
  | none => row

/-- One row of `conductance_all` before the diagonal is added, with the convective conductance in
the last column. -/
def conductanceRow (totalNodes layerGlobalIter currentLayerLength : ℕ)
    (bottom top : Option Neighbour) (e : NodeEntry × ℕ) : List ℚ :=
  let row := (List.replicate (totalNodes + 1) 0).set totalNodes e.1.convectiveConductance
  let row := setSlice row layerGlobalIter e.1.xyConductance
  let row := setBottom row layerGlobalIter bottom e.2
  setTop row (layerGlobalIter + currentLayerLength) top e.2

/-- One pass of the loop over the layers. The state is the rows so far and `layer_global_iter`. -/
def addLayerRows (layers : List (List NodeEntry)) (shared : List (List (List ℚ)))
    (totalNodes : ℕ) (acc : List (List ℚ) × ℕ) (layerIter : ℕ) :
    Except PyError (List (List ℚ) × ℕ) := do
  let current ← getIndex layers layerIter
  let bottom ← bottomNeighbour layers shared layerIter
  let top ← topNeighbour layers shared layerIter
  return (acc.1 ++ current.zipIdx.map (conductanceRow totalNodes acc.2 current.length bottom top),
    acc.2 + current.length)

/-- `conductance_diag - conductance_all`: the sums of the rows on the diagonal, minus the rows
without their last column. -/
def subtractFromDiagonal (rows : List (List ℚ)) : List (List ℚ) :=
  rows.zipIdx.map fun e => e.1.dropLast.zipIdx.map fun c =>
    (if e.2 = c.2 then e.1.sum else 0) - c.1

/-- `package_total_nodes`. -/
def packageTotalNodes {α : Type} (layers : List (List α)) : ℕ := (layers.map List.length).sum

/-- The matrix `connect_nodes` assembles from the arrays of the layers. -/
def assembleConductance (layers : List (List NodeEntry)) : Except PyError (List (List ℚ)) := do
  let (rows, _) ← (List.range layers.length).foldlM
    (addLayerRows layers (sharedConductanceList layers) (packageTotalNodes layers)) ([], 0)
  return subtractFromDiagonal rows

/-- `connect_nodes` up to the compression: the arrays of the layers and the matrix. -/
def connectNodes (layers : List (List RcNode)) :
    Except PyError (List (List NodeEntry) × List (List ℚ)) := do
  let arrays ← layers.mapM layerConnectNodes
  let conductance ← assembleConductance arrays
  return (arrays, conductance)

/-! ## Compression -/

/-- The non-zero entries of the rows and their columns, each row padded to the longest. -/
structure Compressed where
  conductanceAll : List (List ℚ)
  nonZeroIndex : List (List ℕ)

/-- The non-zero entries of a row with their columns. -/
def nonZeroEntries (row : List ℚ) : List (ℚ × ℕ) := row.zipIdx.filter fun c => decide (c.1 ≠ 0)

/-- `row + [row[-1]] * (max_len - len(row))`. -/
def padIndex (maxLen : ℕ) (index : List ℕ) : Except PyError (List ℕ) :=
  match index.getLast? with
  | some last => .ok (index ++ List.replicate (maxLen - index.length) last)
  | none => .error (.indexError "list index out of range")

/-- The rows of `conductance_all` after the compression. -/
def padRow (maxLen : ℕ) (values : List ℚ) : List ℚ :=
  values ++ List.replicate (maxLen - values.length) 0

/-- The compression at the end of `connect_nodes`. -/
def compress (conductance : List (List ℚ)) : Except PyError Compressed := do
  let nonZero := conductance.map nonZeroEntries
  let maxLen ← maxOf (nonZero.map List.length)
  let index ← nonZero.mapM fun row => padIndex maxLen (row.map Prod.snd)
  return ⟨nonZero.map fun row => padRow maxLen (row.map Prod.fst), index⟩

/-- `_sparse_conductance_matrix`: entries with the same row and column add up. -/
def Compressed.sparseConductanceMatrix (c : Compressed) (totalNodes : ℕ) :
    Matrix (Fin totalNodes) (Fin totalNodes) ℚ := fun i j =>
  ((((c.conductanceAll.getD i []).zip (c.nonZeroIndex.getD i [])).filter fun e =>
    decide (e.1 ≠ 0) && decide (e.2 = j.val)).map Prod.fst).sum

/-! ## The transient solver -/

/-- `np.isclose(a, b, rtol=1e-9, atol=1e-12)`. -/
def isClose (a b : ℚ) : Prop := |a - b| ≤ 1 / 1000000000000 + 1 / 1000000000 * |b|

instance (a b : ℚ) : Decidable (isClose a b) := inferInstanceAs (Decidable (_ ≤ _))

/-- `factorized`, whichever way it solves, with exact solutions. -/
structure Factorization (n : ℕ) where
  factorized : Matrix (Fin n) (Fin n) ℚ → Except PyError ((Fin n → ℚ) → Fin n → ℚ)
  exact : ∀ A, A.det ≠ 0 → ∃ solve, factorized A = .ok solve ∧ ∀ b, A.mulVec (solve b) = b

/-- The inverse of the matrix. -/
def Factorization.adjugate (n : ℕ) : Factorization n where
  factorized A := if A.det = 0 then .error (.runtimeError "Factor is exactly singular")
    else .ok fun b => (A.det⁻¹ • A.adjugate).mulVec b
  exact A h := by
    refine ⟨_, if_neg h, fun b => ?_⟩
    rw [Matrix.mulVec_mulVec, Matrix.mul_smul, Matrix.mul_adjugate, smul_smul, inv_mul_cancel₀ h,
      one_smul, Matrix.one_mulVec]

/-- The compressed matrix and the inverse capacitances of a package with `n` nodes. -/
structure Solver (n : ℕ) where
  conductance : Compressed
  capacitanceInverse : Fin n → ℚ

/-- The matrix of a step. -/
def Solver.stepMatrix {n : ℕ} (s : Solver n) (dt : ℚ) : Matrix (Fin n) (Fin n) ℚ :=
  let systemMatrix := -(Matrix.diagonal s.capacitanceInverse *
    s.conductance.sparseConductanceMatrix n)
  1 - dt • systemMatrix

/-- One pass of the loop over the power. The state is the temperatures so far and the last ones. -/
def Solver.step {n : ℕ} (s : Solver n) (dt : ℚ) (solveStep : (Fin n → ℚ) → Fin n → ℚ)
    (acc : List (Fin n → ℚ) × (Fin n → ℚ)) (power : Fin n → ℚ) :
    List (Fin n → ℚ) × (Fin n → ℚ) :=
  let forcing := s.capacitanceInverse * power
  let state := solveStep (acc.2 + dt • forcing)
  (acc.1 ++ [state], state)

/-- `_run_transient_python`: the temperatures above the surroundings, the initial ones first. -/
def Solver.runTransientPython {n : ℕ} (s : Solver n) (lu : Factorization n)
    (power : List (Fin n → ℚ)) (dt powerInterval : ℚ) : Except PyError (List (Fin n → ℚ)) :=
  if ¬ isClose dt powerInterval then
    .error (.valueError ("Python transient thermal solving currently requires time_step and " ++
      s!"power_interval to match; got time_step={dt} and power_interval={powerInterval}."))
  else do
    let solveStep ← lu.factorized (s.stepMatrix dt)
    return (power.foldl (s.step dt solveStep) ([0], 0)).1

end Thermal

end ChipSim
