import ChipSim.Lib.Grid
import ChipSim.Thermal.PeakFinder
import ChipSim.Thermal.Power

/-!
# The nodes of the peak finder

The peak finder puts the nodes of every chiplet into a grid and numbers the grid row by row. Each
cell of the grid is written once, with the product of a cell in the direction of `x` and one in the
direction of `y`, so the nodes are the ones the thermal model makes, in the same order.
-/

namespace ChipSim

open Lib

namespace Thermal

namespace PeakFinder

/-! ## Writes -/

/-- The rectangle of two cells, each a length and where it starts. -/
def rectOf (x y : ℚ × ℚ) : Rect := ⟨x.2, y.2, x.1, y.1⟩

/-- The rectangles of all pairs of cells, row by row. -/
def productRects (xs ys : List (ℚ × ℚ)) : List Rect := xs.flatMap fun x => ys.map (rectOf x)

/-- Writes to a grid, each a row, a column and a rectangle, one after the other. -/
def writeAll (grid : Grid) (ws : List (ℕ × ℕ × Rect)) : Grid :=
  ws.foldl (fun grid w => grid.set w.1 w.2.1 w.2.2) grid

/-- A cell holds the rectangle of the last write to it. -/
theorem writeAll_apply (ws : List (ℕ × ℕ × Rect)) (grid : Grid) (i j : ℕ) :
    writeAll grid ws i j =
      ws.foldl (fun t w => if i = w.1 ∧ j = w.2.1 then some w.2.2 else t) (grid i j) := by
  induction ws generalizing grid with
  | nil => rfl
  | cons w ws ih => exact ih (grid.set w.1 w.2.1 w.2.2)

theorem writeAll_eq {ws : List (ℕ × ℕ × Rect)} {grid : Grid} {i j : ℕ} {rect : Rect}
    (hmem : (i, j, rect) ∈ ws) (hsame : ∀ rect', (i, j, rect') ∈ ws → rect' = rect) :
    writeAll grid ws i j = some rect := by
  rw [writeAll_apply]
  obtain ⟨⟨i', j', rect'⟩, hw, ⟨rfl, rfl⟩, hlast⟩ | ⟨hnone, -⟩ :=
    foldl_overwrite (fun w : ℕ × ℕ × Rect => i = w.1 ∧ j = w.2.1) (fun w => some w.2.2) ws
      (grid i j)
  · rw [hlast, hsame rect' hw]
  · exact absurd ⟨rfl, rfl⟩ (hnone _ hmem)

/-! ## The grid of a layer -/

section Fill

variable {xSpans ySpans : List (ℚ × ℚ)} {xNodes yNodes : ℕ} {xCell yCell : ℚ × ℚ → ℕ → ℚ × ℚ}

/-- The cells of the chiplets in one direction, each cut into `n` cells. -/
def chipletCells (cell : ℚ × ℚ → ℕ → ℚ × ℚ) (n : ℕ) (spans : List (ℚ × ℚ)) : List (ℚ × ℚ) :=
  spans.flatMap fun span => (List.range n).map (cell span)

/-- The writes for one chiplet. -/
def chipletWrites (xNodes yNodes : ℕ) (xCell yCell : ℚ × ℚ → ℕ → ℚ × ℚ)
    (xSpan ySpan : (ℚ × ℚ) × ℕ) : List (ℕ × ℕ × Rect) :=
  (List.range xNodes).flatMap fun i => (List.range yNodes).map fun j =>
    (xSpan.2 * xNodes + i, ySpan.2 * yNodes + j, rectOf (xCell xSpan.1 i) (yCell ySpan.1 j))

/-- The writes for all chiplets. -/
def layerWrites (xNodes yNodes : ℕ) (xCell yCell : ℚ × ℚ → ℕ → ℚ × ℚ)
    (xSpans ySpans : List (ℚ × ℚ)) : List (ℕ × ℕ × Rect) :=
  xSpans.zipIdx.flatMap fun xSpan => ySpans.zipIdx.flatMap fun ySpan =>
    chipletWrites xNodes yNodes xCell yCell xSpan ySpan

theorem length_chipletCells (cell : ℚ × ℚ → ℕ → ℚ × ℚ) (n : ℕ) (spans : List (ℚ × ℚ)) :
    (chipletCells cell n spans).length = spans.length * n := by
  unfold chipletCells
  rw [length_flatMap_map, List.length_range]

theorem getElem?_chipletCells (cell : ℚ × ℚ → ℕ → ℚ × ℚ) {n : ℕ} {spans : List (ℚ × ℚ)} {I i : ℕ}
    {span : ℚ × ℚ} (hspan : spans[I]? = some span) (hi : i < n) :
    (chipletCells cell n spans)[I * n + i]? = some (cell span i) := by
  have h := getElem?_flatMap_map cell hspan (List.getElem?_range hi)
  rw [List.length_range] at h
  exact h

theorem mem_layerWrites {r c : ℕ} {rect : Rect} :
    (r, c, rect) ∈ layerWrites xNodes yNodes xCell yCell xSpans ySpans ↔
      ∃ I xSpan J ySpan, xSpans[I]? = some xSpan ∧ ySpans[J]? = some ySpan ∧
        ∃ i < xNodes, ∃ j < yNodes, r = I * xNodes + i ∧ c = J * yNodes + j ∧
          rect = rectOf (xCell xSpan i) (yCell ySpan j) := by
  unfold layerWrites chipletWrites
  constructor
  · intro h
    obtain ⟨xSpan, hx, h⟩ := List.mem_flatMap.mp h
    obtain ⟨ySpan, hy, h⟩ := List.mem_flatMap.mp h
    obtain ⟨i, hi, h⟩ := List.mem_flatMap.mp h
    obtain ⟨j, hj, h⟩ := List.mem_map.mp h
    cases h
    exact ⟨xSpan.2, xSpan.1, ySpan.2, ySpan.1, List.mem_zipIdx_iff_getElem?.mp hx,
      List.mem_zipIdx_iff_getElem?.mp hy, i, List.mem_range.mp hi, j, List.mem_range.mp hj, rfl,
      rfl, rfl⟩
  · rintro ⟨I, xSpan, J, ySpan, hx, hy, i, hi, j, hj, rfl, rfl, rfl⟩
    refine List.mem_flatMap.mpr ⟨(xSpan, I), List.mem_zipIdx_iff_getElem?.mpr hx, ?_⟩
    refine List.mem_flatMap.mpr ⟨(ySpan, J), List.mem_zipIdx_iff_getElem?.mpr hy, ?_⟩
    refine List.mem_flatMap.mpr ⟨i, List.mem_range.mpr hi, ?_⟩
    exact List.mem_map.mpr ⟨j, List.mem_range.mpr hj, rfl⟩

/-- Every place in the cells belongs to one cell of one chiplet. -/
theorem chipletCells_eq_some {cell : ℚ × ℚ → ℕ → ℚ × ℚ} {n : ℕ} {spans : List (ℚ × ℚ)} {r : ℕ}
    {x : ℚ × ℚ} (h : (chipletCells cell n spans)[r]? = some x) :
    ∃ I span i, spans[I]? = some span ∧ i < n ∧ r = I * n + i ∧ x = cell span i := by
  have hr : r < spans.length * n := by
    rw [← length_chipletCells cell n spans]
    exact (List.getElem?_eq_some_iff.mp h).1
  obtain ⟨hI, hi, hplace⟩ := place_eq hr
  have hspan := List.getElem?_eq_getElem hI
  have hcell := getElem?_chipletCells cell hspan hi
  rw [hplace, h] at hcell
  exact ⟨r / n, _, r % n, hspan, hi, hplace.symm, Option.some.inj hcell⟩

/-- The grid holds the product of the cells. -/
theorem writeAll_layerWrites {r c : ℕ} {x y : ℚ × ℚ}
    (hx : (chipletCells xCell xNodes xSpans)[r]? = some x)
    (hy : (chipletCells yCell yNodes ySpans)[c]? = some y) (grid : Grid) :
    writeAll grid (layerWrites xNodes yNodes xCell yCell xSpans ySpans) r c =
      some (rectOf x y) := by
  refine writeAll_eq (mem_layerWrites.mpr ?_) fun rect hrect => ?_
  · obtain ⟨I, xSpan, i, hxSpan, hi, hr, rfl⟩ := chipletCells_eq_some hx
    obtain ⟨J, ySpan, j, hySpan, hj, hc, rfl⟩ := chipletCells_eq_some hy
    exact ⟨I, xSpan, J, ySpan, hxSpan, hySpan, i, hi, j, hj, hr, hc, rfl⟩
  · obtain ⟨I, xSpan, J, ySpan, hxSpan, hySpan, i, hi, j, hj, rfl, rfl, rfl⟩ :=
      mem_layerWrites.mp hrect
    rw [getElem?_chipletCells xCell hxSpan hi] at hx
    rw [getElem?_chipletCells yCell hySpan hj] at hy
    rw [Option.some.inj hx, Option.some.inj hy]

theorem flattenGrid_ok {grid : Grid} {xs ys : List (ℚ × ℚ)}
    (hgrid : ∀ r c x y, xs[r]? = some x → ys[c]? = some y → grid r c = some (rectOf x y)) :
    flattenGrid xs.length ys.length grid = .ok (numbered (productRects xs ys)) := by
  have hrow : ∀ r ∈ List.range xs.length, ((List.range ys.length).mapM fun c => grid.get r c) =
      .ok ((List.range ys.length).map fun c => rectOf (xs.getD r 0) (ys.getD c 0)) := by
    intro r hr
    refine mapM_ok fun c hc => ?_
    unfold Grid.get
    rw [hgrid r c (xs.getD r 0) (ys.getD c 0) ?_ ?_]
    · rw [List.getElem?_eq_getElem (List.mem_range.mp hr),
        List.getD_eq_getElem xs 0 (List.mem_range.mp hr)]
    · rw [List.getElem?_eq_getElem (List.mem_range.mp hc),
        List.getD_eq_getElem ys 0 (List.mem_range.mp hc)]
  have hlist : ∀ l : List (ℚ × ℚ), (List.range l.length).map (fun k => l.getD k 0) = l := by
    intro l
    refine List.ext_getElem (by simp) fun k _ hk => ?_
    rw [List.getElem_map, List.getElem_range, List.getD_eq_getElem l 0 hk]
  unfold flattenGrid productRects
  rw [mapM_ok hrow, ok_bind]
  conv_rhs => rw [← hlist xs, ← hlist ys]
  rw [List.flatMap_map, List.flatMap_def]
  simp only [List.map_map]
  rfl

/-- A layer whose chiplets are all written. -/
theorem fillChiplets_flatten
    {fill : Grid → (ℚ × ℚ) × ℕ → (ℚ × ℚ) × ℕ → Except PyError Grid}
    (hfill : ∀ xSpan ∈ xSpans.zipIdx, ∀ ySpan ∈ ySpans.zipIdx, ∀ grid, fill grid xSpan ySpan =
      .ok (writeAll grid (chipletWrites xNodes yNodes xCell yCell xSpan ySpan))) :
    (do
      let grid ← fillChiplets fill xSpans ySpans
      flattenGrid (xNodes * xSpans.length) (yNodes * ySpans.length) grid) =
      .ok (numbered (productRects (chipletCells xCell xNodes xSpans)
        (chipletCells yCell yNodes ySpans))) := by
  have hgrid : fillChiplets fill xSpans ySpans =
      .ok (writeAll (fun _ _ => none) (layerWrites xNodes yNodes xCell yCell xSpans ySpans)) := by
    unfold fillChiplets
    rw [foldlM_eq_foldl _ fun xSpan hx grid => foldlM_eq_foldl grid fun ySpan hy grid =>
      hfill xSpan hx ySpan hy grid]
    unfold writeAll layerWrites
    rw [List.foldl_flatMap]
    simp only [List.foldl_flatMap]
  rw [hgrid, ok_bind, Nat.mul_comm xNodes, Nat.mul_comm yNodes,
    ← length_chipletCells xCell xNodes xSpans, ← length_chipletCells yCell yNodes ySpans]
  exact flattenGrid_ok fun r c x y hx hy => writeAll_layerWrites hx hy _

end Fill

theorem map_localNodeId_numbered (rects : List Rect) :
    (numbered rects).map (·.localNodeId) = List.range rects.length := by
  unfold numbered
  rw [List.map_map, List.range_eq_range', ← List.zipIdx_map_snd]
  rfl

theorem mem_numbered {rects : List Rect} {node : NodeRect} :
    node ∈ numbered rects ↔ rects[node.localNodeId]? = some node.toRect := by
  unfold numbered
  rw [List.mem_map]
  constructor
  · rintro ⟨e, he, rfl⟩
    exact List.mem_zipIdx_iff_getElem?.mp he
  · intro h
    exact ⟨(node.toRect, node.localNodeId), List.mem_zipIdx_iff_getElem?.mpr h, rfl⟩

theorem numbered_injective {rects : List Rect} {node node' : NodeRect} (h : node ∈ numbered rects)
    (h' : node' ∈ numbered rects) (hid : node.localNodeId = node'.localNodeId) : node = node' := by
  rw [mem_numbered] at h h'
  rw [hid, h'] at h
  cases node
  cases node'
  cases h
  cases hid
  rfl

theorem productRects_eq_some {xs ys : List (ℚ × ℚ)} {k : ℕ} {rect : Rect} :
    (productRects xs ys)[k]? = some rect ↔
      ∃ r x c y, xs[r]? = some x ∧ ys[c]? = some y ∧ k = r * ys.length + c ∧ rect = rectOf x y := by
  constructor
  · intro h
    have hk : k < xs.length * ys.length := by
      rw [← length_flatMap_map rectOf xs ys]
      exact (List.getElem?_eq_some_iff.mp h).1
    obtain ⟨hr, hc, hplace⟩ := place_eq hk
    have hx := List.getElem?_eq_getElem hr
    have hy := List.getElem?_eq_getElem hc
    have hrect := getElem?_flatMap_map rectOf hx hy
    rw [hplace] at hrect
    exact ⟨_, _, _, _, hx, hy, hplace.symm, Option.some.inj (h.symm.trans hrect)⟩
  · rintro ⟨r, x, c, y, hx, hy, rfl, rfl⟩
    exact getElem?_flatMap_map rectOf hx hy

/-- The rectangle of a node of the thermal model. -/
def rectOfNode (n : Node) : Rect := ⟨n.x, n.y, n.xLength, n.yLength⟩

theorem map_rectOfNode_product (layer : LayerGeometry) (material : Material)
    (xs ys : List (ℚ × ℚ)) :
    (xs.flatMap fun x => ys.map (layer.node material x)).map rectOfNode = productRects xs ys := by
  unfold productRects
  rw [List.map_flatMap]
  simp only [List.map_map]
  rfl

/-! ## Uniform chiplets -/

/-- Cell `i` of a span that is cut into `n` equal parts. -/
def uniformCell (n : ℕ) (span : ℚ × ℚ) (i : ℕ) : ℚ × ℚ :=
  ((span.2 - span.1) / n, span.1 + i * ((span.2 - span.1) / n))

theorem fillUniformChiplet_ok {xNodes yNodes : ℕ} (hx : xNodes ≠ 0) (hy : yNodes ≠ 0) (grid : Grid)
    (xSpan ySpan : (ℚ × ℚ) × ℕ) :
    fillUniformChiplet xNodes yNodes grid xSpan ySpan = .ok (writeAll grid
      (chipletWrites xNodes yNodes (uniformCell xNodes) (uniformCell yNodes) xSpan ySpan)) := by
  unfold fillUniformChiplet writeAll chipletWrites uniformCell rectOf
  rw [divide_of_ne (Nat.cast_ne_zero.mpr hx), divide_of_ne (Nat.cast_ne_zero.mpr hy)]
  simp only [ok_bind, pure_eq_ok, List.foldl_flatMap, List.foldl_map, add_comm]

/-- Without nodes in a direction the quotient is not defined. -/
theorem fillUniformChiplet_error {xNodes yNodes : ℕ} (h : xNodes = 0 ∨ yNodes = 0) (grid : Grid)
    (xSpan ySpan : (ℚ × ℚ) × ℕ) :
    fillUniformChiplet xNodes yNodes grid xSpan ySpan =
      .error (.zeroDivisionError "float division by zero") := by
  unfold fillUniformChiplet divide
  rcases h with rfl | rfl
  · simp
  · by_cases hx : (xNodes : ℚ) = 0 <;> simp [hx]

theorem length_chipletSpans (start length spacing : ℚ) (n : ℕ) :
    (chipletSpans start length spacing n).length = n := by
  induction n generalizing start with
  | zero => rfl
  | succ n ih => rw [chipletSpans, List.length_cons, ih]

section Uniform

variable {layer : LayerGeometry} {utils : Utils} {xNodes yNodes : ℕ}

/-- The cells of a uniform layer of chiplets in the direction of `x`. -/
def xCells (layer : LayerGeometry) (utils : Utils) (xNodes : ℕ) : List (ℚ × ℚ) :=
  chipletCells (uniformCell xNodes) xNodes
    (chipletSpans layer.startX utils.chipletXLen utils.chipletSpacing utils.numChipletX)

/-- The cells of a uniform layer of chiplets in the direction of `y`. -/
def yCells (layer : LayerGeometry) (utils : Utils) (yNodes : ℕ) : List (ℚ × ℚ) :=
  chipletCells (uniformCell yNodes) yNodes
    (chipletSpans layer.startY utils.chipletYLen utils.chipletSpacing utils.numChipletY)

/-- The nodes of a uniform layer of chiplets are built, unless there are chiplets without nodes. -/
theorem buildHomogeneousChipletLayerNodes_ok (huniform : layer.uniform = true)
    (hxNodes : layer.xNodes = .count xNodes) (hyNodes : layer.yNodes = .count yNodes)
    (hnodes : utils.numChipletX ≠ 0 → utils.numChipletY ≠ 0 → xNodes ≠ 0 ∧ yNodes ≠ 0) :
    buildHomogeneousChipletLayerNodes layer utils =
      .ok (numbered (productRects (xCells layer utils xNodes) (yCells layer utils yNodes))) := by
  unfold buildHomogeneousChipletLayerNodes
  dsimp only
  rw [if_pos huniform, hxNodes, hyNodes]
  dsimp only
  have hfill : ∀ xSpan ∈ (chipletSpans layer.startX utils.chipletXLen utils.chipletSpacing
      utils.numChipletX).zipIdx, ∀ ySpan ∈ (chipletSpans layer.startY utils.chipletYLen
      utils.chipletSpacing utils.numChipletY).zipIdx, ∀ grid,
      fillUniformChiplet xNodes yNodes grid xSpan ySpan = .ok (writeAll grid
        (chipletWrites xNodes yNodes (uniformCell xNodes) (uniformCell yNodes) xSpan ySpan)) := by
    intro xSpan hx ySpan hy grid
    have hX := List.length_pos_of_mem hx
    have hY := List.length_pos_of_mem hy
    rw [List.length_zipIdx, length_chipletSpans] at hX hY
    obtain ⟨hx0, hy0⟩ := hnodes hX.ne' hY.ne'
    exact fillUniformChiplet_ok hx0 hy0 grid xSpan ySpan
  have hflatten := fillChiplets_flatten hfill
  rw [length_chipletSpans, length_chipletSpans] at hflatten
  exact hflatten

/-- A layer whose nodes are built has nodes in its chiplets. -/
theorem nodes_ne_zero_of_build (huniform : layer.uniform = true)
    (hxNodes : layer.xNodes = .count xNodes) (hyNodes : layer.yNodes = .count yNodes)
    {nodes : List NodeRect} (h : buildHomogeneousChipletLayerNodes layer utils = .ok nodes)
    (hX : utils.numChipletX ≠ 0) (hY : utils.numChipletY ≠ 0) : xNodes ≠ 0 ∧ yNodes ≠ 0 := by
  by_contra hzero
  rw [not_and_or, not_not, not_not] at hzero
  unfold buildHomogeneousChipletLayerNodes at h
  dsimp only at h
  rw [if_pos huniform, hxNodes, hyNodes] at h
  dsimp only at h
  obtain ⟨grid, hgrid, -⟩ := bind_eq_ok.mp h
  obtain ⟨numX, hnumX⟩ := Nat.exists_eq_succ_of_ne_zero hX
  obtain ⟨numY, hnumY⟩ := Nat.exists_eq_succ_of_ne_zero hY
  rw [hnumX, hnumY] at hgrid
  unfold fillChiplets chipletSpans at hgrid
  simp only [List.zipIdx_cons, List.foldlM_cons, fillUniformChiplet_error hzero,
    error_bind] at hgrid
  cases hgrid

/-- The thermal model makes the same nodes. -/
theorem makeNodes_rects {input : PackageInput} {material : Material} {nodes : List Node}
    (hunder : layer.underChiplet = true) (hhomogeneous : input.isHomogeneous = true)
    (huniform : layer.uniform = true) (hxNodes : layer.xNodes = .count xNodes)
    (hyNodes : layer.yNodes = .count yNodes) (h : layer.makeNodes input material = .ok nodes) :
    nodes.map rectOfNode =
      productRects (xCells layer input.utils xNodes) (yCells layer input.utils yNodes) := by
  unfold LayerGeometry.makeNodes at h
  rw [hunder, hhomogeneous, huniform] at h
  obtain ⟨rows, hrows, rfl⟩ := map_eq_ok.mp h
  obtain ⟨xNodes', yNodes', hx, hy, hflat⟩ := LayerGeometry.uniformChipletNodes_eq hrows
  rw [hxNodes] at hx
  rw [hyNodes] at hy
  cases hx
  cases hy
  rw [hflat, map_rectOfNode_product]
  rfl

end Uniform

end PeakFinder

end Thermal

end ChipSim
