import Mathlib.Algebra.Order.Field.Basic
import Mathlib.Tactic.Positivity
import Mathlib.Tactic.Ring
import ChipSim.Thermal.Package

/-!
# The arrays of a layer are sound

The conductance between two nodes of a layer does not depend on which of them is asked, and with
positive lengths and conductivities it is not negative. So the arrays of a layer are those of a
network: symmetric, not negative and without loops.
-/

namespace ChipSim

open Lib

namespace Thermal

/-! ## Nodes -/

/-- Positive lengths and conductivities. -/
structure Node.Positive (n : Node) : Prop where
  xLength : 0 < n.xLength
  yLength : 0 < n.yLength
  thickness : 0 < n.thickness
  conductivityX : 0 < n.materialProperties.thermalConductivity.x
  conductivityY : 0 < n.materialProperties.thermalConductivity.y
  conductivityZ : 0 < n.materialProperties.thermalConductivity.z

/-- What the conductances of a network need of a node. -/
structure RcNode.Conducting (n : RcNode) : Prop where
  xLength : 0 < n.xLength
  yLength : 0 < n.yLength
  conductanceX : 0 < n.thermalConductanceX
  conductanceY : 0 < n.thermalConductanceY
  conductanceZ : 0 < n.thermalConductanceZ
  convection : ∀ b ∈ n.boundaryCondition, 0 ≤ b.2

theorem calConductance_pos {k a t c : ℚ} (h : calConductance k a t = .ok c) (hk : 0 < k)
    (ha : 0 < a) (ht : 0 < t) : 0 < c := by
  obtain ⟨-, rfl⟩ := divide_eq_ok h
  positivity

theorem setThermalProperties_conducting {n : Node} {r : RcNode}
    (h : n.setThermalProperties = .ok r) :
    r.toNode = n ∧ r.boundaryCondition = none ∧ (n.Positive → r.Conducting) := by
  unfold Node.setThermalProperties at h
  obtain ⟨cx, hx, h⟩ := bind_eq_ok.mp h
  obtain ⟨cy, hy, h⟩ := bind_eq_ok.mp h
  obtain ⟨cz, hz, h⟩ := bind_eq_ok.mp h
  cases h
  refine ⟨rfl, rfl, fun hn => ?_⟩
  exact
    { xLength := hn.xLength
      yLength := hn.yLength
      conductanceX := calConductance_pos hx hn.conductivityX
        (mul_pos hn.yLength hn.thickness) hn.xLength
      conductanceY := calConductance_pos hy hn.conductivityY
        (mul_pos hn.xLength hn.thickness) hn.yLength
      conductanceZ := calConductance_pos hz hn.conductivityZ
        (mul_pos hn.xLength hn.yLength) hn.thickness
      convection := fun b hb => by cases hb }

theorem calConvectionConductance_nonneg {h area : ℚ} (hh : 0 ≤ h) (ha : 0 ≤ area) :
    0 ≤ calConvectionConductance h area := by
  unfold calConvectionConductance
  positivity

theorem setBoundaryCondition_toNode (n : RcNode) (b : Option Boundary) (utils : Utils) :
    (n.setBoundaryCondition b utils).toNode = n.toNode := by
  cases b with
  | none => rfl
  | some b => cases b <;> rfl

theorem RcNode.Conducting.setBoundaryCondition {n : RcNode} (h : n.Conducting)
    (boundary : Option Boundary) {utils : Utils} (htop : 0 ≤ utils.topHtc)
    (hbottom : 0 ≤ utils.bottomHtc) : (n.setBoundaryCondition boundary utils).Conducting := by
  have harea : 0 ≤ n.getAreaXy := (mul_pos h.xLength h.yLength).le
  cases boundary with
  | none => exact h
  | some b =>
    cases b with
    | zPlus =>
      refine { h with convection := fun b hb => ?_ }
      rw [← Option.some.inj hb]
      exact calConvectionConductance_nonneg htop harea
    | zMinus =>
      refine { h with convection := fun b hb => ?_ }
      rw [← Option.some.inj hb]
      exact calConvectionConductance_nonneg hbottom harea

theorem createNodes_conducting {layer : LayerGeometry} {input : PackageInput}
    {material : Material} {nodes : List RcNode}
    (h : layer.createNodes input material = .ok nodes) (htop : 0 ≤ input.utils.topHtc)
    (hbottom : 0 ≤ input.utils.bottomHtc) {n : RcNode} (hn : n ∈ nodes)
    (hpos : n.toNode.Positive) : n.Conducting := by
  unfold LayerGeometry.createNodes at h
  obtain ⟨made, -, h⟩ := bind_eq_ok.mp h
  obtain ⟨node, -, hnode⟩ := mem_mapM h hn
  obtain ⟨r, hr, hnode⟩ := bind_eq_ok.mp hnode
  cases hnode
  obtain ⟨hto, -, hcond⟩ := setThermalProperties_conducting hr
  rw [setBoundaryCondition_toNode, hto] at hpos
  exact (hcond hpos).setBoundaryCondition _ htop hbottom

theorem createLayers_conducting {input : PackageInput} {layers : List (List RcNode)}
    (h : createLayers input = .ok layers) (htop : 0 ≤ input.utils.topHtc)
    (hbottom : 0 ≤ input.utils.bottomHtc) {nodes : List RcNode} (hnodes : nodes ∈ layers)
    {n : RcNode} (hn : n ∈ nodes) (hpos : n.toNode.Positive) : n.Conducting := by
  unfold createLayers at h
  obtain ⟨found, -, h⟩ := bind_eq_ok.mp h
  obtain ⟨e, -, he⟩ := mem_mapM h hnodes
  exact createNodes_conducting he htop hbottom hn hpos

/-! ## Two nodes of a layer -/

theorem calculateOverlappingLength_comm (x1 x2 l1 l2 : ℚ) :
    calculateOverlappingLength x1 x2 l1 l2 = calculateOverlappingLength x2 x1 l2 l1 := by
  unfold calculateOverlappingLength
  rw [min_comm, max_comm x1]

theorem calculateOverlappingLength_nonneg (x1 x2 l1 l2 : ℚ) :
    0 ≤ calculateOverlappingLength x1 x2 l1 l2 := le_max_left _ _

namespace RcNode

theorem faceConductance_comm (c a b la lb : ℚ) :
    faceConductance c a b la lb = faceConductance c b a lb la := by
  unfold faceConductance
  rw [mul_right_comm c a b, add_comm (a * lb)]

theorem faceConductance_ok {c a b la lb : ℚ} (hc : 0 ≤ c) (ha : 0 < a) (hb : 0 < b) (hla : 0 < la)
    (hlb : 0 < lb) : ∃ v, faceConductance c a b la lb = .ok v ∧ 0 ≤ v := by
  have hden : 0 < a * lb + b * la := by positivity
  exact ⟨_, divide_of_ne hden.ne', by positivity⟩

/-- The node lies at the lower or upper side, within the tolerance. -/
def BesideY (n m : RcNode) : Prop :=
  |m.y + m.yLength - n.y| < 1 / 10000 ∨ |m.y - n.yLength - n.y| < 1 / 10000

/-- The node lies at the left or right side, within the tolerance. -/
def BesideX (n m : RcNode) : Prop :=
  |m.x + m.xLength - n.x| < 1 / 10000 ∨ |m.x - n.xLength - n.x| < 1 / 10000

instance (n m : RcNode) : Decidable (BesideY n m) := inferInstanceAs (Decidable (_ ∨ _))

instance (n m : RcNode) : Decidable (BesideX n m) := inferInstanceAs (Decidable (_ ∨ _))

/-- Below for one is above for the other. -/
theorem besideY_comm (n m : RcNode) : BesideY n m ↔ BesideY m n := by
  unfold BesideY
  rw [or_comm, abs_sub_comm (m.y - n.yLength), abs_sub_comm (m.y + m.yLength), sub_add_eq_sub_sub,
    show n.y - (m.y - n.yLength) = n.y + n.yLength - m.y by ring, sub_right_comm n.y]

theorem besideX_comm (n m : RcNode) : BesideX n m ↔ BesideX m n := by
  unfold BesideX
  rw [or_comm, abs_sub_comm (m.x - n.xLength), abs_sub_comm (m.x + m.xLength), sub_add_eq_sub_sub,
    show n.x - (m.x - n.xLength) = n.x + n.xLength - m.x by ring, sub_right_comm n.x]

/-- The two sides of a direction give the same conductance. -/
theorem getThermalConductance_eq (n m : RcNode) :
    n.getThermalConductanceBwNodesOfSameLayer m =
      if BesideY n m then
        faceConductance (calculateOverlappingLength n.x m.x n.xLength m.xLength)
          n.thermalConductanceY m.thermalConductanceY n.xLength m.xLength
      else if BesideX n m then
        faceConductance (calculateOverlappingLength n.y m.y n.yLength m.yLength)
          n.thermalConductanceX m.thermalConductanceX n.yLength m.yLength
      else .ok 0 := by
  unfold getThermalConductanceBwNodesOfSameLayer
  by_cases h₁ : |m.y + m.yLength - n.y| < 1 / 10000
  · rw [if_pos h₁, if_pos (.inl h₁)]
  by_cases h₂ : |m.y - n.yLength - n.y| < 1 / 10000
  · rw [if_neg h₁, if_pos h₂, if_pos (.inr h₂)]
  have hy : ¬ BesideY n m := not_or.mpr ⟨h₁, h₂⟩
  rw [if_neg h₁, if_neg h₂, if_neg hy]
  by_cases h₃ : |m.x + m.xLength - n.x| < 1 / 10000
  · rw [if_pos h₃, if_pos (.inl h₃)]
  by_cases h₄ : |m.x - n.xLength - n.x| < 1 / 10000
  · rw [if_neg h₃, if_pos h₄, if_pos (.inr h₄)]
  have hx : ¬ BesideX n m := not_or.mpr ⟨h₃, h₄⟩
  rw [if_neg h₃, if_neg h₄, if_neg hx]

/-- **The conductance between two nodes is symmetric**, also where the tolerance decides. -/
theorem getThermalConductance_comm (n m : RcNode) :
    n.getThermalConductanceBwNodesOfSameLayer m = m.getThermalConductanceBwNodesOfSameLayer n := by
  rw [getThermalConductance_eq, getThermalConductance_eq, calculateOverlappingLength_comm n.x,
    calculateOverlappingLength_comm n.y, faceConductance_comm _ n.thermalConductanceY,
    faceConductance_comm _ n.thermalConductanceX]
  simp only [besideY_comm n m, besideX_comm n m]

theorem Conducting.getThermalConductance_ok {n m : RcNode} (hn : n.Conducting)
    (hm : m.Conducting) : ∃ v, n.getThermalConductanceBwNodesOfSameLayer m = .ok v ∧ 0 ≤ v := by
  rw [getThermalConductance_eq]
  split
  · exact faceConductance_ok (calculateOverlappingLength_nonneg _ _ _ _) hn.conductanceY
      hm.conductanceY hn.xLength hm.xLength
  · split
    · exact faceConductance_ok (calculateOverlappingLength_nonneg _ _ _ _) hn.conductanceX
        hm.conductanceX hn.yLength hm.yLength
    · exact ⟨0, rfl, le_refl 0⟩

theorem Conducting.surfaceConductance_ok {n : RcNode} (h : n.Conducting) (side : Boundary) :
    ∃ v, n.surfaceConductance side = .ok v ∧ 0 ≤ v := by
  unfold surfaceConductance
  split
  · next boundary convection hb =>
    split
    · have hconv : 0 ≤ convection := h.convection _ hb
      have hz := h.conductanceZ
      have hden : 0 < convection + n.thermalConductanceZ := by positivity
      exact ⟨_, divide_of_ne hden.ne', by positivity⟩
    · exact ⟨0, rfl, le_refl 0⟩
  · exact ⟨0, rfl, le_refl 0⟩

end RcNode

/-! ## The arrays -/

/-- The value of a computation that does not raise. -/
def valueOf (x : Except PyError ℚ) : ℚ := x.toOption.getD 0

theorem valueOf_spec {x : Except PyError ℚ} (h : ∃ v, x = .ok v ∧ 0 ≤ v) :
    x = .ok (valueOf x) ∧ 0 ≤ valueOf x := by
  obtain ⟨v, rfl, hv⟩ := h
  exact ⟨rfl, hv⟩

/-- The entry of a node in the arrays of its layer. -/
def entryOf (nodes : List RcNode) (e : RcNode × ℕ) : NodeEntry where
  capacitance := e.1.thermalCapacitance
  xyConductance := nodes.zipIdx.map fun o =>
    if e.2 = o.2 then 0 else valueOf (e.1.getThermalConductanceBwNodesOfSameLayer o.1)
  zConductance := e.1.thermalConductanceZ
  xLength := e.1.xLength
  yLength := e.1.yLength
  xyArea := e.1.getAreaXy
  xCordinate := e.1.x
  yCordinate := e.1.y
  zPlusConductance := valueOf (e.1.surfaceConductance .zPlus)
  zMinusConductance := valueOf (e.1.surfaceConductance .zMinus)

theorem layerConnectNodes_ok {nodes : List RcNode} (h : ∀ n ∈ nodes, n.Conducting) :
    layerConnectNodes nodes = .ok (nodes.zipIdx.map (entryOf nodes)) := by
  refine mapM_ok fun e he => ?_
  have hn := h e.1 (List.fst_mem_of_mem_zipIdx he)
  have hrow : (nodes.zipIdx.mapM fun o =>
      if e.2 = o.2 then pure 0 else e.1.getThermalConductanceBwNodesOfSameLayer o.1) =
      Except.ok (entryOf nodes e).xyConductance := by
    refine mapM_ok fun o ho => ?_
    split
    · rfl
    · exact (valueOf_spec (hn.getThermalConductance_ok
        (h o.1 (List.fst_mem_of_mem_zipIdx ho)))).1
  unfold connectNode
  rw [(valueOf_spec (hn.surfaceConductance_ok .zPlus)).1, ok_bind,
    (valueOf_spec (hn.surfaceConductance_ok .zMinus)).1, ok_bind, hrow]
  rfl

/-- The arrays of a layer describe a network. -/
structure SoundLayer (layer : List NodeEntry) : Prop where
  rowLength : ∀ e ∈ layer, e.xyConductance.length = layer.length
  symm : ∀ (p q : ℕ) (e e' : NodeEntry), layer[p]? = some e → layer[q]? = some e' →
    e.xyConductance.getD q 0 = e'.xyConductance.getD p 0
  self : ∀ (p : ℕ) (e : NodeEntry), layer[p]? = some e → e.xyConductance.getD p 0 = 0
  nonneg : ∀ e ∈ layer, ∀ q, 0 ≤ e.xyConductance.getD q 0
  zConductance : ∀ e ∈ layer, 0 < e.zConductance
  xyArea : ∀ e ∈ layer, 0 < e.xyArea
  convective : ∀ e ∈ layer, 0 ≤ e.convectiveConductance

theorem getElem?_zipIdx_map {nodes : List RcNode} {f : RcNode × ℕ → NodeEntry} {p : ℕ}
    {e : NodeEntry}
    (h : (nodes.zipIdx.map f)[p]? = some e) : ∃ n, nodes[p]? = some n ∧ e = f (n, p) := by
  rw [List.getElem?_map, List.getElem?_zipIdx] at h
  cases hn : nodes[p]? with
  | none => simp [hn] at h
  | some n =>
    rw [hn] at h
    exact ⟨n, rfl, by simpa using h.symm⟩

theorem entryOf_xyConductance_getD {nodes : List RcNode} {q : ℕ} {m : RcNode}
    (hm : nodes[q]? = some m) (e : RcNode × ℕ) :
    (entryOf nodes e).xyConductance.getD q 0 =
      if e.2 = q then 0 else valueOf (e.1.getThermalConductanceBwNodesOfSameLayer m) := by
  unfold entryOf
  simp [List.getD_eq_getElem?_getD, hm]

/-- **Every layer of conducting nodes has sound arrays.** -/
theorem soundLayer_of_conducting {nodes : List RcNode} (h : ∀ n ∈ nodes, n.Conducting) :
    SoundLayer (nodes.zipIdx.map (entryOf nodes)) := by
  have hmem : ∀ e ∈ nodes.zipIdx.map (entryOf nodes), ∃ o ∈ nodes.zipIdx, o.1 ∈ nodes ∧
      e = entryOf nodes o := by
    intro e he
    obtain ⟨o, ho, rfl⟩ := List.mem_map.mp he
    exact ⟨o, ho, List.fst_mem_of_mem_zipIdx ho, rfl⟩
  constructor
  · intro e he
    obtain ⟨o, -, -, rfl⟩ := hmem e he
    simp [entryOf]
  · intro p q e e' he he'
    obtain ⟨n, hn, rfl⟩ := getElem?_zipIdx_map he
    obtain ⟨m, hm, rfl⟩ := getElem?_zipIdx_map he'
    rw [entryOf_xyConductance_getD hm, entryOf_xyConductance_getD hn, n.getThermalConductance_comm]
    simp only [eq_comm]
  · intro p e he
    obtain ⟨n, hn, rfl⟩ := getElem?_zipIdx_map he
    rw [entryOf_xyConductance_getD hn, if_pos rfl]
  · intro e he q
    obtain ⟨o, -, ho, rfl⟩ := hmem e he
    cases hm : nodes[q]? with
    | none =>
      have hnone : (entryOf nodes o).xyConductance[q]? = none := by
        simp [entryOf, List.getElem?_map, List.getElem?_zipIdx, hm]
      rw [List.getD_eq_getElem?_getD, hnone]
      exact le_refl 0
    | some m =>
      rw [entryOf_xyConductance_getD hm]
      split
      · exact le_refl 0
      · exact (valueOf_spec ((h _ ho).getThermalConductance_ok
          (h m (List.mem_of_getElem? hm)))).2
  · intro e he
    obtain ⟨o, -, ho, rfl⟩ := hmem e he
    exact (h _ ho).conductanceZ
  · intro e he
    obtain ⟨o, -, ho, rfl⟩ := hmem e he
    exact mul_pos (h _ ho).xLength (h _ ho).yLength
  · intro e he
    obtain ⟨o, -, ho, rfl⟩ := hmem e he
    exact add_nonneg (valueOf_spec ((h _ ho).surfaceConductance_ok .zPlus)).2
      (valueOf_spec ((h _ ho).surfaceConductance_ok .zMinus)).2

end Thermal

end ChipSim
