import Mathlib.Data.List.GetD
import ChipSim.Lib.Network
import ChipSim.Thermal.Conductance

/-!
# The conductance matrix is that of a network

The package joins the arrays of its layers: a node is connected to nodes of its own layer and to
those of the layers below and above, and the matrix of a layer pair is written twice, once
transposed. Seen from the nodes, every entry of `conductance_all` is one function of two places,
which is symmetric and not negative. So the assembled matrix is the matrix of a network whose
ground is the convection, for every number and kind of layers.
-/

namespace ChipSim

open Lib

namespace Thermal

/-! ## Places -/

/-- A node of the package: its layer, its number there, and its entry in the arrays. -/
structure Place where
  layer : ℕ
  number : ℕ
  entry : NodeEntry

/-- The places of layers numbered from `a`, in the order of the rows of the matrix. -/
def placesFrom (a : ℕ) : List (List NodeEntry) → List Place
  | [] => []
  | layer :: layers => (layer.zipIdx.map fun e => ⟨a, e.2, e.1⟩) ++ placesFrom (a + 1) layers

theorem placesFrom_append (a : ℕ) (l l' : List (List NodeEntry)) :
    placesFrom a (l ++ l') = placesFrom a l ++ placesFrom (a + l.length) l' := by
  induction l generalizing a with
  | nil => rfl
  | cons layer l ih =>
    simp only [List.cons_append, placesFrom, ih, List.append_assoc, List.length_cons]
    rw [Nat.add_assoc, Nat.add_comm 1]

theorem placesFrom_singleton (a : ℕ) (layer : List NodeEntry) :
    placesFrom a [layer] = layer.zipIdx.map fun e => ⟨a, e.2, e.1⟩ := by
  simp only [placesFrom, List.append_nil]

theorem map_placesFrom_singleton {a : ℕ} {layer : List NodeEntry} {f : Place → ℚ}
    {g : NodeEntry → ℚ} (h : ∀ q t, f ⟨a, q, t⟩ = g t) :
    (placesFrom a [layer]).map f = layer.map g := by
  apply List.ext_getElem?
  intro q
  rw [placesFrom_singleton, List.map_map, List.getElem?_map, List.getElem?_map,
    List.getElem?_zipIdx]
  cases layer[q]? with
  | none => rfl
  | some t => exact congrArg some (h _ t)

@[simp] theorem length_placesFrom (a : ℕ) (layers : List (List NodeEntry)) :
    (placesFrom a layers).length = packageTotalNodes layers := by
  induction layers generalizing a with
  | nil => rfl
  | cons layer layers ih =>
    simp only [placesFrom, List.length_append, List.length_map, List.length_zipIdx, ih]
    rfl

theorem packageTotalNodes_append {α : Type} (l l' : List (List α)) :
    packageTotalNodes (l ++ l') = packageTotalNodes l + packageTotalNodes l' := by
  unfold packageTotalNodes
  rw [List.map_append, List.sum_append]

theorem packageTotalNodes_singleton {α : Type} (layer : List α) :
    packageTotalNodes [layer] = layer.length := by
  unfold packageTotalNodes
  rw [List.map_singleton, List.sum_singleton]

theorem packageTotalNodes_cons {α : Type} (layer : List α) (layers : List (List α)) :
    packageTotalNodes (layer :: layers) = layer.length + packageTotalNodes layers := by
  unfold packageTotalNodes
  rw [List.map_cons, List.sum_cons]

/-- A place is in one of the layers. -/
theorem mem_placesFrom {a : ℕ} {layers : List (List NodeEntry)} {x : Place}
    (h : x ∈ placesFrom a layers) : a ≤ x.layer ∧ ∃ layer, layers[x.layer - a]? = some layer ∧
      layer[x.number]? = some x.entry := by
  induction layers generalizing a with
  | nil => exact absurd h List.not_mem_nil
  | cons layer layers ih =>
    rcases List.mem_append.mp h with h | h
    · obtain ⟨e, he, rfl⟩ := List.mem_map.mp h
      refine ⟨le_refl a, layer, ?_, List.mem_zipIdx_iff_getElem?.mp he⟩
      rw [Nat.sub_self, List.getElem?_cons_zero]
    · obtain ⟨hle, l, hl, hx⟩ := ih h
      refine ⟨by omega, l, ?_, hx⟩
      rw [show x.layer - a = x.layer - (a + 1) + 1 by omega, List.getElem?_cons_succ]
      exact hl

theorem lt_of_mem_placesFrom {a : ℕ} {layers : List (List NodeEntry)} {x : Place}
    (h : x ∈ placesFrom a layers) : x.layer < a + layers.length := by
  obtain ⟨hle, l, hl, -⟩ := mem_placesFrom h
  have hlt := (List.getElem?_eq_some_iff.mp hl).1
  omega

/-- The conductance between two places. -/
def link (x y : Place) : ℚ :=
  if x.layer = y.layer then x.entry.xyConductance.getD y.number 0
  else if y.layer = x.layer + 1 then sharedConductance x.entry y.entry
  else if x.layer = y.layer + 1 then sharedConductance y.entry x.entry
  else 0

theorem link_same {x y : Place} (h : x.layer = y.layer) :
    link x y = x.entry.xyConductance.getD y.number 0 := if_pos h

theorem link_above {x y : Place} (h : y.layer = x.layer + 1) :
    link x y = sharedConductance x.entry y.entry := by
  unfold link
  rw [if_neg (by omega), if_pos h]

theorem link_below {x y : Place} (h : x.layer = y.layer + 1) :
    link x y = sharedConductance y.entry x.entry := by
  unfold link
  rw [if_neg (by omega), if_neg (by omega), if_pos h]

theorem link_far {x y : Place} (h : x.layer + 1 < y.layer ∨ y.layer + 1 < x.layer) :
    link x y = 0 := by
  unfold link
  rw [if_neg (by omega), if_neg (by omega), if_neg (by omega)]

theorem map_link_far {x : Place} {l : List Place}
    (h : ∀ y ∈ l, x.layer + 1 < y.layer ∨ y.layer + 1 < x.layer) :
    l.map (link x) = List.replicate l.length 0 := by
  rw [List.eq_replicate_iff]
  refine ⟨List.length_map _, fun v hv => ?_⟩
  obtain ⟨y, hy, rfl⟩ := List.mem_map.mp hv
  exact link_far (h y hy)

/-! ## Slices -/

theorem setSlice_append {α : Type} {A B values : List α} (h : values.length = B.length)
    (C : List α) :
    setSlice (A ++ (B ++ C)) A.length values = A ++ (values ++ C) := by
  unfold setSlice
  rw [h, List.take_left, ← List.append_assoc A B C, ← List.length_append, List.drop_left,
    List.append_assoc]

theorem replicate_set_last (n : ℕ) (v : ℚ) :
    (List.replicate (n + 1) 0).set n v = List.replicate n 0 ++ [v] := by
  induction n with
  | zero => rfl
  | succ n ih =>
    rw [List.replicate_succ, List.set_cons_succ, ih, List.replicate_succ, List.cons_append]

/-! ## The neighbours of a layer -/

theorem sharedConductanceList_append (before : List (List NodeEntry))
    (bottom top : List NodeEntry) (after : List (List NodeEntry)) :
    (sharedConductanceList (before ++ bottom :: top :: after))[before.length]? =
      some (connectLayers top bottom) := by
  induction before with
  | nil => rfl
  | cons layer before ih =>
    cases before with
    | nil => rfl
    | cons layer' before =>
      simp only [List.cons_append, sharedConductanceList, List.length_cons,
        List.getElem?_cons_succ] at ih ⊢
      exact ih

/-- What is known of the layers below `current`. -/
def BottomOf (before : List (List NodeEntry)) (current : List NodeEntry)
    (bottom : Option Neighbour) : Prop :=
  (before = [] ∧ bottom = none) ∨ ∃ before' b, before = before' ++ [b] ∧
    bottom = some (b.length, connectLayers current b)

/-- What is known of the layers above `current`. -/
def TopOf (after : List (List NodeEntry)) (current : List NodeEntry)
    (top : Option Neighbour) : Prop :=
  (after = [] ∧ top = none) ∨ ∃ t after', after = t :: after' ∧
    top = some (t.length, connectLayers t current)

section Neighbours

variable {before after : List (List NodeEntry)} {current : List NodeEntry}

theorem bottomNeighbour_ok (before after : List (List NodeEntry)) (current : List NodeEntry) :
    ∃ bottom, bottomNeighbour (before ++ current :: after)
      (sharedConductanceList (before ++ current :: after)) before.length = .ok bottom ∧
      BottomOf before current bottom := by
  rcases List.eq_nil_or_concat' before with rfl | ⟨before', b, rfl⟩
  · exact ⟨none, rfl, .inl ⟨rfl, rfl⟩⟩
  · refine ⟨some (b.length, connectLayers current b), ?_, .inr ⟨before', b, rfl, rfl⟩⟩
    have happ : before' ++ [b] ++ current :: after = before' ++ b :: current :: after := by
      rw [List.append_assoc, List.singleton_append]
    have hlen : (before' ++ [b]).length - 1 = before'.length := by
      rw [List.length_append, List.length_singleton, Nat.add_sub_cancel]
    unfold bottomNeighbour
    rw [if_neg (by simp), hlen, happ,
      getIndex_eq_ok.mpr (by rw [List.getElem?_append_right (le_refl _), Nat.sub_self]; rfl),
      ok_bind, getIndex_eq_ok.mpr (sharedConductanceList_append before' b current after), ok_bind]
    rfl

theorem topNeighbour_ok (htwo : 2 ≤ (before ++ current :: after).length) :
    ∃ top, topNeighbour (before ++ current :: after)
      (sharedConductanceList (before ++ current :: after)) before.length = .ok top ∧
      TopOf after current top := by
  unfold topNeighbour
  cases after with
  | nil =>
    refine ⟨none, if_pos ?_, .inl ⟨rfl, rfl⟩⟩
    simp only [List.length_append, List.length_singleton] at htwo ⊢
    omega
  | cons t after =>
    refine ⟨some (t.length, connectLayers t current), ?_, .inr ⟨t, after, rfl, rfl⟩⟩
    rw [if_neg (by simp only [List.length_append, List.length_cons]; omega),
      getIndex_eq_ok.mpr (by
        rw [List.getElem?_append_right (Nat.le_add_right _ 1), Nat.add_sub_cancel_left]; rfl),
      ok_bind, getIndex_eq_ok.mpr (sharedConductanceList_append before current t after), ok_bind]
    rfl

/-- The layers below fill the left of a row. -/
theorem setBottom_eq {bottom : Option Neighbour} (h : BottomOf before current bottom) {p : ℕ}
    {e : NodeEntry} (he : current[p]? = some e) (R : List ℚ) :
    setBottom (List.replicate (packageTotalNodes before) 0 ++ R) (packageTotalNodes before)
      bottom p = (placesFrom 0 before).map (link ⟨before.length, p, e⟩) ++ R := by
  rcases h with ⟨rfl, rfl⟩ | ⟨before', b, rfl, rfl⟩
  · rfl
  have hsplit : packageTotalNodes (before' ++ [b]) = packageTotalNodes before' + b.length := by
    rw [packageTotalNodes_append, packageTotalNodes_singleton]
  have hrow : transposedRow (connectLayers current b) p = b.map fun t => sharedConductance t e := by
    unfold transposedRow connectLayers
    rw [List.map_map]
    refine List.map_congr_left fun t _ => ?_
    rw [Function.comp_apply, List.getD_eq_getElem?_getD, List.getElem?_map, he]
    rfl
  have hfar : (placesFrom 0 before').map (link ⟨(before' ++ [b]).length, p, e⟩) =
      List.replicate (packageTotalNodes before') 0 := by
    rw [← length_placesFrom 0 before']
    refine map_link_far fun y hy => .inr ?_
    have := lt_of_mem_placesFrom hy
    simp only [List.length_append, List.length_singleton]
    omega
  have hnear : (placesFrom before'.length [b]).map (link ⟨(before' ++ [b]).length, p, e⟩) =
      b.map fun t => sharedConductance t e := by
    refine map_placesFrom_singleton fun q t => link_below ?_
    rw [List.length_append, List.length_singleton]
  show setSlice _ (packageTotalNodes (before' ++ [b]) - b.length) _ = _
  rw [placesFrom_append, List.map_append, Nat.zero_add, hfar, hnear, hrow, hsplit,
    Nat.add_sub_cancel, List.replicate_add, List.append_assoc, List.append_assoc]
  nth_rewrite 2 [← List.length_replicate (n := packageTotalNodes before') (a := (0 : ℚ))]
  exact setSlice_append (by rw [List.length_map, List.length_replicate]) R

/-- The layers above fill the right of a row. -/
theorem setTop_eq {top : Option Neighbour} (h : TopOf after current top) {p : ℕ}
    {e : NodeEntry} (he : current[p]? = some e) (k : ℕ) (L : List ℚ) (v : ℚ) :
    setTop (L ++ (List.replicate (packageTotalNodes after) 0 ++ [v])) L.length top p =
      L ++ ((placesFrom (k + 1) after).map (link ⟨k, p, e⟩) ++ [v]) := by
  rcases h with ⟨rfl, rfl⟩ | ⟨t, after', rfl, rfl⟩
  · rfl
  have hrow : (connectLayers t current).getD p [] = t.map (sharedConductance e) := by
    unfold connectLayers
    rw [List.getD_eq_getElem?_getD, List.getElem?_map, he]
    rfl
  have hnear : (placesFrom (k + 1) [t]).map (link ⟨k, p, e⟩) = t.map (sharedConductance e) :=
    map_placesFrom_singleton fun q t => link_above rfl
  have hfar : (placesFrom (k + 1 + 1) after').map (link ⟨k, p, e⟩) =
      List.replicate (packageTotalNodes after') 0 := by
    rw [← length_placesFrom (k + 1 + 1) after']
    refine map_link_far fun y hy => .inl ?_
    exact (mem_placesFrom hy).1
  show setSlice _ L.length ((connectLayers t current).getD p []) = _
  rw [← List.singleton_append, placesFrom_append, List.map_append, List.length_singleton, hnear,
    hfar, hrow, List.singleton_append, packageTotalNodes_cons, List.replicate_add,
    List.append_assoc, List.append_assoc]
  exact setSlice_append (by rw [List.length_map, List.length_replicate]) _

/-- A row of the arrays of the own layer. -/
theorem map_link_current (hsound : SoundLayer current) {k p : ℕ} {e : NodeEntry}
    (he : current[p]? = some e) :
    (placesFrom k [current]).map (link ⟨k, p, e⟩) = e.xyConductance := by
  have hlen : e.xyConductance.length = current.length :=
    hsound.rowLength e (List.mem_of_getElem? he)
  rw [placesFrom_singleton, List.map_map]
  apply List.ext_getElem
  · rw [List.length_map, List.length_zipIdx, hlen]
  · intro q h₁ h₂
    rw [List.getElem_map, List.getElem_zipIdx, Function.comp_apply, Nat.zero_add]
    have hlink : ∀ t, link ⟨k, p, e⟩ ⟨k, q, t⟩ = e.xyConductance.getD q 0 := fun t =>
      link_same rfl
    rw [hlink, List.getD_eq_getElem _ _ h₂]

/-- The row of `conductance_all` of a place, with the convective conductance at the end. -/
def placeRow (layers : List (List NodeEntry)) (x : Place) : List ℚ :=
  (placesFrom 0 layers).map (link x) ++ [x.entry.convectiveConductance]

/-- **Every assembled row holds the conductances of its place to all places.** -/
theorem conductanceRow_eq (hsound : SoundLayer current) {bottom top : Option Neighbour}
    (hbottom : BottomOf before current bottom) (htop : TopOf after current top) {p : ℕ}
    {e : NodeEntry} (he : current[p]? = some e) :
    conductanceRow (packageTotalNodes (before ++ current :: after)) (packageTotalNodes before)
      current.length bottom top (e, p) =
      placeRow (before ++ current :: after) ⟨before.length, p, e⟩ := by
  have hlen : e.xyConductance.length = current.length :=
    hsound.rowLength e (List.mem_of_getElem? he)
  have hzeros : (List.replicate (packageTotalNodes (before ++ current :: after) + 1) (0 : ℚ)).set
      (packageTotalNodes (before ++ current :: after)) e.convectiveConductance =
      List.replicate (packageTotalNodes before) 0 ++ (List.replicate current.length 0 ++
        (List.replicate (packageTotalNodes after) 0 ++ [e.convectiveConductance])) := by
    rw [replicate_set_last, packageTotalNodes_append, packageTotalNodes_cons, List.replicate_add,
      List.replicate_add, List.append_assoc, List.append_assoc]
  have hcurrent : setSlice (List.replicate (packageTotalNodes before) 0 ++
      (List.replicate current.length 0 ++
        (List.replicate (packageTotalNodes after) 0 ++ [e.convectiveConductance])))
      (packageTotalNodes before) e.xyConductance = List.replicate (packageTotalNodes before) 0 ++
        (e.xyConductance ++
          (List.replicate (packageTotalNodes after) 0 ++ [e.convectiveConductance])) := by
    nth_rewrite 2 [← List.length_replicate (n := packageTotalNodes before) (a := (0 : ℚ))]
    exact setSlice_append (by rw [hlen, List.length_replicate]) _
  have hsplit : placesFrom 0 (before ++ current :: after) = placesFrom 0 before ++
      (placesFrom before.length [current] ++ placesFrom (before.length + 1) after) := by
    rw [placesFrom_append, ← List.singleton_append, placesFrom_append, Nat.zero_add,
      List.length_singleton]
  have hleft : ((placesFrom 0 before).map (link ⟨before.length, p, e⟩) ++
      e.xyConductance).length = packageTotalNodes before + current.length := by
    rw [List.length_append, List.length_map, length_placesFrom, hlen]
  unfold conductanceRow placeRow
  simp only [hzeros, hcurrent, setBottom_eq hbottom he]
  rw [← List.append_assoc, ← hleft, setTop_eq htop he before.length, hsplit, List.map_append,
    List.map_append, map_link_current hsound he]
  simp only [List.append_assoc]

end Neighbours

/-! ## The loop over the layers -/

theorem addLayerRows_ok {layers : List (List NodeEntry)} (hsound : ∀ l ∈ layers, SoundLayer l)
    (htwo : 2 ≤ layers.length) {k : ℕ} (hk : k < layers.length) :
    addLayerRows layers (sharedConductanceList layers) (packageTotalNodes layers)
      ((placesFrom 0 (layers.take k)).map (placeRow layers), packageTotalNodes (layers.take k)) k =
      .ok ((placesFrom 0 (layers.take (k + 1))).map (placeRow layers),
        packageTotalNodes (layers.take (k + 1))) := by
  obtain ⟨before, current, after, hlayers, hlen⟩ :
      ∃ before current after, layers = before ++ current :: after ∧ before.length = k := by
    refine ⟨layers.take k, layers[k], layers.drop (k + 1), ?_, List.length_take_of_le hk.le⟩
    rw [List.getElem_cons_drop, List.take_append_drop]
  have htake : layers.take k = before := by
    rw [hlayers, ← hlen, List.take_left]
  have htake' : layers.take (k + 1) = before ++ [current] := by
    rw [hlayers, ← hlen, ← List.singleton_append, ← List.append_assoc,
      show before.length + 1 = (before ++ [current]).length by simp, List.take_left]
  have hcurrent : SoundLayer current := by
    apply hsound
    rw [hlayers]
    exact List.mem_append_right before List.mem_cons_self
  rw [htake, htake']
  subst hlayers hlen
  obtain ⟨bottom, hbottom, hbottomOf⟩ := bottomNeighbour_ok before after current
  obtain ⟨top, htop, htopOf⟩ := topNeighbour_ok htwo
  have htotal : packageTotalNodes (before ++ [current]) =
      packageTotalNodes before + current.length := by
    rw [packageTotalNodes_append, packageTotalNodes_singleton]
  unfold addLayerRows
  rw [getIndex_eq_ok.mpr (by rw [List.getElem?_append_right (le_refl _), Nat.sub_self]; rfl),
    ok_bind, hbottom, ok_bind, htop, ok_bind, placesFrom_append, List.map_append, htotal,
    Nat.zero_add, placesFrom_singleton, List.map_map]
  refine congrArg (fun rows => Except.ok (_ ++ rows, _)) (List.map_congr_left fun e he => ?_)
  exact conductanceRow_eq hcurrent hbottomOf htopOf (List.mem_zipIdx_iff_getElem?.mp he)

/-- **The assembly never raises with two or more layers**, and its rows are those of the places. -/
theorem assembleConductance_ok {layers : List (List NodeEntry)}
    (hsound : ∀ l ∈ layers, SoundLayer l) (htwo : 2 ≤ layers.length) :
    assembleConductance layers =
      .ok (subtractFromDiagonal ((placesFrom 0 layers).map (placeRow layers))) := by
  have hloop := foldlM_range_ok (fun k => ((placesFrom 0 (layers.take k)).map (placeRow layers),
    packageTotalNodes (layers.take k))) layers.length
    (fun k hk => addLayerRows_ok hsound htwo hk)
  rw [List.take_length] at hloop
  unfold assembleConductance
  rw [show ([], 0) = ((placesFrom 0 (layers.take 0)).map (placeRow layers),
    packageTotalNodes (layers.take 0)) from rfl, hloop, ok_bind]
  rfl

/-! ## The network -/

section PackageNetwork

variable (layers : List (List NodeEntry))

/-- The place of a row of the matrix. -/
def placeOf (i : Fin (packageTotalNodes layers)) : Place :=
  (placesFrom 0 layers).get (i.cast (length_placesFrom 0 layers).symm)

theorem placeOf_mem (i : Fin (packageTotalNodes layers)) :
    placeOf layers i ∈ placesFrom 0 layers := List.get_mem _ _

theorem placesFrom_map_eq_ofFn (f : Place → ℚ) :
    (placesFrom 0 layers).map f = List.ofFn fun i => f (placeOf layers i) := by
  apply List.ext_getElem
  · rw [List.length_map, length_placesFrom, List.length_ofFn]
  · intro i h₁ h₂
    rw [List.getElem_map, List.getElem_ofFn]
    rfl

/-- The entry of a node is in the arrays of its layer. -/
theorem placeOf_layer (i : Fin (packageTotalNodes layers)) :
    ∃ layer ∈ layers, layers[(placeOf layers i).layer]? = some layer ∧
      layer[(placeOf layers i).number]? = some (placeOf layers i).entry := by
  obtain ⟨-, layer, hlayer, hentry⟩ := mem_placesFrom (placeOf_mem layers i)
  rw [Nat.sub_zero] at hlayer
  exact ⟨layer, List.mem_of_getElem? hlayer, hlayer, hentry⟩

theorem sharedConductance_nonneg {b t : NodeEntry} (hb : 0 < b.zConductance) (hb' : 0 < b.xyArea)
    (ht : 0 < t.zConductance) (ht' : 0 < t.xyArea) : 0 ≤ sharedConductance b t := by
  unfold sharedConductance
  dsimp only
  split
  · next h => positivity
  · exact le_refl 0

theorem link_comm (hsound : ∀ l ∈ layers, SoundLayer l) (i j : Fin (packageTotalNodes layers)) :
    link (placeOf layers i) (placeOf layers j) = link (placeOf layers j) (placeOf layers i) := by
  obtain ⟨l, hl, hli, hi⟩ := placeOf_layer layers i
  obtain ⟨l', hl', hlj, hj⟩ := placeOf_layer layers j
  rcases lt_trichotomy (placeOf layers i).layer (placeOf layers j).layer with h | h | h
  · rcases Nat.lt_or_ge ((placeOf layers i).layer + 1) (placeOf layers j).layer with h' | h'
    · rw [link_far (.inl h'), link_far (.inr h')]
    · rw [link_above (by omega), link_below (by omega)]
  · rw [link_same h, link_same h.symm]
    rw [h, hlj] at hli
    obtain rfl := Option.some.inj hli
    exact (hsound _ hl).symm _ _ _ _ hi hj
  · rcases Nat.lt_or_ge ((placeOf layers j).layer + 1) (placeOf layers i).layer with h' | h'
    · rw [link_far (.inr h'), link_far (.inl h')]
    · rw [link_below (by omega), link_above (by omega)]

theorem link_nonneg (hsound : ∀ l ∈ layers, SoundLayer l) (i j : Fin (packageTotalNodes layers)) :
    0 ≤ link (placeOf layers i) (placeOf layers j) := by
  obtain ⟨l, hl, -, hi⟩ := placeOf_layer layers i
  obtain ⟨l', hl', -, hj⟩ := placeOf_layer layers j
  have hi := List.mem_of_getElem? hi
  have hj := List.mem_of_getElem? hj
  unfold link
  split
  · exact (hsound l hl).nonneg _ hi _
  · split
    · exact sharedConductance_nonneg ((hsound l hl).zConductance _ hi) ((hsound l hl).xyArea _ hi)
        ((hsound l' hl').zConductance _ hj) ((hsound l' hl').xyArea _ hj)
    · split
      · exact sharedConductance_nonneg ((hsound l' hl').zConductance _ hj)
          ((hsound l' hl').xyArea _ hj) ((hsound l hl).zConductance _ hi)
          ((hsound l hl).xyArea _ hi)
      · exact le_refl 0

/-- The network of a package: its nodes with the conductances between them, grounded by the
convection at its surfaces. -/
def packageNetwork (hsound : ∀ l ∈ layers, SoundLayer l) :
    Network (Fin (packageTotalNodes layers)) ℚ where
  cond i j := link (placeOf layers i) (placeOf layers j)
  ground i := (placeOf layers i).entry.convectiveConductance
  cond_symm := link_comm layers hsound
  cond_nonneg := link_nonneg layers hsound
  cond_self i := by
    obtain ⟨l, hl, -, hi⟩ := placeOf_layer layers i
    rw [link_same rfl]
    exact (hsound l hl).self _ _ hi
  ground_nonneg i := by
    obtain ⟨l, hl, -, hi⟩ := placeOf_layer layers i
    exact (hsound l hl).convective _ (List.mem_of_getElem? hi)

end PackageNetwork

/-- The entries of a matrix kept as its rows. -/
def toMatrix (rows : List (List ℚ)) (n : ℕ) : Matrix (Fin n) (Fin n) ℚ := fun i j =>
  (rows.getD i []).getD j 0

/-- A square matrix kept as its rows. -/
structure Square (rows : List (List ℚ)) (n : ℕ) : Prop where
  length : rows.length = n
  rowLength : ∀ row ∈ rows, row.length = n

theorem placeRow_sum (layers : List (List NodeEntry)) (x : Place) :
    (placeRow layers x).sum =
      ∑ j, link x (placeOf layers j) + x.entry.convectiveConductance := by
  unfold placeRow
  rw [List.sum_append, List.sum_singleton, placesFrom_map_eq_ofFn, List.sum_ofFn]

/-- **The assembled matrix is the matrix of the network of the package.** -/
theorem assembled_eq_network {layers : List (List NodeEntry)}
    (hsound : ∀ l ∈ layers, SoundLayer l) :
    Square (subtractFromDiagonal ((placesFrom 0 layers).map (placeRow layers)))
      (packageTotalNodes layers) ∧
    toMatrix (subtractFromDiagonal ((placesFrom 0 layers).map (placeRow layers)))
      (packageTotalNodes layers) = (packageNetwork layers hsound).matrix := by
  have hdrop : ∀ x, (placeRow layers x).dropLast = (placesFrom 0 layers).map (link x) := fun x =>
    List.dropLast_concat
  refine ⟨⟨?_, ?_⟩, ?_⟩
  · unfold subtractFromDiagonal
    rw [List.length_map, List.length_zipIdx, List.length_map, length_placesFrom]
  · intro row hrow
    obtain ⟨e, he, rfl⟩ := List.mem_map.mp hrow
    obtain ⟨x, -, hx⟩ := List.mem_map.mp (List.fst_mem_of_mem_zipIdx he)
    rw [List.length_map, List.length_zipIdx, ← hx, hdrop, List.length_map, length_placesFrom]
  · funext i j
    have hrow : ((placesFrom 0 layers).map (placeRow layers))[i.val]? =
        some (placeRow layers (placeOf layers i)) := by
      rw [List.getElem?_map, List.getElem?_eq_getElem (by rw [length_placesFrom]; exact i.isLt)]
      rfl
    have hcol : ((placesFrom 0 layers).map (link (placeOf layers i)))[j.val]? =
        some (link (placeOf layers i) (placeOf layers j)) := by
      rw [List.getElem?_map, List.getElem?_eq_getElem (by rw [length_placesFrom]; exact j.isLt)]
      rfl
    have hentry : toMatrix (subtractFromDiagonal ((placesFrom 0 layers).map (placeRow layers)))
        (packageTotalNodes layers) i j = (if i.val = j.val then
          (placeRow layers (placeOf layers i)).sum else 0) -
            link (placeOf layers i) (placeOf layers j) := by
      unfold toMatrix subtractFromDiagonal
      simp only [List.getD_eq_getElem?_getD, List.getElem?_map, List.getElem?_zipIdx, hrow, hdrop,
        hcol, Option.map_some, Option.getD_some, Nat.zero_add]
    rw [hentry, placeRow_sum]
    unfold Network.matrix packageNetwork
    rw [Matrix.sub_apply, Matrix.of_apply, Matrix.diagonal_apply]
    simp only [Fin.ext_iff]

/-! ## Packages -/

theorem placesFrom_map_entry (a : ℕ) (layers : List (List NodeEntry)) :
    (placesFrom a layers).map Place.entry = layers.flatten := by
  induction layers generalizing a with
  | nil => rfl
  | cons layer layers ih =>
    rw [placesFrom, List.map_append, ih, List.map_map, List.flatten_cons]
    congr 1
    exact List.zipIdx_map_fst 0 layer

theorem flatten_getElem? (layers : List (List NodeEntry)) (i : Fin (packageTotalNodes layers)) :
    layers.flatten[i.val]? = some (placeOf layers i).entry := by
  rw [← placesFrom_map_entry 0, List.getElem?_map,
    List.getElem?_eq_getElem (by rw [length_placesFrom]; exact i.isLt)]
  rfl

/-- The arrays of the layers of a package. -/
def arraysOf (layers : List (List RcNode)) : List (List NodeEntry) :=
  layers.map fun nodes => nodes.zipIdx.map (entryOf nodes)

theorem arraysOf_sound {layers : List (List RcNode)}
    (h : ∀ nodes ∈ layers, ∀ n ∈ nodes, n.Conducting) : ∀ l ∈ arraysOf layers, SoundLayer l := by
  intro l hl
  obtain ⟨nodes, hnodes, rfl⟩ := List.mem_map.mp hl
  exact soundLayer_of_conducting (h nodes hnodes)

theorem packageTotalNodes_arraysOf (layers : List (List RcNode)) :
    packageTotalNodes (arraysOf layers) = packageTotalNodes layers := by
  unfold packageTotalNodes arraysOf
  rw [List.map_map]
  congr 1
  refine List.map_congr_left fun nodes _ => ?_
  rw [Function.comp_apply, List.length_map, List.length_zipIdx]

theorem connectNodes_ok {layers : List (List RcNode)}
    (h : ∀ nodes ∈ layers, ∀ n ∈ nodes, n.Conducting) (htwo : 2 ≤ layers.length) :
    ∃ conductance, connectNodes layers = .ok (arraysOf layers, conductance) ∧
      Square conductance (packageTotalNodes (arraysOf layers)) ∧
      toMatrix conductance (packageTotalNodes (arraysOf layers)) =
        (packageNetwork (arraysOf layers) (arraysOf_sound h)).matrix := by
  have harrays : layers.mapM layerConnectNodes = .ok (arraysOf layers) :=
    mapM_ok fun nodes hnodes => layerConnectNodes_ok (h nodes hnodes)
  have htwo' : 2 ≤ (arraysOf layers).length := by
    unfold arraysOf
    rwa [List.length_map]
  refine ⟨_, ?_, assembled_eq_network (arraysOf_sound h)⟩
  unfold connectNodes
  rw [harrays, ok_bind, assembleConductance_ok (arraysOf_sound h) htwo', ok_bind]
  rfl

/-- **The conductance matrix.** For every package with two or more layers, positive lengths and
conductivities and heat-transfer coefficients that are not negative, the assembled matrix is
symmetric, has no positive entry off the diagonal, and each row sums to the convective conductance
of its node. -/
theorem connectNodes_conductance (input : PackageInput) (layers : List (List RcNode))
    (hcreate : createLayers input = .ok layers) (htwo : 2 ≤ layers.length)
    (hpos : ∀ nodes ∈ layers, ∀ n ∈ nodes, n.toNode.Positive)
    (htop : 0 ≤ input.utils.topHtc) (hbottom : 0 ≤ input.utils.bottomHtc) :
    ∃ arrays conductance, connectNodes layers = .ok (arrays, conductance) ∧
      packageTotalNodes arrays = packageTotalNodes layers ∧
      Square conductance (packageTotalNodes arrays) ∧
      (toMatrix conductance (packageTotalNodes arrays)).IsSymm ∧
      (∀ i j, i ≠ j → toMatrix conductance (packageTotalNodes arrays) i j ≤ 0) ∧
      ∀ i, ∃ e, arrays.flatten[i.val]? = some e ∧
        ∑ j, toMatrix conductance (packageTotalNodes arrays) i j = e.convectiveConductance ∧
        0 ≤ e.convectiveConductance := by
  have hcond : ∀ nodes ∈ layers, ∀ n ∈ nodes, n.Conducting := fun nodes hnodes n hn =>
    createLayers_conducting hcreate htop hbottom hnodes hn (hpos nodes hnodes n hn)
  obtain ⟨conductance, hconnect, hsquare, hmatrix⟩ := connectNodes_ok hcond htwo
  refine ⟨_, conductance, hconnect, packageTotalNodes_arraysOf layers, hsquare, ?_, ?_, ?_⟩
  · rw [hmatrix]
    exact Network.matrix_isSymm _
  · rw [hmatrix]
    exact (Network.matrix_dissipative _).offDiag_nonpos
  · intro i
    refine ⟨(placeOf _ i).entry, flatten_getElem? _ i, ?_, ?_⟩
    · rw [hmatrix]
      exact Network.matrix_rowSum _ i
    · exact (packageNetwork (arraysOf layers) (arraysOf_sound hcond)).ground_nonneg i

instance (n : Node) : Decidable n.Positive :=
  decidable_of_iff (0 < n.xLength ∧ 0 < n.yLength ∧ 0 < n.thickness ∧
    0 < n.materialProperties.thermalConductivity.x ∧
    0 < n.materialProperties.thermalConductivity.y ∧
    0 < n.materialProperties.thermalConductivity.z)
    ⟨fun ⟨h₁, h₂, h₃, h₄, h₅, h₆⟩ => ⟨h₁, h₂, h₃, h₄, h₅, h₆⟩,
      fun ⟨h₁, h₂, h₃, h₄, h₅, h₆⟩ => ⟨h₁, h₂, h₃, h₄, h₅, h₆⟩⟩

/-- A substrate of four nodes below two chiplets that differ in size and material. -/
def smallPackage : PackageInput where
  utils :=
    { packageXLen := 6
      packageYLen := 4
      packageZLen := 2
      chipletXLen := 2
      chipletYLen := 2
      chipletSpacing := 1
      numChipletX := 2
      numChipletY := 1
      topHtc := 1000
      bottomHtc := 0 }
  layers := [
    { layerName := "substrate"
      material := "fr4"
      thickness := 1
      uniform := false
      underChiplet := false
      xNodes := .positions [2, 4]
      yNodes := .positions [1, 3]
      startX := 0
      startY := 0
      startZ := 0 },
    { layerName := "chiplet"
      material := "silicon"
      thickness := 1
      uniform := true
      underChiplet := true
      xNodes := .count 1
      yNodes := .count 1
      startX := 1
      startY := 1
      startZ := 1 }]
  materialProperties := .ofList [("fr4", ⟨.directional 20 20 1, 1900, 1100⟩),
    ("silicon", ⟨.isotropic 130, 2330, 700⟩)]
  isHomogeneous := false
  powerLayers :=
    [⟨"chiplet", [⟨1, 1, 2, 2, 2, 1, none, true⟩, ⟨3, 1, 1, 1, 1, 1, some "fr4", false⟩]⟩]

theorem connectNodes_conductance_small :
    ∃ layers, createLayers smallPackage = .ok layers ∧ packageTotalNodes layers = 7 ∧
      ∃ arrays conductance, connectNodes layers = .ok (arrays, conductance) ∧
        (toMatrix conductance (packageTotalNodes arrays)).IsSymm := by
  have hrun : ∃ layers ∈ (createLayers smallPackage).toOption, packageTotalNodes layers = 7 ∧
      2 ≤ layers.length ∧ ∀ nodes ∈ layers, ∀ n ∈ nodes, n.toNode.Positive := by
    decide +kernel
  obtain ⟨layers, hlayers, htotal, htwo, hpos⟩ := hrun
  have hcreate := toOption_eq_some.mp hlayers
  obtain ⟨arrays, conductance, hconnect, -, -, hsymm, -⟩ := connectNodes_conductance smallPackage
    layers hcreate htwo hpos (by decide +kernel) (by decide +kernel)
  exact ⟨layers, hcreate, htotal, arrays, conductance, hconnect, hsymm⟩

end Thermal

end ChipSim
