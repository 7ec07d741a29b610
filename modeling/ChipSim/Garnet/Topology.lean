import Mathlib.Data.List.Dedup
import Mathlib.Data.Nat.Sqrt
import ChipSim.System

/-!
# The topology of the network

The adjacency matrix is read twice. `System` takes its upper triangle, as far as there are chiplets,
for the edges of the chiplet network; the network simulator gets all its ones as links of routers,
by way of a YAML file. The two agree when the matrix has no ones on its diagonal and none outside
the chiplets. A matrix without ones and a number of chiplets that is not a square are refused.
-/

namespace ChipSim

open Lib

/-- A two-dimensional array as `np.loadtxt` returns it: dimensions of length one are dropped. -/
structure AdjMatrix where
  rows : ℕ
  cols : ℕ
  entry : ℕ → ℕ → ℚ
  two_le_rows : 2 ≤ rows
  two_le_cols : 2 ≤ cols

namespace AdjMatrix

/-- `adj_matrix[i, j]`. -/
def item (m : AdjMatrix) (i j : ℕ) : Except PyError ℚ :=
  if m.rows ≤ i then
    .error (.indexError s!"index {i} is out of bounds for axis 0 with size {m.rows}")
  else if m.cols ≤ j then
    .error (.indexError s!"index {j} is out of bounds for axis 1 with size {m.cols}")
  else .ok (m.entry i j)

end AdjMatrix

namespace System

/-- The pairs of the loops in `build_chiplet_network`. -/
def upperTriangle (totalNodes : ℕ) : List (ℕ × ℕ) :=
  (List.range totalNodes).flatMap fun i =>
    ((List.range totalNodes).filter (i < ·)).map fun j => (i, j)

/-- The loop body of `build_chiplet_network`. -/
def addEdge (m : AdjMatrix) (edges : List (ℕ × ℕ)) (p : ℕ × ℕ) :
    Except PyError (List (ℕ × ℕ)) := do
  let entry ← m.item p.1 p.2
  return if entry = 1 then edges ++ [(p.1 + 1, p.2 + 1)] else edges

/-- `build_chiplet_network`: the edges, with chiplets numbered from `1`. -/
def buildChipletNetwork (numChiplets : ℕ) (m : AdjMatrix) : Except PyError (List (ℕ × ℕ)) :=
  (upperTriangle numChiplets).foldlM (addEdge m) []

end System

namespace Garnet

/-! ## The YAML file -/

/-- The content of the topology file: the links of every chiplet that has some. -/
abbrev TopologyFile := List (String × List (ℕ × ℕ))

/-- The connections of one chiplet. -/
def chipletConnections (m : AdjMatrix) (i : ℕ) : List (ℕ × ℕ) :=
  ((List.range m.rows).filter (m.entry i · = 1)).map fun j => (i, j)

/-- `_convert_adj_matrix_to_yaml_topology`. -/
def convertAdjMatrixToYamlTopology (m : AdjMatrix) : Except PyError TopologyFile :=
  if m.rows ≠ m.cols then
    .error (.valueError s!"Adjacency matrix is not square ({m.rows}x{m.cols}).")
  else if ¬ ∀ i < m.rows, ∀ j < m.rows, m.entry i j = m.entry j i then
    .error (.valueError ("Adjacency matrix is not symmetric. " ++
      "The topology requires bidirectional connections."))
  else
    .ok ((List.range m.rows).filterMap fun i =>
      if chipletConnections m i = [] then none
      else some (s!"chiplet_{i}", chipletConnections m i))

/-! ## Routers and links -/

/-- The options that are read here. -/
structure TopologyOptions where
  numCpus : ℕ
  linkLatency : ℕ
  meshRows : ℤ

/-- A link of a controller to its router. -/
structure ExtLink where
  linkId : ℕ
  extNode : ℕ
  intNode : ℕ
  latency : ℕ

/-- A directed link of two routers. -/
structure IntLink where
  linkId : ℕ
  srcNode : ℕ
  dstNode : ℕ
  srcOutport : String := "Link"
  dstInport : String := "Link"
  latency : ℕ
  weight : ℕ

/-- The links of the network. -/
structure Topology where
  extLinks : List ExtLink
  intLinks : List IntLink

/-- Connect a controller to a router. -/
def connectController (o : TopologyOptions) (i : ℕ) : Except PyError ExtLink :=
  if o.numCpus = 0 then .error (.zeroDivisionError "integer modulo by zero")
  else .ok { linkId := i, extNode := i, intNode := i % o.numCpus, latency := o.linkLatency }

/-- The set of allowed links, as a list without repetitions. -/
def allowedSet (file : TopologyFile) : List (ℕ × ℕ) := (file.flatMap Prod.snd).dedup

/-- The links in the file. The key `connections` without entries has the value `None`. -/
def readConnections (file : TopologyFile) : Except PyError (List (ℕ × ℕ)) :=
  if file = [] then .error (.attributeError "'NoneType' object has no attribute 'items'")
  else .ok (allowedSet file)

/-- The number of rows of the mesh; without the option, of a square one. -/
def meshRows (o : TopologyOptions) : Except PyError ℕ :=
  if o.meshRows ≤ 0 then
    if o.numCpus.sqrt = 0 ∨ o.numCpus.sqrt * o.numCpus.sqrt ≠ o.numCpus then
      .error (.valueError
        "Unable to infer mesh_rows for AnyNET topology; please specify --mesh-rows")
    else .ok o.numCpus.sqrt
  else .ok o.meshRows.toNat

/-- The weight of a link: vertical links have weight `2`. -/
def linkWeight (numCols src dst : ℕ) : ℕ :=
  if src / numCols = dst / numCols then 1
  else if src % numCols = dst % numCols then 2
  else 1

/-- `append_link`, which looks the routers up. -/
def appendLink (o : TopologyOptions) (controllers numCols : ℕ) (e : (ℕ × ℕ) × ℕ) :
    Except PyError IntLink :=
  if e.1.1 < o.numCpus ∧ e.1.2 < o.numCpus then
    .ok { linkId := controllers + e.2, srcNode := e.1.1, dstNode := e.1.2,
          latency := o.linkLatency, weight := linkWeight numCols e.1.1 e.1.2 }
  else .error (.indexError "list index out of range")

/-- `AnyNET_XY.makeTopology`. -/
def makeTopology (o : TopologyOptions) (controllers : ℕ) (file : TopologyFile) :
    Except PyError Topology := do
  let extLinks ← (List.range controllers).mapM (connectController o)
  let allowed ← readConnections file
  let numRows ← meshRows o
  let numCols := o.numCpus / numRows
  if numRows * numCols ≠ o.numCpus ∨ numCols = 0 then
    .error (.valueError ("Invalid mesh dimensions derived for AnyNET topology: " ++
      s!"rows={numRows}, cols={numCols}"))
  else
    let intLinks ← allowed.zipIdx.mapM (appendLink o controllers numCols)
    return { extLinks := extLinks, intLinks := intLinks }

/-- The options of the simulation command, which does not set `--mesh-rows`. -/
def commandOptions (numChiplets linkLatency : ℕ) : TopologyOptions where
  numCpus := numChiplets
  linkLatency := linkLatency
  meshRows := 0

/-! ## The edges of the chiplet network -/

variable {m : AdjMatrix} {numChiplets : ℕ}

theorem item_eq_ok {i j : ℕ} {v : ℚ} :
    m.item i j = .ok v ↔ i < m.rows ∧ j < m.cols ∧ m.entry i j = v := by
  unfold AdjMatrix.item
  split_ifs with hi hj
  · exact iff_of_false (by rintro ⟨⟩) fun h => absurd h.1 (not_lt.mpr hi)
  · exact iff_of_false (by rintro ⟨⟩) fun h => absurd h.2.1 (not_lt.mpr hj)
  · rw [Except.ok.injEq]
    exact ⟨fun h => ⟨not_le.mp hi, not_le.mp hj, h⟩, fun h => h.2.2⟩

theorem mem_upperTriangle {n : ℕ} {p : ℕ × ℕ} :
    p ∈ System.upperTriangle n ↔ p.1 < p.2 ∧ p.2 < n := by
  obtain ⟨i, j⟩ := p
  simp only [System.upperTriangle, List.mem_flatMap, List.mem_map, List.mem_filter, List.mem_range,
    decide_eq_true_eq, Prod.mk.injEq]
  constructor
  · rintro ⟨_, -, _, ⟨hj, hij⟩, rfl, rfl⟩
    exact ⟨hij, hj⟩
  · rintro ⟨hij, hj⟩
    exact ⟨i, hij.trans hj, j, ⟨hj, hij⟩, rfl, rfl⟩

theorem addEdge_eq_ok {edges edges' : List (ℕ × ℕ)} {p : ℕ × ℕ} :
    System.addEdge m edges p = .ok edges' ↔ p.1 < m.rows ∧ p.2 < m.cols ∧
      edges' = if m.entry p.1 p.2 = 1 then edges ++ [(p.1 + 1, p.2 + 1)] else edges := by
  unfold System.addEdge
  rw [bind_eq_ok]
  constructor
  · rintro ⟨v, hv, hok⟩
    obtain ⟨hi, hj, rfl⟩ := item_eq_ok.mp hv
    cases hok
    exact ⟨hi, hj, rfl⟩
  · rintro ⟨hi, hj, rfl⟩
    exact ⟨_, item_eq_ok.mpr ⟨hi, hj, rfl⟩, rfl⟩

/-- The edges are the ones above the diagonal. -/
theorem mem_buildChipletNetwork {edges : List (ℕ × ℕ)}
    (h : System.buildChipletNetwork numChiplets m = .ok edges) (q : ℕ × ℕ) :
    q ∈ edges ↔ ∃ i j, i < j ∧ j < numChiplets ∧ m.entry i j = 1 ∧ q = (i + 1, j + 1) := by
  refine (mem_foldlM id (fun (p q : ℕ × ℕ) => m.entry p.1 p.2 = 1 ∧ q = (p.1 + 1, p.2 + 1)) h
    ?_ q).trans ?_
  rotate_left
  · constructor
    · rintro (hnil | ⟨p, hp, hone, rfl⟩)
      · cases hnil
      · exact ⟨p.1, p.2, (mem_upperTriangle.mp hp).1, (mem_upperTriangle.mp hp).2, hone, rfl⟩
    · rintro ⟨i, j, hij, hj, hone, rfl⟩
      exact .inr ⟨(i, j), mem_upperTriangle.mpr ⟨hij, hj⟩, hone, rfl⟩
  · intro p _ edges edges' hok q
    obtain ⟨-, -, rfl⟩ := addEdge_eq_ok.mp hok
    split
    · next hone => simp [hone]
    · next hone => simp [hone]

/-- The whole upper triangle is read. -/
theorem lt_rows_of_buildChipletNetwork {edges : List (ℕ × ℕ)}
    (h : System.buildChipletNetwork numChiplets m = .ok edges) {i j : ℕ} (hij : i < j)
    (hj : j < numChiplets) : i < m.rows ∧ j < m.cols := by
  have hall := (foldlM_ok_iff (P := fun p : ℕ × ℕ => p.1 < m.rows ∧ p.2 < m.cols)
    fun p _ edges => ?_).mp ⟨edges, h⟩
  · exact hall (i, j) (mem_upperTriangle.mpr ⟨hij, hj⟩)
  · constructor
    · rintro ⟨edges', hok⟩
      obtain ⟨hi, hj, -⟩ := addEdge_eq_ok.mp hok
      exact ⟨hi, hj⟩
    · rintro ⟨hi, hj⟩
      exact ⟨_, addEdge_eq_ok.mpr ⟨hi, hj, rfl⟩⟩

/-- The edges are those the mapping and the selection of I/O chiplets walk along. -/
theorem mem_buildChipletNetwork_iff_connected {s : System} (hs : s.adjMatrix = m.entry)
    {edges : List (ℕ × ℕ)} (h : System.buildChipletNetwork s.numChiplets m = .ok edges) (a b : ℕ) :
    (a, b) ∈ edges ∨ (b, a) ∈ edges ↔ s.connected a b = true := by
  unfold System.connected
  rw [mem_buildChipletNetwork h, mem_buildChipletNetwork h, decide_eq_true_eq, hs]
  constructor
  · rintro (⟨i, j, hij, hj, hone, heq⟩ | ⟨i, j, hij, hj, hone, heq⟩) <;>
      obtain ⟨rfl, rfl⟩ := Prod.mk.inj heq
    · rw [min_eq_left (by omega), max_eq_right (by omega)]
      exact ⟨by omega, by omega, by omega, hone⟩
    · rw [min_eq_right (by omega), max_eq_left (by omega)]
      exact ⟨by omega, by omega, by omega, hone⟩
  · rintro ⟨hmin, hlt, hmax, hone⟩
    rcases le_total a b with hab | hab
    · rw [min_eq_left hab] at hmin hlt hone
      rw [max_eq_right hab] at hlt hmax hone
      exact .inl ⟨a - 1, b - 1, by omega, by omega, hone, by ext <;> simp <;> omega⟩
    · rw [min_eq_right hab] at hmin hlt hone
      rw [max_eq_left hab] at hlt hmax hone
      exact .inr ⟨b - 1, a - 1, by omega, by omega, hone, by ext <;> simp <;> omega⟩

/-! ## The links -/

theorem convertAdjMatrixToYamlTopology_eq_ok {file : TopologyFile}
    (h : convertAdjMatrixToYamlTopology m = .ok file) :
    m.rows = m.cols ∧ (∀ i < m.rows, ∀ j < m.rows, m.entry i j = m.entry j i) ∧
      file = (List.range m.rows).filterMap fun i =>
        if chipletConnections m i = [] then none
        else some (s!"chiplet_{i}", chipletConnections m i) := by
  unfold convertAdjMatrixToYamlTopology at h
  split_ifs at h with hsquare hsymm
  cases h
  exact ⟨not_not.mp hsquare, hsymm, rfl⟩

/-- The file has all ones of the matrix. -/
theorem mem_allowedSet {file : TopologyFile} (h : convertAdjMatrixToYamlTopology m = .ok file)
    (src dst : ℕ) :
    (src, dst) ∈ allowedSet file ↔ src < m.rows ∧ dst < m.rows ∧ m.entry src dst = 1 := by
  obtain ⟨-, -, rfl⟩ := convertAdjMatrixToYamlTopology_eq_ok h
  have hrow : ∀ i, (src, dst) ∈ chipletConnections m i ↔
      i = src ∧ dst < m.rows ∧ m.entry src dst = 1 := by
    intro i
    unfold chipletConnections
    simp only [List.mem_map, List.mem_filter, List.mem_range, decide_eq_true_eq, Prod.mk.injEq]
    constructor
    · rintro ⟨j, hj, rfl, rfl⟩
      exact ⟨rfl, hj⟩
    · rintro ⟨rfl, hj⟩
      exact ⟨dst, hj, rfl, rfl⟩
  unfold allowedSet
  rw [List.mem_dedup, List.mem_flatMap]
  constructor
  · rintro ⟨e, he, hmem⟩
    obtain ⟨i, hi, he⟩ := List.mem_filterMap.mp he
    split_ifs at he
    cases he
    obtain ⟨rfl, hone⟩ := (hrow i).mp hmem
    exact ⟨List.mem_range.mp hi, hone⟩
  · rintro ⟨hsrc, hone⟩
    have hmem := (hrow src).mpr ⟨rfl, hone⟩
    refine ⟨(s!"chiplet_{src}", chipletConnections m src), List.mem_filterMap.mpr
      ⟨src, List.mem_range.mpr hsrc, ?_⟩, hmem⟩
    rw [if_neg (List.ne_nil_of_mem hmem)]

/-- Every entry of the file has a link. -/
theorem exists_mem_allowedSet {file : TopologyFile}
    (h : convertAdjMatrixToYamlTopology m = .ok file) (hfile : file ≠ []) :
    ∃ p, p ∈ allowedSet file := by
  obtain ⟨e, he⟩ := List.exists_mem_of_ne_nil file hfile
  have hconnections : e.2 ≠ [] := by
    obtain ⟨-, -, rfl⟩ := convertAdjMatrixToYamlTopology_eq_ok h
    obtain ⟨i, -, he⟩ := List.mem_filterMap.mp he
    split_ifs at he with hnone
    cases he
    exact hnone
  obtain ⟨p, hp⟩ := List.exists_mem_of_ne_nil e.2 hconnections
  exact ⟨p, List.mem_dedup.mpr (List.mem_flatMap.mpr ⟨e, he, hp⟩)⟩

theorem meshRows_eq_ok {linkLatency numRows : ℕ} :
    meshRows (commandOptions numChiplets linkLatency) = .ok numRows ↔
      numRows ≠ 0 ∧ numRows * numRows = numChiplets := by
  unfold meshRows commandOptions
  rw [if_pos le_rfl]
  split_ifs with hsqrt
  · refine iff_of_false (by rintro ⟨⟩) ?_
    rintro ⟨hne, rfl⟩
    rw [Nat.sqrt_eq] at hsqrt
    exact hsqrt.elim hne fun h => h rfl
  · rw [not_or, not_not] at hsqrt
    rw [Except.ok.injEq]
    constructor
    · rintro rfl
      exact hsqrt
    · rintro ⟨-, rfl⟩
      exact Nat.sqrt_eq numRows

/-- A made topology has the links of the file between its routers. -/
theorem links_of_makeTopology {linkLatency controllers : ℕ} {file : TopologyFile} {t : Topology}
    (h : makeTopology (commandOptions numChiplets linkLatency) controllers file = .ok t) :
    file ≠ [] ∧ IsSquare numChiplets ∧
      (∀ p ∈ allowedSet file, p.1 < numChiplets ∧ p.2 < numChiplets) ∧
      t.intLinks.map (fun l => (l.srcNode, l.dstNode)) = allowedSet file := by
  obtain ⟨extLinks, -, h⟩ := bind_eq_ok.mp h
  obtain ⟨allowed, hallowed, h⟩ := bind_eq_ok.mp h
  obtain ⟨numRows, hrows, h⟩ := bind_eq_ok.mp h
  have hfile : file ≠ [] ∧ allowed = allowedSet file := by
    unfold readConnections at hallowed
    split_ifs at hallowed with hnil
    cases hallowed
    exact ⟨hnil, rfl⟩
  obtain ⟨hne, rfl⟩ := hfile
  dsimp only at h
  split at h
  · cases h
  obtain ⟨intLinks, hlinks, h⟩ := bind_eq_ok.mp h
  cases h
  have hforall : List.Forall₂ (fun (e : (ℕ × ℕ) × ℕ) (l : IntLink) =>
      (e.1.1 < numChiplets ∧ e.1.2 < numChiplets) ∧ (l.srcNode, l.dstNode) = e.1)
      (allowedSet file).zipIdx intLinks := by
    refine forall₂_mapM hlinks fun e _ l hl => ?_
    unfold appendLink at hl
    split_ifs at hl with hinside
    cases hl
    exact ⟨hinside, rfl⟩
  rw [List.forall₂_and_left] at hforall
  refine ⟨hne, ⟨numRows, (meshRows_eq_ok.mp hrows).2.symm⟩, fun p hp => ?_, ?_⟩
  · obtain ⟨k, hk⟩ := List.mem_iff_getElem?.mp hp
    exact hforall.1 (p, k) (List.mk_mem_zipIdx_iff_getElem?.mpr hk)
  · have hends : List.Forall₂ (· = ·) (intLinks.map fun l => (l.srcNode, l.dstNode))
        ((allowedSet file).zipIdx.map Prod.fst) := by
      rw [List.forall₂_map_left_iff, List.forall₂_map_right_iff]
      exact hforall.2.flip
    rwa [List.forall₂_eq_eq_eq, List.zipIdx_map_fst] at hends

theorem exists_topology (linkLatency controllers : ℕ) {file : TopologyFile} (hfile : file ≠ [])
    (hpos : 0 < numChiplets) (hsquare : IsSquare numChiplets)
    (hinside : ∀ p ∈ allowedSet file, p.1 < numChiplets ∧ p.2 < numChiplets) :
    ∃ t, makeTopology (commandOptions numChiplets linkLatency) controllers file = .ok t := by
  obtain ⟨numRows, rfl⟩ := hsquare
  have hrows : numRows ≠ 0 := by
    rintro rfl
    exact absurd hpos (Nat.lt_irrefl 0)
  have hcols : (commandOptions (numRows * numRows) linkLatency).numCpus / numRows = numRows :=
    Nat.mul_div_cancel_left _ (by omega)
  obtain ⟨extLinks, hext, -⟩ : ∃ extLinks, (List.range controllers).mapM
      (connectController (commandOptions (numRows * numRows) linkLatency)) = .ok extLinks ∧ _ :=
    mapM_total (fun _ _ => True) fun i _ => ⟨_, if_neg (Nat.pos_iff_ne_zero.mp hpos), trivial⟩
  obtain ⟨intLinks, hint, -⟩ : ∃ intLinks, (allowedSet file).zipIdx.mapM (appendLink
      (commandOptions (numRows * numRows) linkLatency) controllers numRows) = .ok intLinks ∧ _ :=
    mapM_total (fun _ _ => True) fun e he =>
      ⟨_, if_pos (hinside e.1 (List.fst_mem_of_mem_zipIdx he)), trivial⟩
  refine ⟨⟨extLinks, intLinks⟩, ?_⟩
  have hdims : ¬ (numRows * numRows ≠ (commandOptions (numRows * numRows) linkLatency).numCpus ∨
      numRows = 0) := not_or.mpr ⟨fun h => h rfl, hrows⟩
  unfold makeTopology
  rw [hext, ok_bind, show readConnections file = .ok (allowedSet file) from if_neg hfile, ok_bind,
    meshRows_eq_ok.mpr ⟨hrows, rfl⟩, ok_bind]
  dsimp only
  rw [hcols, if_neg hdims, hint]
  rfl

/-! ## Agreement -/

/-- The links are the two directions of every edge, each once. -/
def LinksMatch (edges : List (ℕ × ℕ)) (links : List IntLink) : Prop :=
  ∀ src dst, (links.map fun l => (l.srcNode, l.dstNode)).count (src, dst) =
    if (src + 1, dst + 1) ∈ edges ∨ (dst + 1, src + 1) ∈ edges then 1 else 0

/-- The matrix describes links between different chiplets only. -/
structure Describes (m : AdjMatrix) (numChiplets : ℕ) : Prop where
  square : IsSquare numChiplets
  nonzero : ∃ i < m.rows, ∃ j < m.rows, m.entry i j = 1
  inside : ∀ i < m.rows, ∀ j < m.rows, m.entry i j = 1 → i < numChiplets ∧ j < numChiplets
  irreflexive : ∀ i < m.rows, m.entry i i ≠ 1

/-- An edge stands on both sides of the diagonal. -/
theorem mem_edges_iff {edges : List (ℕ × ℕ)} {file : TopologyFile}
    (hnetwork : System.buildChipletNetwork numChiplets m = .ok edges)
    (hfile : convertAdjMatrixToYamlTopology m = .ok file) (src dst : ℕ) :
    (src + 1, dst + 1) ∈ edges ∨ (dst + 1, src + 1) ∈ edges ↔
      src ≠ dst ∧ src < numChiplets ∧ dst < numChiplets ∧ (src, dst) ∈ allowedSet file := by
  obtain ⟨hsquare, hsymm, -⟩ := convertAdjMatrixToYamlTopology_eq_ok hfile
  rw [mem_buildChipletNetwork hnetwork, mem_buildChipletNetwork hnetwork, mem_allowedSet hfile]
  constructor
  · rintro (⟨i, j, hij, hj, hone, heq⟩ | ⟨i, j, hij, hj, hone, heq⟩) <;>
      obtain ⟨hi', hj'⟩ := lt_rows_of_buildChipletNetwork hnetwork hij hj <;>
      obtain ⟨rfl, rfl⟩ : _ = i ∧ _ = j := by simpa using heq
    · exact ⟨hij.ne, hij.trans hj, hj, hi', hsquare ▸ hj', hone⟩
    · refine ⟨hij.ne', hj, hij.trans hj, hsquare ▸ hj', hi', ?_⟩
      rw [← hsymm _ hi' _ (hsquare ▸ hj'), hone]
  · rintro ⟨hne, hsrc, hdst, hsrc', hdst', hone⟩
    rcases Nat.lt_or_gt_of_ne hne with hlt | hlt
    · exact .inl ⟨src, dst, hlt, hdst, hone, rfl⟩
    · exact .inr ⟨dst, src, hlt, hsrc, (hsymm dst hdst' src hsrc').trans hone, rfl⟩

/-- **Agreement.** The routers have exactly the two directed links of every edge of the chiplet
network, exactly when the matrix describes links between different chiplets only. -/
theorem links_match_iff (m : AdjMatrix) (numChiplets linkLatency controllers : ℕ)
    (edges : List (ℕ × ℕ)) (hnetwork : System.buildChipletNetwork numChiplets m = .ok edges)
    (file : TopologyFile) (hfile : convertAdjMatrixToYamlTopology m = .ok file) :
    (∃ t, makeTopology (commandOptions numChiplets linkLatency) controllers file = .ok t ∧
      LinksMatch edges t.intLinks) ↔ Describes m numChiplets := by
  have hedges := mem_edges_iff hnetwork hfile
  have hallowed := mem_allowedSet hfile
  constructor
  · rintro ⟨t, ht, hmatch⟩
    obtain ⟨hne, hsquare, hinside, hlinks⟩ := links_of_makeTopology ht
    obtain ⟨⟨i, j⟩, hij⟩ := exists_mem_allowedSet hfile hne
    obtain ⟨hi, hj, hone⟩ := (hallowed i j).mp hij
    refine ⟨hsquare, ⟨i, hi, j, hj, hone⟩,
      fun i hi j hj hone => hinside _ ((hallowed i j).mpr ⟨hi, hj, hone⟩), fun i hi hone => ?_⟩
    -- a link of a router to itself is not an edge
    have hself := hmatch i i
    rw [hlinks, if_neg fun h => ((hedges i i).mp h).1 rfl, List.count_eq_zero] at hself
    exact hself ((hallowed i i).mpr ⟨hi, hi, hone⟩)
  · rintro ⟨hsquare, ⟨i, hi, j, hj, hone⟩, hinside, hirrefl⟩
    have hin : ∀ p ∈ allowedSet file, p.1 < numChiplets ∧ p.2 < numChiplets := fun p hp => by
      obtain ⟨hp₁, hp₂, hp⟩ := (hallowed p.1 p.2).mp hp
      exact hinside _ hp₁ _ hp₂ hp
    have hmem := (hallowed i j).mpr ⟨hi, hj, hone⟩
    have hne : file ≠ [] := by
      rintro rfl
      exact absurd hmem List.not_mem_nil
    obtain ⟨t, ht⟩ := exists_topology linkLatency controllers hne
      (Nat.zero_lt_of_lt (hin _ hmem).1) hsquare hin
    refine ⟨t, ht, fun src dst => ?_⟩
    rw [(links_of_makeTopology ht).2.2.2]
    split_ifs with hedge
    · exact List.count_eq_one_of_mem (List.nodup_dedup _) ((hedges src dst).mp hedge).2.2.2
    · refine List.count_eq_zero.mpr fun hlink => hedge ((hedges src dst).mpr ?_)
      obtain ⟨hsrc, hdst, hlinkOne⟩ := (hallowed src dst).mp hlink
      refine ⟨?_, hin _ hlink |>.1, hin _ hlink |>.2, hlink⟩
      rintro rfl
      exact hirrefl src hsrc hlinkOne

/-- A ring of four chiplets, and a possible link of the first one to itself. -/
def ringMatrix (self : ℚ) : AdjMatrix where
  rows := 4
  cols := 4
  entry i j := if i = j then (if i = 0 then self else 0) else if (i + j) % 2 = 1 then 1 else 0
  two_le_rows := by decide
  two_le_cols := by decide

theorem links_match_ring : ∃ edges file t,
    System.buildChipletNetwork 4 (ringMatrix 0) = .ok edges ∧
    convertAdjMatrixToYamlTopology (ringMatrix 0) = .ok file ∧
    makeTopology (commandOptions 4 1) 8 file = .ok t ∧ LinksMatch edges t.intLinks := by
  obtain ⟨edges, hedges⟩ : ∃ edges, System.buildChipletNetwork 4 (ringMatrix 0) = .ok edges :=
    ⟨_, rfl⟩
  obtain ⟨file, hfile⟩ : ∃ file, convertAdjMatrixToYamlTopology (ringMatrix 0) = .ok file :=
    ⟨_, rfl⟩
  obtain ⟨t, ht⟩ := (links_match_iff (ringMatrix 0) 4 1 8 edges hedges file hfile).mpr
    ⟨⟨2, rfl⟩, ⟨0, by decide, 1, by decide, by decide +kernel⟩, by decide +kernel,
      by decide +kernel⟩
  exact ⟨edges, file, t, hedges, hfile, ht⟩

/-- A one on the diagonal is no edge of the chiplet network, but a link of a router to itself. -/
theorem self_link_added : ∃ edges file t,
    System.buildChipletNetwork 4 (ringMatrix 1) = .ok edges ∧
    convertAdjMatrixToYamlTopology (ringMatrix 1) = .ok file ∧
    makeTopology (commandOptions 4 1) 8 file = .ok t ∧ (1, 1) ∉ edges ∧
    (0, 0) ∈ (t.intLinks.map fun l => (l.srcNode, l.dstNode)) ∧ ¬ LinksMatch edges t.intLinks := by
  obtain ⟨edges, hedges⟩ : ∃ edges, System.buildChipletNetwork 4 (ringMatrix 1) = .ok edges :=
    ⟨_, rfl⟩
  obtain ⟨file, hfile⟩ : ∃ file, convertAdjMatrixToYamlTopology (ringMatrix 1) = .ok file :=
    ⟨_, rfl⟩
  have hself : (0, 0) ∈ allowedSet file := (mem_allowedSet hfile 0 0).mpr (by decide +kernel)
  have hne : file ≠ [] := by
    rintro rfl
    exact absurd hself List.not_mem_nil
  obtain ⟨t, ht⟩ := exists_topology 1 8 hne (show 0 < 4 by decide) ⟨2, rfl⟩ fun p hp => by
    obtain ⟨hsrc, hdst, -⟩ := (mem_allowedSet hfile p.1 p.2).mp hp
    exact ⟨hsrc, hdst⟩
  have hedge : (1, 1) ∉ edges := fun hmem =>
    ((mem_edges_iff hedges hfile 0 0).mp (.inl hmem)).1 rfl
  have hlink : (0, 0) ∈ t.intLinks.map fun l => (l.srcNode, l.dstNode) :=
    (links_of_makeTopology ht).2.2.2 ▸ hself
  refine ⟨edges, file, t, hedges, hfile, ht, hedge, hlink, fun hmatch => ?_⟩
  have hcount := hmatch 0 0
  rw [if_neg (by simpa using hedge)] at hcount
  exact List.count_eq_zero.mp hcount hlink

end Garnet

end ChipSim
