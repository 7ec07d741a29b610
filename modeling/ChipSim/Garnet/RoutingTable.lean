import Mathlib.Algebra.BigOperators.Ring.Finset
import Mathlib.Algebra.Order.BigOperators.Group.Finset
import ChipSim.Lib.Distances
import ChipSim.Garnet.Topology
import ChipSim.Garnet.Injection

/-!
# Routing tables

The network gives every interface two switches, one that sends and one that receives, and every
router one. The distances of the switches are relaxed until nothing changes; a router sends a packet
along a link on a shortest path, and of these along one of least weight. Whatever the random numbers
that choose between equal links, every packet gets to its interface, over links whose weights add up
to the distance.
-/

namespace ChipSim

open Lib

namespace Garnet

/-- What stops the network. -/
inductive NetFault
  | assertion
  | outOfRange
  | fatal
  | noRoute
  | panic
  | nullMessage
  | nullPointer
  | injection (fault : Fault)
deriving DecidableEq

/-! ## Links -/

/-- `INFINITE_LATENCY`. -/
def infiniteLatency : ℕ := 10000

/-- A number for every pair of switches. -/
abbrev SwitchMatrix := ℕ × ℕ → ℕ

/-- An entry of `m_link_map`. -/
structure DirectedLink where
  src : ℕ
  dest : ℕ
  weight : ℕ
deriving DecidableEq

namespace Topology

/-- The constructor of `Topology`: an external link is two links, and has the default weight. Of
`nodes` interfaces, interface `i` sends at switch `i` and receives at switch `i + nodes`. -/
def directedLinks (t : Topology) (nodes : ℕ) : List DirectedLink :=
  (t.extLinks.flatMap fun e =>
    [⟨e.extNode, e.intNode + 2 * nodes, 1⟩, ⟨e.intNode + 2 * nodes, e.extNode + nodes, 1⟩]) ++
  t.intLinks.map fun l => ⟨l.srcNode + 2 * nodes, l.dstNode + 2 * nodes, l.weight⟩

end Topology

/-- `max_switch_id + 1`. -/
def numSwitches (links : List DirectedLink) : ℕ :=
  links.foldl (fun m l => max (max m l.src) l.dest) 0 + 1

/-- `topology_weights`; two links of the same switches are fatal. -/
def topologyWeights (links : List DirectedLink) : Except NetFault SwitchMatrix :=
  if (links.map fun l => (l.src, l.dest)).Nodup then
    .ok (links.foldl (fun w l => Function.update w (l.src, l.dest) l.weight)
      fun p => if p.1 = p.2 then 0 else infiniteLatency)
  else .error .fatal

/-! ## Shortest paths -/

/-- The loop over the intermediate switches. -/
def minimum (nodes : ℕ) (dist : SwitchMatrix) (p : ℕ × ℕ) : ℕ :=
  (List.range nodes).foldl (fun m k => min m (dist (p.1, k) + dist (k, p.2))) (dist p)

/-- The body of the loops over the pairs, with the flag `change`. -/
def relaxEntry (nodes : ℕ) (s : SwitchMatrix × Bool) (p : ℕ × ℕ) : SwitchMatrix × Bool :=
  if s.1 p ≠ minimum nodes s.1 p then
    (Function.update s.1 p (minimum nodes s.1 p), true)
  else s

/-- The pairs of the two loops. -/
def switchPairs (nodes : ℕ) : List (ℕ × ℕ) :=
  (List.range nodes).flatMap fun i => (List.range nodes).map fun j => (i, j)

/-- One round of `extend_shortest_path`, with the flag `change`. -/
def relaxAll (nodes : ℕ) (dist : SwitchMatrix) : SwitchMatrix × Bool :=
  (switchPairs nodes).foldl (relaxEntry nodes) (dist, false)

theorem mem_switchPairs {nodes : ℕ} {p : ℕ × ℕ} :
    p ∈ switchPairs nodes ↔ p.1 < nodes ∧ p.2 < nodes := by
  unfold switchPairs
  simp only [List.mem_flatMap, List.mem_map, List.mem_range]
  constructor
  · rintro ⟨i, hi, j, hj, rfl⟩
    exact ⟨hi, hj⟩
  · intro h
    exact ⟨p.1, h.1, p.2, h.2, rfl⟩

/-- The sum of all entries. -/
def totalDist (nodes : ℕ) (dist : SwitchMatrix) : ℕ :=
  ∑ p ∈ Finset.range nodes ×ˢ Finset.range nodes, dist p

section Minimum

variable {nodes : ℕ} {dist : SwitchMatrix} {p : ℕ × ℕ}

theorem minimum_le (nodes : ℕ) (dist : SwitchMatrix) (p : ℕ × ℕ) : minimum nodes dist p ≤ dist p :=
  (foldl_min_le _ _ _).1

theorem minimum_le_add {k : ℕ} (hk : k < nodes) :
    minimum nodes dist p ≤ dist (p.1, k) + dist (k, p.2) :=
  (foldl_min_le _ _ _).2 k (List.mem_range.mpr hk)

theorem minimum_eq (nodes : ℕ) (dist : SwitchMatrix) (p : ℕ × ℕ) :
    minimum nodes dist p = dist p ∨
      ∃ k < nodes, minimum nodes dist p = dist (p.1, k) + dist (k, p.2) := by
  rcases foldl_min_eq (fun k => dist (p.1, k) + dist (k, p.2)) (List.range nodes) (dist p) with
    h | ⟨k, hk, h⟩
  · exact .inl h
  · exact .inr ⟨k, List.mem_range.mp hk, h⟩

end Minimum

section Relax

variable {nodes : ℕ} {s : SwitchMatrix × Bool} {p : ℕ × ℕ}

theorem relaxEntry_le (nodes : ℕ) (s : SwitchMatrix × Bool) (p q : ℕ × ℕ) :
    (relaxEntry nodes s p).1 q ≤ s.1 q := by
  unfold relaxEntry
  split
  · dsimp only
    rcases eq_or_ne q p with rfl | hq
    · rw [Function.update_self]
      exact minimum_le nodes s.1 q
    · rw [Function.update_of_ne hq]
  · exact le_rfl

/-- A change makes an entry smaller. -/
theorem totalDist_relaxEntry (hp : p.1 < nodes ∧ p.2 < nodes) :
    totalDist nodes (relaxEntry nodes s p).1 ≤ totalDist nodes s.1 ∧
      ((relaxEntry nodes s p).2 = true →
        s.2 = true ∨ totalDist nodes (relaxEntry nodes s p).1 < totalDist nodes s.1) := by
  have hle := relaxEntry_le nodes s p
  refine ⟨Finset.sum_le_sum fun q _ => hle q, fun hchange => ?_⟩
  by_cases h : s.1 p ≠ minimum nodes s.1 p
  · refine .inr (Finset.sum_lt_sum (fun q _ => hle q) ⟨p, ?_, ?_⟩)
    · exact Finset.mem_product.mpr ⟨Finset.mem_range.mpr hp.1, Finset.mem_range.mpr hp.2⟩
    · unfold relaxEntry
      rw [if_pos h]
      dsimp only
      rw [Function.update_self]
      exact lt_of_le_of_ne (minimum_le nodes s.1 p) h.symm
  · unfold relaxEntry at hchange
    rw [if_neg h] at hchange
    exact .inl hchange

/-- While the sum has not become smaller, nothing has changed. -/
theorem totalDist_foldl (l : List (ℕ × ℕ)) (hl : ∀ p ∈ l, p.1 < nodes ∧ p.2 < nodes)
    (s : SwitchMatrix × Bool) :
    totalDist nodes (l.foldl (relaxEntry nodes) s).1 ≤ totalDist nodes s.1 ∧
      ((l.foldl (relaxEntry nodes) s).2 = true →
        s.2 = true ∨ totalDist nodes (l.foldl (relaxEntry nodes) s).1 < totalDist nodes s.1) := by
  induction l generalizing s with
  | nil => exact ⟨le_rfl, .inl⟩
  | cons p l ih =>
    obtain ⟨hle, hlt⟩ := totalDist_relaxEntry (s := s) (hl p List.mem_cons_self)
    obtain ⟨hle', hlt'⟩ := ih (fun q hq => hl q (List.mem_cons_of_mem _ hq)) (relaxEntry nodes s p)
    refine ⟨hle'.trans hle, fun hchange => ?_⟩
    rcases hlt' hchange with h | h
    · exact (hlt h).imp id fun h => hle'.trans_lt h
    · exact .inr (h.trans_le hle)

theorem totalDist_relaxAll {dist : SwitchMatrix} (h : (relaxAll nodes dist).2 = true) :
    totalDist nodes (relaxAll nodes dist).1 < totalDist nodes dist :=
  ((totalDist_foldl (switchPairs nodes) (fun _ hp => mem_switchPairs.mp hp) (dist, false)).2
    h).resolve_left Bool.false_ne_true

/-- Without a change every entry was the least one already. -/
theorem foldl_relaxEntry_unchanged (l : List (ℕ × ℕ)) (s : SwitchMatrix × Bool)
    (h : (l.foldl (relaxEntry nodes) s).2 = false) :
    l.foldl (relaxEntry nodes) s = s ∧ ∀ p ∈ l, s.1 p = minimum nodes s.1 p := by
  induction l generalizing s with
  | nil => exact ⟨rfl, by simp⟩
  | cons p l ih =>
    obtain ⟨hs, hl⟩ := ih (relaxEntry nodes s p) h
    rw [List.foldl_cons, hs] at h
    by_cases hp : s.1 p ≠ minimum nodes s.1 p
    · unfold relaxEntry at h
      rw [if_pos hp] at h
      cases h
    · have hsame : relaxEntry nodes s p = s := if_neg hp
      rw [List.foldl_cons, hs, hsame]
      rw [hsame] at hl
      refine ⟨rfl, fun q hq => ?_⟩
      rcases List.mem_cons.mp hq with rfl | hq
      · exact not_not.mp hp
      · exact hl q hq

end Relax

/-- `extend_shortest_path` for one virtual network: rounds until nothing changes. The intermediate
switches and latencies, which nothing reads, are left out. -/
def extendShortestPath (nodes : ℕ) (dist : SwitchMatrix) : SwitchMatrix :=
  if (relaxAll nodes dist).2 = true then extendShortestPath nodes (relaxAll nodes dist).1
  else (relaxAll nodes dist).1
termination_by totalDist nodes dist
decreasing_by exact totalDist_relaxAll ‹_›

/-- `shortest_path`. -/
def shortestPath (nodes : ℕ) (weights : SwitchMatrix) : SwitchMatrix :=
  extendShortestPath nodes weights

/-! ## Distances -/

/-- A matrix on the switches. -/
def onSwitches (nodes : ℕ) (m : SwitchMatrix) (i j : Fin nodes) : ℕ := m (i.val, j.val)

/-- The entries are costs of walks over the links. -/
def Walks (nodes : ℕ) (weights dist : SwitchMatrix) : Prop :=
  ∀ i j : Fin nodes, Walk (onSwitches nodes weights) i j (dist (i.val, j.val))

section Distances

variable {nodes : ℕ} {weights dist : SwitchMatrix}

theorem Walks.relaxEntry {s : SwitchMatrix × Bool} (h : Walks nodes weights s.1) (p : ℕ × ℕ) :
    Walks nodes weights (relaxEntry nodes s p).1 := by
  unfold Garnet.relaxEntry
  split
  · intro i j
    dsimp only
    rcases eq_or_ne (i.val, j.val) p with rfl | hne
    · rw [Function.update_self]
      rcases minimum_eq nodes s.1 (i.val, j.val) with hmin | ⟨k, hk, hmin⟩
      · exact hmin ▸ h i j
      · exact hmin ▸ (h i ⟨k, hk⟩).append (h ⟨k, hk⟩ j)
    · rw [Function.update_of_ne hne]
      exact h i j
  · exact h

theorem Walks.relaxAll (h : Walks nodes weights dist) :
    Walks nodes weights (relaxAll nodes dist).1 := by
  unfold Garnet.relaxAll
  generalize switchPairs nodes = l
  have hs : Walks nodes weights (dist, false).1 := h
  revert hs
  generalize (dist, false) = s
  intro hs
  induction l generalizing s with
  | nil => exact hs
  | cons p l ih => exact ih _ (hs.relaxEntry p)

theorem relaxAll_le (nodes : ℕ) (dist : SwitchMatrix) (q : ℕ × ℕ) :
    (relaxAll nodes dist).1 q ≤ dist q := by
  unfold relaxAll
  generalize switchPairs nodes = l
  have hs : (dist, false).1 q ≤ dist q := le_rfl
  revert hs
  generalize (dist, false) = s
  intro hs
  induction l generalizing s with
  | nil => exact hs
  | cons p l ih => exact ih _ ((relaxEntry_le nodes s p q).trans hs)

/-- What holds of a matrix that the rounds start with, whatever it is: the result has no larger
entries, they are costs of walks if those were, and no way over an intermediate switch is
shorter. -/
theorem extendShortestPath_spec (nodes : ℕ) (weights dist : SwitchMatrix) :
    (∀ q, extendShortestPath nodes dist q ≤ dist q) ∧
      (Walks nodes weights dist → Walks nodes weights (extendShortestPath nodes dist)) ∧
      ∀ i j k, i < nodes → j < nodes → k < nodes → extendShortestPath nodes dist (i, j) ≤
        extendShortestPath nodes dist (i, k) + extendShortestPath nodes dist (k, j) := by
  induction dist using extendShortestPath.induct nodes with
  | case1 dist hchange ih =>
    rw [extendShortestPath, if_pos hchange]
    exact ⟨fun q => (ih.1 q).trans (relaxAll_le nodes dist q), fun h => ih.2.1 h.relaxAll, ih.2.2⟩
  | case2 dist hchange =>
    rw [extendShortestPath, if_neg hchange]
    refine ⟨relaxAll_le nodes dist, fun h => h.relaxAll, fun i j k hi hj hk => ?_⟩
    obtain ⟨hsame, hmin⟩ := foldl_relaxEntry_unchanged (switchPairs nodes) (dist, false)
      (Bool.eq_false_iff.mpr hchange)
    have hdist : (relaxAll nodes dist).1 = dist := congrArg Prod.fst hsame
    rw [hdist]
    calc dist (i, j) = minimum nodes dist (i, j) := hmin _ (mem_switchPairs.mpr ⟨hi, hj⟩)
      _ ≤ dist (i, k) + dist (k, j) := minimum_le_add hk

/-- **Shortest paths.** The rounds end with the least costs of walks over the links. -/
theorem shortestPath_isDistance (nodes : ℕ) (weights : SwitchMatrix) :
    IsDistance (onSwitches nodes weights) (onSwitches nodes (shortestPath nodes weights)) := by
  obtain ⟨hle, hwalks, htriangle⟩ := extendShortestPath_spec nodes weights weights
  refine isDistance_of_triangle ?_ (fun i j => hle _) fun i k j => ?_
  · exact hwalks fun i j => .edge (w := onSwitches nodes weights) i j
  · exact htriangle i j k i.isLt j.isLt k.isLt

end Distances

/-! ## Tables -/

/-- The machines of the network by type, its switches and the weights of its links. -/
structure Routing where
  machineTypeNum : ℕ
  baseCount : ℕ → ℕ
  nodes : ℕ
  weights : SwitchMatrix

/-- An output port of a router: where the link goes, its weight and the machines of its entry in the
routing table. -/
structure OutputLink where
  dest : ℕ
  weight : ℕ
  netDest : List (ℕ × ℤ)

/-- `intersectionIsNotEmpty`, for a message with at most one destination. -/
def OutputLink.reaches (e : OutputLink) (dest : Option (ℕ × ℤ)) : Bool :=
  e.netDest.any fun machine => decide (dest = some machine)

/-- The least weight of the links to a destination; `INFINITE_` is `10000`. -/
def minWeight (table : List OutputLink) (dest : Option (ℕ × ℤ)) : ℕ :=
  table.foldl (fun m e => if e.reaches dest then if e.weight ≤ m then e.weight else m else m) 10000

/-- `output_link_candidates`. -/
def outputLinkCandidates (table : List OutputLink) (dest : Option (ℕ × ℤ)) : List ℕ :=
  (table.zipIdx.filter fun e =>
    e.1.reaches dest && decide (e.1.weight = minWeight table dest)).map Prod.snd

/-- `lookupRoutingTable`, with the random number that it draws. -/
def lookupRoutingTable (ordered : Bool) (rand : ℕ) (table : List OutputLink)
    (dest : Option (ℕ × ℤ)) : Except NetFault ℕ :=
  let candidates := outputLinkCandidates table dest
  if candidates = [] then .error .noRoute
  else
    match candidates[if ordered then 0 else rand % candidates.length]? with
    | some link => .ok link
    | none => .error .outOfRange

/-- `Topology::createLinks`, as far as the routes depend on it, with the assertion of the
constructor. -/
def Topology.createLinks (t : Topology) (machineTypeNum : ℕ) (baseCount : ℕ → ℕ) :
    Except NetFault Routing :=
  let nodes := ((List.range machineTypeNum).map baseCount).sum
  if nodes ≤ 1 then .error .assertion
  else do
    let weights ← topologyWeights (t.directedLinks nodes)
    return ⟨machineTypeNum, baseCount, numSwitches (t.directedLinks nodes), weights⟩

namespace Routing

variable (net : Routing)

/-- The machines, in the order of their interfaces. -/
def machines : List (ℕ × ℤ) :=
  (List.range net.machineTypeNum).flatMap fun m =>
    (List.range (net.baseCount m)).map fun i : ℕ => (m, (i : ℤ))

/-- The distances of the switches. -/
def dist : SwitchMatrix := shortestPath net.nodes net.weights

/-- `link_is_shortest_path_to_node`. -/
def linkIsShortestPathToNode (src next final : ℕ) : Bool :=
  decide (net.weights (src, next) + net.dist (next, final) = net.dist (src, final))

/-- `shortest_path_to_node`. -/
def shortestPathToNode (src next : ℕ) : List (ℕ × ℤ) :=
  (net.machines.zipIdx.filter fun e =>
    net.linkIsShortestPathToNode src next (e.2 + net.machines.length)).map Prod.fst

/-- `realLink`. -/
def RealLink (i j : ℕ) : Prop := 0 < net.weights (i, j) ∧ net.weights (i, j) ≠ infiniteLatency

instance (i j : ℕ) : Decidable (net.RealLink i j) := inferInstanceAs (Decidable (_ ∧ _))

/-- The output ports of a router, in the order in which `createLinks` makes them. -/
def table (src : ℕ) : List OutputLink :=
  ((List.range net.nodes).filter fun j => net.RealLink src j).map fun j =>
    ⟨j, net.weights (src, j), net.shortestPathToNode src j⟩

/-- The switch that a packet is sent to. -/
def hop (ordered : Bool) (rand : ℕ) (dest : Option (ℕ × ℤ)) (src : ℕ) : Except NetFault ℕ := do
  let outport ← lookupRoutingTable ordered rand (net.table src) dest
  match (net.table src)[outport]? with
  | some e => .ok e.dest
  | none => .error .outOfRange

/-- The switches that a packet goes over, up to its last one, or as many as there is time for. -/
def journey (ordered : Bool) (rand : ℕ → ℕ) (dest : Option (ℕ × ℤ)) (final : ℕ) :
    ℕ → ℕ → Except NetFault (List ℕ)
  | 0, src => .ok [src]
  | n + 1, src =>
    if src = final then .ok [src]
    else do
      let next ← net.hop ordered (rand n) dest src
      let rest ← journey ordered rand dest final n next
      return src :: rest

/-- The weights of the links between the switches of a list. -/
def cost : List ℕ → ℕ
  | i :: j :: path => net.weights (i, j) + cost (j :: path)
  | _ => 0

end Routing

/-! ### The least weight -/

theorem minWeight_eq (table : List OutputLink) (dest : Option (ℕ × ℤ)) :
    minWeight table dest =
      (table.filter (·.reaches dest)).foldl (fun m e => min m e.weight) 10000 := by
  unfold minWeight
  rw [List.foldl_filter]
  congr 1
  funext m e
  by_cases h : e.reaches dest = true
  · rw [if_pos h, if_pos h]
    split
    · next hle => exact (min_eq_right hle).symm
    · next hle => exact (min_eq_left (by omega)).symm
  · rw [if_neg h, if_neg h]

/-- A candidate has the least weight of the links to the destination. -/
theorem mem_outputLinkCandidates {table : List OutputLink} {dest : Option (ℕ × ℤ)} {o : ℕ} :
    o ∈ outputLinkCandidates table dest ↔
      ∃ e, table[o]? = some e ∧ e.reaches dest = true ∧ e.weight = minWeight table dest := by
  unfold outputLinkCandidates
  simp only [List.mem_map, List.mem_filter, Prod.exists, List.mk_mem_zipIdx_iff_getElem?,
    Bool.and_eq_true, decide_eq_true_eq, exists_eq_right]

theorem minWeight_le {table : List OutputLink} {dest : Option (ℕ × ℤ)} {e : OutputLink}
    (he : e ∈ table) (hdest : e.reaches dest = true) : minWeight table dest ≤ e.weight := by
  rw [minWeight_eq]
  exact (foldl_min_le OutputLink.weight _ _).2 e (List.mem_filter.mpr ⟨he, hdest⟩)

theorem exists_candidate {table : List OutputLink} {dest : Option (ℕ × ℤ)} {e : OutputLink}
    (he : e ∈ table) (hdest : e.reaches dest = true) (hweight : e.weight ≤ 10000) :
    outputLinkCandidates table dest ≠ [] := by
  obtain ⟨e', he', hdest', hmin⟩ :
      ∃ e ∈ table, e.reaches dest = true ∧ e.weight = minWeight table dest := by
    rcases foldl_min_eq OutputLink.weight (table.filter (·.reaches dest)) 10000 with
      h | ⟨e', he', h⟩
    · refine ⟨e, he, hdest, le_antisymm ?_ (minWeight_le he hdest)⟩
      rwa [minWeight_eq, h]
    · rw [← minWeight_eq] at h
      exact ⟨e', (List.mem_filter.mp he').1, (List.mem_filter.mp he').2, h.symm⟩
  obtain ⟨o, ho⟩ := List.mem_iff_getElem?.mp he'
  exact List.ne_nil_of_mem (mem_outputLinkCandidates.mpr ⟨e', ho, hdest', hmin⟩)

/-- What is looked up is a candidate, and there is one unless no link leads to the destination. -/
theorem lookupRoutingTable_ok (ordered : Bool) (rand : ℕ) {table : List OutputLink}
    {dest : Option (ℕ × ℤ)} (h : outputLinkCandidates table dest ≠ []) :
    ∃ o ∈ outputLinkCandidates table dest,
      lookupRoutingTable ordered rand table dest = .ok o := by
  have hlength := List.length_pos_of_ne_nil h
  have hindex : (if ordered then 0 else rand % (outputLinkCandidates table dest).length) <
      (outputLinkCandidates table dest).length := by
    split
    · exact hlength
    · exact Nat.mod_lt _ hlength
  refine ⟨_, List.getElem_mem hindex, ?_⟩
  unfold lookupRoutingTable
  dsimp only
  rw [if_neg h, List.getElem?_eq_getElem hindex]

/-! ### The entries -/

namespace Routing

variable {net : Routing}

/-- The rounds end with any matrix of least costs. -/
theorem dist_eq {dist : SwitchMatrix} {i j : ℕ}
    (h : IsDistance (onSwitches net.nodes net.weights) (onSwitches net.nodes dist))
    (hi : i < net.nodes) (hj : j < net.nodes) : net.dist (i, j) = dist (i, j) :=
  congrFun₂ ((shortestPath_isDistance net.nodes net.weights).unique h) ⟨i, hi⟩ ⟨j, hj⟩

theorem machines_nodup (net : Routing) : net.machines.Nodup := by
  unfold machines
  refine List.nodup_flatMap.mpr ⟨fun m _ => ?_, ?_⟩
  · refine List.nodup_range.map fun i j h => ?_
    simpa using h
  · refine List.nodup_range.imp fun {m m'} hne => ?_
    intro machine h h'
    obtain ⟨_, -, rfl⟩ := List.mem_map.mp h
    obtain ⟨_, -, h'⟩ := List.mem_map.mp h'
    exact hne (congrArg Prod.fst h').symm

/-- An entry of the table is a link, and lists the machines it is on a shortest path to. -/
theorem mem_table {src : ℕ} {e : OutputLink} :
    e ∈ net.table src ↔ ∃ j < net.nodes, net.RealLink src j ∧
      e = ⟨j, net.weights (src, j), net.shortestPathToNode src j⟩ := by
  unfold table
  simp only [List.mem_map, List.mem_filter, List.mem_range, decide_eq_true_eq]
  constructor
  · rintro ⟨j, ⟨hj, hlink⟩, rfl⟩
    exact ⟨j, hj, hlink, rfl⟩
  · rintro ⟨j, hj, hlink, rfl⟩
    exact ⟨j, ⟨hj, hlink⟩, rfl⟩

theorem reaches_iff {src j d : ℕ} {weight : ℕ} (hd : d < net.machines.length) :
    OutputLink.reaches ⟨j, weight, net.shortestPathToNode src j⟩ net.machines[d]? = true ↔
      net.weights (src, j) + net.dist (j, d + net.machines.length) =
        net.dist (src, d + net.machines.length) := by
  unfold OutputLink.reaches shortestPathToNode linkIsShortestPathToNode
  simp only [List.any_eq_true, List.mem_map, List.mem_filter, decide_eq_true_eq]
  constructor
  · rintro ⟨_, ⟨e, ⟨he, h⟩, rfl⟩, hmachine⟩
    have he := List.mem_zipIdx_iff_getElem?.mp he
    rwa [(List.getElem?_inj hd net.machines_nodup).mp (hmachine.trans he.symm)]
  · intro h
    exact ⟨net.machines[d], ⟨(net.machines[d], d),
      ⟨List.mem_zipIdx_iff_getElem?.mpr (List.getElem?_eq_getElem hd), h⟩, rfl⟩,
      List.getElem?_eq_getElem hd⟩

/-! ## Journeys -/

/-- The switch at which interface `d` receives. -/
def receiver (net : Routing) (d : ℕ) : ℕ := d + net.machines.length

/-- Interface `d` receives at a switch with no link to itself, and no link has weight `0`. -/
structure Receives (net : Routing) (d : ℕ) : Prop where
  ne_zero : ∀ i j, net.weights (i, j) = 0 → i = j
  lt_machines : d < net.machines.length
  lt_nodes : net.receiver d < net.nodes
  self_weight : net.weights (net.receiver d, net.receiver d) = 0

theorem Receives.dist_self {d : ℕ} (h : net.Receives d) :
    net.dist (net.receiver d, net.receiver d) = 0 := by
  have hle := (extendShortestPath_spec net.nodes net.weights net.weights).1
    (net.receiver d, net.receiver d)
  rw [h.self_weight] at hle
  exact Nat.le_zero.mp hle

/-- A link that is on a shortest path to interface `d`. -/
structure Approaches (net : Routing) (d i j : ℕ) : Prop where
  lt_nodes : j < net.nodes
  realLink : net.RealLink i j
  dist : net.weights (i, j) + net.dist (j, net.receiver d) = net.dist (i, net.receiver d)

theorem exists_approaches {d i : ℕ} (hd : net.Receives d) (hi : i < net.nodes)
    (hne : i ≠ net.receiver d) (hdist : net.dist (i, net.receiver d) < infiniteLatency) :
    ∃ j, net.Approaches d i j := by
  let final : Fin net.nodes := ⟨net.receiver d, hd.lt_nodes⟩
  have hself : onSwitches net.nodes (shortestPath net.nodes net.weights) final final = 0 :=
    hd.dist_self
  obtain ⟨j, hpos, hj⟩ := (shortestPath_isDistance net.nodes net.weights).exists_edge
    (i := ⟨i, hi⟩) (fun i j h => Fin.ext (hd.ne_zero i j h)) hself fun h => hne (Fin.mk.inj h)
  have hj : net.weights (i, j) + net.dist (j, net.receiver d) = net.dist (i, net.receiver d) := hj
  exact ⟨j, j.isLt, ⟨hpos, by omega⟩, hj⟩

/-- **One hop.** A router that is not too far from an interface sends every packet for it along a
link on a shortest path. -/
theorem hop_ok {d i : ℕ} (hd : net.Receives d) (hi : i < net.nodes) (hne : i ≠ net.receiver d)
    (hdist : net.dist (i, net.receiver d) < infiniteLatency) (ordered : Bool) (rand : ℕ) :
    ∃ j, net.hop ordered rand net.machines[d]? i = .ok j ∧ net.Approaches d i j := by
  obtain ⟨k, hk⟩ := exists_approaches hd hi hne hdist
  have hcandidates : outputLinkCandidates (net.table i) net.machines[d]? ≠ [] := by
    refine exists_candidate (mem_table.mpr ⟨k, hk.lt_nodes, hk.realLink, rfl⟩)
      ((reaches_iff hd.lt_machines).mpr hk.dist) ?_
    have := hk.dist
    unfold infiniteLatency at hdist
    dsimp only
    omega
  obtain ⟨o, ho, hlookup⟩ := lookupRoutingTable_ok ordered rand hcandidates
  obtain ⟨e, he, hreaches, -⟩ := mem_outputLinkCandidates.mp ho
  obtain ⟨j, hj, hlink, rfl⟩ := mem_table.mp (List.mem_of_getElem? he)
  refine ⟨j, ?_, hj, hlink, (reaches_iff hd.lt_machines).mp hreaches⟩
  unfold hop
  rw [hlookup]
  dsimp only [ok_bind]
  rw [he]

/-- Whatever the random numbers, a packet for an interface that is not too far away gets there, over
links whose weights add up to the distance. -/
theorem journey_arrives {d : ℕ} (hd : net.Receives d) (ordered : Bool) (rand : ℕ → ℕ) {n i : ℕ}
    (hi : i < net.nodes) (hdist : net.dist (i, net.receiver d) < infiniteLatency)
    (hn : net.dist (i, net.receiver d) ≤ n) :
    ∃ path, net.journey ordered rand net.machines[d]? (net.receiver d) n i = .ok (i :: path) ∧
      (i :: path).getLast? = some (net.receiver d) ∧ (i :: path).IsChain net.RealLink ∧
        net.cost (i :: path) = net.dist (i, net.receiver d) := by
  induction n generalizing i with
  | zero =>
    by_cases hne : i = net.receiver d
    · subst hne
      exact ⟨[], rfl, rfl, .singleton _, hd.dist_self.symm⟩
    · obtain ⟨j, hj⟩ := exists_approaches hd hi hne hdist
      have := hj.dist
      have := hj.realLink.1
      omega
  | succ n ih =>
    unfold journey
    by_cases hne : i = net.receiver d
    · rw [if_pos hne]
      subst hne
      exact ⟨[], rfl, rfl, .singleton _, hd.dist_self.symm⟩
    · rw [if_neg hne]
      obtain ⟨j, hhop, happroaches⟩ := hop_ok hd hi hne hdist ordered (rand n)
      have hcloser := happroaches.dist
      have hpos := happroaches.realLink.1
      obtain ⟨path, hpath, hlast, hchain, hcost⟩ := ih happroaches.lt_nodes (by omega) (by omega)
      refine ⟨j :: path, ?_, ?_, .cons_cons happroaches.realLink hchain, ?_⟩
      · rw [hhop, ok_bind, hpath, ok_bind]
        rfl
      · rw [List.getLast?_cons_cons, hlast]
      · unfold cost
        rw [hcost, hcloser]

end Routing

end Garnet

end ChipSim
