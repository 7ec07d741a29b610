import ChipSim.Garnet.RoutingTable

/-!
# Routes of the made topology

The topology that the command makes joins every interface to a router, and the routers as the file
says. Every packet arrives, over links that cost no more than any other way.
-/

namespace ChipSim

open Lib

namespace Garnet

/-! ## Links of the topology -/

/-- The links that the command makes of the links of a file. -/
def madeLinks (numChiplets numCols nodes : ℕ) (allowed : List (ℕ × ℕ)) : List DirectedLink :=
  ((List.range nodes).flatMap fun i =>
    [⟨i, i % numChiplets + 2 * nodes, 1⟩, ⟨i % numChiplets + 2 * nodes, i + nodes, 1⟩]) ++
  allowed.map fun p => ⟨p.1 + 2 * nodes, p.2 + 2 * nodes, linkWeight numCols p.1 p.2⟩

theorem directedLinks_of_makeTopology {numChiplets linkLatency nodes : ℕ} {file : TopologyFile}
    {t : Topology} (h : makeTopology (commandOptions numChiplets linkLatency) nodes file = .ok t) :
    ∃ numCols, numCols ≠ 0 ∧ numCols * numCols = numChiplets ∧
      t.directedLinks nodes = madeLinks numChiplets numCols nodes (allowedSet file) := by
  obtain ⟨-, -, hinside, -⟩ := links_of_makeTopology h
  obtain ⟨extLinks, hext, h⟩ := bind_eq_ok.mp h
  obtain ⟨allowed, hallowed, h⟩ := bind_eq_ok.mp h
  obtain ⟨numRows, hrows, h⟩ := bind_eq_ok.mp h
  obtain ⟨hne, hsquare⟩ := meshRows_eq_ok.mp hrows
  have hcols : (commandOptions numChiplets linkLatency).numCpus / numRows = numRows := by
    rw [show (commandOptions numChiplets linkLatency).numCpus = numRows * numRows from
      hsquare.symm]
    exact Nat.mul_div_cancel_left _ (Nat.pos_of_ne_zero hne)
  have hfile : allowed = allowedSet file := by
    unfold readConnections at hallowed
    split_ifs at hallowed
    cases hallowed
    rfl
  subst hfile
  dsimp only at h
  split at h
  · cases h
  obtain ⟨intLinks, hint, h⟩ := bind_eq_ok.mp h
  cases h
  have hchiplets : numChiplets ≠ 0 := by
    rintro rfl
    exact (Nat.mul_eq_zero.mp hsquare).elim hne hne
  -- Neither loop raises, so that both are maps.
  have hext' := mapM_ok (l := List.range nodes) fun i _ =>
    show connectController (commandOptions numChiplets linkLatency) i = .ok _ from
      if_neg hchiplets
  have hint' := mapM_ok (l := (allowedSet file).zipIdx) fun e he =>
    show appendLink (commandOptions numChiplets linkLatency) nodes
      ((commandOptions numChiplets linkLatency).numCpus / numRows) e = .ok _ from
      if_pos (hinside e.1 (List.fst_mem_of_mem_zipIdx he))
  rw [hext'] at hext
  rw [hint'] at hint
  cases hext
  cases hint
  refine ⟨numRows, hne, hsquare, ?_⟩
  unfold Topology.directedLinks madeLinks
  rw [List.flatMap_map, List.map_map, hcols]
  congr 1
  conv_rhs => rw [← List.zipIdx_map_fst 0 (allowedSet file), List.map_map]
  rfl

theorem mem_madeLinks {numChiplets numCols nodes : ℕ} {allowed : List (ℕ × ℕ)} {l : DirectedLink} :
    l ∈ madeLinks numChiplets numCols nodes allowed ↔
      (∃ i < nodes, l = ⟨i, i % numChiplets + 2 * nodes, 1⟩ ∨
        l = ⟨i % numChiplets + 2 * nodes, i + nodes, 1⟩) ∨
      ∃ p ∈ allowed, l = ⟨p.1 + 2 * nodes, p.2 + 2 * nodes, linkWeight numCols p.1 p.2⟩ := by
  unfold madeLinks
  simp only [List.mem_append, List.mem_flatMap, List.mem_range, List.mem_cons, List.not_mem_nil,
    or_false, List.mem_map]
  constructor
  · rintro (h | ⟨p, hp, rfl⟩)
    · exact .inl h
    · exact .inr ⟨p, hp, rfl⟩
  · rintro (h | ⟨p, hp, rfl⟩)
    · exact .inl h
    · exact .inr ⟨p, hp, rfl⟩

/-- No two links join the same switches. -/
theorem madeLinks_nodup (numChiplets numCols nodes : ℕ) {allowed : List (ℕ × ℕ)}
    (hallowed : allowed.Nodup) :
    ((madeLinks numChiplets numCols nodes allowed).map fun l => (l.src, l.dest)).Nodup := by
  unfold madeLinks
  rw [List.map_append, List.map_flatMap, List.map_map]
  refine List.nodup_append.mpr ⟨?_, ?_, ?_⟩
  · refine List.nodup_flatMap.mpr ⟨fun i hi => ?_, ?_⟩
    · have := List.mem_range.mp hi
      simp only [List.map_cons, List.map_nil, List.nodup_cons, List.mem_singleton, Prod.mk.injEq,
        List.not_mem_nil, not_false_eq_true, List.nodup_nil, and_true]
      omega
    · refine (List.nodup_range.imp_of_mem fun {i j} hi hj hne => ?_)
      have := List.mem_range.mp hi
      have := List.mem_range.mp hj
      simp only [Function.onFun, List.disjoint_left, List.map_cons, List.map_nil, List.mem_cons,
        List.not_mem_nil, or_false]
      rintro p (rfl | rfl) <;> simp only [Prod.mk.injEq] <;> omega
  · refine hallowed.map fun p q h => ?_
    simp only [Function.comp_apply, Prod.mk.injEq, Nat.add_right_cancel_iff] at h
    exact Prod.ext h.1 h.2
  · intro p hp q hq
    obtain ⟨i, hi, hp⟩ := List.mem_flatMap.mp hp
    obtain ⟨e, -, rfl⟩ := List.mem_map.mp hq
    have := List.mem_range.mp hi
    simp only [List.map_cons, List.map_nil, List.mem_cons, List.not_mem_nil, or_false] at hp
    rintro rfl
    simp only [Function.comp_apply, Prod.mk.injEq] at hp
    omega

/-- An entry of the weights is the weight of the link, if there is one. -/
theorem topologyWeights_eq_ok {links : List DirectedLink} {w : SwitchMatrix}
    (h : topologyWeights links = .ok w) (p : ℕ × ℕ) :
    (∃ l ∈ links, (l.src, l.dest) = p ∧ w p = l.weight) ∨
      (∀ l ∈ links, (l.src, l.dest) ≠ p) ∧ w p = if p.1 = p.2 then 0 else infiniteLatency := by
  unfold topologyWeights at h
  split_ifs at h
  cases h
  have hread : ∀ w : SwitchMatrix,
      links.foldl (fun t l => if (l.src, l.dest) = p then l.weight else t) (w p) =
        links.foldl (fun w l => Function.update w (l.src, l.dest) l.weight) w p := by
    intro w
    refine List.foldl_hom (fun w : SwitchMatrix => w p) fun w l => ?_
    rw [Function.update_apply]
    simp only [eq_comm]
  rw [← hread]
  exact foldl_overwrite (fun l => (l.src, l.dest) = p) DirectedLink.weight links _

/-- A real link is one of the links. -/
theorem Routing.RealLink.exists_link {net : Routing} {links : List DirectedLink} {i j : ℕ}
    (hreal : net.RealLink i j) (h : topologyWeights links = .ok net.weights) :
    ∃ l ∈ links, l.src = i ∧ l.dest = j := by
  obtain ⟨hpos, hne⟩ := hreal
  rcases topologyWeights_eq_ok h (i, j) with ⟨l, hl, hpair, -⟩ | ⟨-, hdefault⟩
  · exact ⟨l, hl, Prod.mk.inj hpair⟩
  · rw [hdefault] at hpos hne
    split_ifs at hpos hne
    · exact absurd hpos (lt_irrefl 0)
    · exact absurd rfl hne

theorem lt_numSwitches {links : List DirectedLink} {l : DirectedLink} (hl : l ∈ links) :
    l.src < numSwitches links ∧ l.dest < numSwitches links := by
  have hle : ∀ (links : List DirectedLink) (m : ℕ),
      m ≤ links.foldl (fun m l => max (max m l.src) l.dest) m ∧
        ∀ l ∈ links, l.src ≤ links.foldl (fun m l => max (max m l.src) l.dest) m ∧
          l.dest ≤ links.foldl (fun m l => max (max m l.src) l.dest) m := by
    intro links
    induction links with
    | nil => simp
    | cons a links ih =>
      intro m
      obtain ⟨hm, hlinks⟩ := ih (max (max m a.src) a.dest)
      refine ⟨by simp only [List.foldl_cons]; omega, fun l hl => ?_⟩
      rcases List.mem_cons.mp hl with rfl | hl
      · simp only [List.foldl_cons]
        omega
      · exact hlinks l hl
  obtain ⟨hsrc, hdest⟩ := (hle links 0).2 l hl
  exact ⟨Nat.lt_succ_of_le hsrc, Nat.lt_succ_of_le hdest⟩

/-! ## Routes -/

theorem Routing.length_machines (net : Routing) :
    net.machines.length = ((List.range net.machineTypeNum).map net.baseCount).sum := by
  unfold Routing.machines
  simp only [List.length_flatMap, List.length_map, List.length_range]

/-- The place of a machine among the interfaces. -/
theorem Routing.getElem?_machines {net : Routing} {m i : ℕ} (hm : m < net.machineTypeNum)
    (hi : i < net.baseCount m) :
    net.machines[((List.range m).map net.baseCount).sum + i]? = some (m, (i : ℤ)) := by
  obtain ⟨k, hk⟩ := Nat.exists_eq_add_of_lt hm
  unfold Routing.machines
  rw [hk, Nat.add_right_comm, List.range_add, List.range_succ, List.flatMap_append,
    List.flatMap_append, List.flatMap_singleton, List.append_assoc, List.getElem?_append_right]
  · simp only [List.length_flatMap, List.length_map, List.length_range, Nat.add_sub_cancel_left]
    rw [List.getElem?_append_left (by simpa using hi)]
    simp [hi]
  · simp [List.length_flatMap]

/-- The routes over the links that the command makes of the links of a file. -/
structure Made (numChiplets numCols : ℕ) (allowed : List (ℕ × ℕ)) (net : Routing) : Prop where
  weights : topologyWeights (madeLinks numChiplets numCols net.machines.length allowed) =
    .ok net.weights
  nodes : net.nodes = numSwitches (madeLinks numChiplets numCols net.machines.length allowed)

theorem createLinks_made {numChiplets linkLatency machineTypeNum nodes : ℕ} {baseCount : ℕ → ℕ}
    {file : TopologyFile} {t : Topology}
    (h : makeTopology (commandOptions numChiplets linkLatency) nodes file = .ok t)
    (hnodes : ((List.range machineTypeNum).map baseCount).sum = nodes) (htwo : 1 < nodes) :
    ∃ numCols net, numCols ≠ 0 ∧ numCols * numCols = numChiplets ∧
      t.createLinks machineTypeNum baseCount = .ok net ∧ net.machines.length = nodes ∧
        Made numChiplets numCols (allowedSet file) net := by
  obtain ⟨numCols, hne, hsquare, hlinks⟩ := directedLinks_of_makeTopology h
  obtain ⟨weights, hweights⟩ : ∃ weights,
      topologyWeights (madeLinks numChiplets numCols nodes (allowedSet file)) = .ok weights :=
    ⟨_, if_pos (madeLinks_nodup numChiplets numCols nodes (List.nodup_dedup _))⟩
  let net : Routing := ⟨machineTypeNum, baseCount, numSwitches (t.directedLinks nodes), weights⟩
  have hlength : net.machines.length = nodes := net.length_machines.trans hnodes
  refine ⟨numCols, net, hne, hsquare, ?_, hlength, ?_, ?_⟩
  · unfold Topology.createLinks
    dsimp only
    rw [hnodes, if_neg (by omega), hlinks, hweights]
    exact congrArg (fun links => Except.ok (⟨_, _, numSwitches links, weights⟩ : Routing))
      hlinks.symm
  · rw [hlength]
    exact hweights
  · rw [hlength, ← hlinks]

namespace Made

variable {numChiplets numCols : ℕ} {allowed : List (ℕ × ℕ)} {net : Routing}

theorem lt_nodes (h : Made numChiplets numCols allowed net) {l : DirectedLink}
    (hl : l ∈ madeLinks numChiplets numCols net.machines.length allowed) :
    l.src < net.nodes ∧ l.dest < net.nodes := by
  rw [h.nodes]
  exact lt_numSwitches hl

theorem weight_bounds (numChiplets numCols nodes : ℕ) {allowed : List (ℕ × ℕ)} {l : DirectedLink}
    (hl : l ∈ madeLinks numChiplets numCols nodes allowed) :
    0 < l.weight ∧ l.weight < infiniteLatency := by
  rcases mem_madeLinks.mp hl with ⟨i, -, rfl | rfl⟩ | ⟨p, -, rfl⟩
  · exact ⟨Nat.one_pos, Nat.one_lt_succ_succ _⟩
  · exact ⟨Nat.one_pos, Nat.one_lt_succ_succ _⟩
  · dsimp only [linkWeight]
    split_ifs <;> decide

/-- No link goes out from a switch where an interface receives. -/
theorem src_ne_receiver {d : ℕ} (hd : d < net.machines.length) {l : DirectedLink}
    (hl : l ∈ madeLinks numChiplets numCols net.machines.length allowed) :
    l.src ≠ net.receiver d := by
  unfold Routing.receiver
  rcases mem_madeLinks.mp hl with ⟨i, hi, rfl | rfl⟩ | ⟨p, -, rfl⟩ <;> dsimp only <;> omega

theorem weight_le (h : Made numChiplets numCols allowed net) (p : ℕ × ℕ) :
    net.weights p ≤ infiniteLatency := by
  rcases topologyWeights_eq_ok h.weights p with ⟨l, hl, -, hweight⟩ | ⟨-, hdefault⟩
  · exact hweight ▸ (weight_bounds _ _ _ hl).2.le
  · rw [hdefault]
    split_ifs <;> decide

/-- Every interface receives. -/
theorem receives (h : Made numChiplets numCols allowed net) {d : ℕ}
    (hd : d < net.machines.length) : net.Receives d where
  ne_zero i j hzero := by
    rcases topologyWeights_eq_ok h.weights (i, j) with ⟨l, hl, -, hweight⟩ | ⟨-, hdefault⟩
    · have := (weight_bounds _ _ _ hl).1
      omega
    · by_contra hne
      rw [hdefault, if_neg hne] at hzero
      cases hzero
  lt_machines := hd
  lt_nodes := (h.lt_nodes (mem_madeLinks.mpr (.inl ⟨d, hd, .inr rfl⟩))).2
  self_weight := by
    rcases topologyWeights_eq_ok h.weights (net.receiver d, net.receiver d) with
      ⟨l, hl, hpair, -⟩ | ⟨-, hdefault⟩
    · exact absurd (congrArg Prod.fst hpair) (src_ne_receiver hd hl)
    · rw [hdefault, if_pos rfl]

/-- A link to an interface is on a shortest path to no other one. -/
theorem eq_of_approaches (h : Made numChiplets numCols allowed net) {n d i : ℕ}
    (hn : n < net.machines.length) (hd : d < net.machines.length)
    (happroaches : net.Approaches d i (net.receiver n)) : n = d := by
  by_contra hne
  have hle : net.dist (i, net.receiver d) ≤ infiniteLatency :=
    ((extendShortestPath_spec net.nodes net.weights net.weights).1 _).trans (h.weight_le _)
  have hpos := happroaches.realLink.1
  have hdist := happroaches.dist
  -- Otherwise a link would go out from the switch where the interface receives.
  obtain ⟨j, -, hreal, -⟩ := Routing.exists_approaches (h.receives hd)
    happroaches.lt_nodes (by simpa [Routing.receiver] using hne) (by omega)
  obtain ⟨l, hl, hsrc, -⟩ := hreal.exists_link h.weights
  exact src_ne_receiver hn hl hsrc

/-- No path to an interface costs less than the distance. -/
theorem dist_le_cost (h : Made numChiplets numCols allowed net) {d i : ℕ}
    (hd : d < net.machines.length) {path : List ℕ} (hhead : path.head? = some i)
    (hlast : path.getLast? = some (net.receiver d)) (hi : i < net.nodes)
    (hcost : net.cost path < infiniteLatency) : net.dist (i, net.receiver d) ≤ net.cost path := by
  have hreceives := h.receives hd
  induction path generalizing i with
  | nil => cases hhead
  | cons i' path ih =>
    obtain rfl : i' = i := by simpa using hhead
    cases path with
    | nil =>
      obtain rfl : i' = net.receiver d := by simpa using hlast
      exact hreceives.dist_self.le.trans (Nat.zero_le _)
    | cons j path =>
      unfold Routing.cost at hcost ⊢
      have hj : j < net.nodes := by
        rcases topologyWeights_eq_ok h.weights (i', j) with ⟨l, hl, hpair, -⟩ | ⟨-, hdefault⟩
        · obtain ⟨-, rfl⟩ : l.src = i' ∧ l.dest = j := by simpa using hpair
          exact (h.lt_nodes hl).2
        · dsimp only at hdefault
          split_ifs at hdefault with hsame
          · exact hsame ▸ hi
          · omega
      have hrest := ih rfl (by rwa [List.getLast?_cons_cons] at hlast) hj (by omega)
      have htriangle := (shortestPath_isDistance net.nodes net.weights).le_weight_add ⟨i', hi⟩
        ⟨j, hj⟩ ⟨net.receiver d, hreceives.lt_nodes⟩
      exact htriangle.trans (Nat.add_le_add_left hrest _)

end Made

/-- **Every packet arrives.** In the topology of the command, whatever the random numbers, a packet
of any interface gets to the interface it is for, if some path leads there, and goes over links that
cost no more than the path. -/
theorem packets_arrive {numChiplets linkLatency machineTypeNum nodes : ℕ} {baseCount : ℕ → ℕ}
    {file : TopologyFile} {t : Topology}
    (ht : makeTopology (commandOptions numChiplets linkLatency) nodes file = .ok t)
    (hnodes : ((List.range machineTypeNum).map baseCount).sum = nodes) (htwo : 1 < nodes) :
    ∃ net, t.createLinks machineTypeNum baseCount = .ok net ∧
      ∀ s < nodes, ∀ d < nodes, ∀ (ordered : Bool) (rand : ℕ → ℕ) (other : List ℕ),
        other.head? = some (s % numChiplets + 2 * nodes) →
        other.getLast? = some (net.receiver d) → net.cost other < infiniteLatency →
          ∃ path, net.journey ordered rand net.machines[d]? (net.receiver d) (net.cost other)
              (s % numChiplets + 2 * nodes) = .ok path ∧
            path.getLast? = some (net.receiver d) ∧ path.IsChain net.RealLink ∧
              net.cost path ≤ net.cost other := by
  obtain ⟨numCols, net, -, -, hnet, hlength, hmade⟩ := createLinks_made ht hnodes htwo
  refine ⟨net, hnet, fun s hs d hd ordered rand other hhead hlast hcost => ?_⟩
  subst hlength
  have hrouter := (hmade.lt_nodes (mem_madeLinks.mpr (.inl ⟨s, hs, .inl rfl⟩))).2
  have hdist := hmade.dist_le_cost hd hhead hlast hrouter hcost
  obtain ⟨path, hpath, hlast, hchain, hcost'⟩ := Routing.journey_arrives (hmade.receives hd) ordered
    rand hrouter (hdist.trans_lt hcost) hdist
  exact ⟨_, hpath, hlast, hchain, hcost'.trans_le hdist⟩

/-- Four routers in a square. -/
def squareMesh : TopologyFile :=
  [("chiplet_0", [(0, 1), (0, 2)]), ("chiplet_1", [(1, 0), (1, 3)]),
    ("chiplet_2", [(2, 0), (2, 3)]), ("chiplet_3", [(3, 1), (3, 2)])]

theorem exists_squareTopology :
    ∃ t, makeTopology (commandOptions (2 * 2) 1) 8 squareMesh = .ok t :=
  exists_topology 1 8 (by decide) (by decide) ⟨2, rfl⟩ (by decide)

/-- The links of the square and of its interfaces. -/
def squareLinks : List DirectedLink :=
  [⟨0, 16, 1⟩, ⟨16, 8, 1⟩, ⟨1, 17, 1⟩, ⟨17, 9, 1⟩, ⟨2, 18, 1⟩, ⟨18, 10, 1⟩, ⟨3, 19, 1⟩, ⟨19, 11, 1⟩,
    ⟨4, 16, 1⟩, ⟨16, 12, 1⟩, ⟨5, 17, 1⟩, ⟨17, 13, 1⟩, ⟨6, 18, 1⟩, ⟨18, 14, 1⟩, ⟨7, 19, 1⟩,
    ⟨19, 15, 1⟩, ⟨16, 17, 1⟩, ⟨16, 18, 2⟩, ⟨17, 16, 1⟩, ⟨17, 19, 2⟩, ⟨18, 16, 2⟩, ⟨18, 19, 1⟩,
    ⟨19, 17, 2⟩, ⟨19, 18, 1⟩]

/-- The routes of the square. -/
def squareRouting : Routing where
  machineTypeNum := 2
  baseCount := fun _ => 4
  nodes := 20
  weights := squareLinks.foldl (fun w l => Function.update w (l.src, l.dest) l.weight)
    fun p => if p.1 = p.2 then 0 else infiniteLatency

theorem topologyWeights_square : topologyWeights squareLinks = .ok squareRouting.weights :=
  if_pos (by decide +kernel)

theorem createLinks_square {t : Topology}
    (ht : makeTopology (commandOptions (2 * 2) 1) 8 squareMesh = .ok t) :
    t.createLinks 2 (fun _ => 4) = .ok squareRouting := by
  obtain ⟨numCols, -, hsquare, hlinks⟩ := directedLinks_of_makeTopology ht
  obtain rfl : numCols = 2 := Nat.mul_self_inj.mp hsquare
  have hmade : madeLinks (2 * 2) 2 8 (allowedSet squareMesh) = squareLinks := by decide +kernel
  have hnodes : numSwitches squareLinks = 20 := by decide +kernel
  unfold Topology.createLinks
  dsimp only
  rw [show ((List.range 2).map fun _ => 4).sum = 8 from rfl, if_neg (by decide), hlinks, hmade,
    topologyWeights_square, ok_bind, hnodes]
  rfl

/-- The distances of the square: one to or from an interface and to the next column, two to the
next row. -/
def squareDist (p : ℕ × ℕ) : ℕ :=
  if p.1 = p.2 then 0
  else if p.2 < 8 ∨ 8 ≤ p.1 ∧ p.1 < 16 then infiniteLatency
  else (if p.1 < 8 then 1 else 0) + (if p.1 % 2 = p.2 % 2 then 0 else 1) +
    (if p.1 / 2 % 2 = p.2 / 2 % 2 then 0 else 2) + if p.2 < 16 then 1 else 0

theorem squareDist_le (p : ℕ × ℕ) : squareDist p ≤ infiniteLatency := by
  unfold squareDist infiniteLatency
  split_ifs <;> omega

theorem dist_square {i j : ℕ} (hi : i < 20) (hj : j < 20) :
    squareRouting.dist (i, j) = squareDist (i, j) := by
  have hlinks : ∀ l ∈ squareLinks, ∀ j < 20,
      squareDist (l.src, j) ≤ l.weight + squareDist (l.dest, j) := by
    decide +kernel
  have hdist : IsDistance (onSwitches 20 squareRouting.weights) (onSwitches 20 squareDist) := by
    refine isDistance_of_edges (fun j => if_pos rfl) (fun i k j => ?_) (by
      unfold onSwitches
      decide +kernel)
    unfold onSwitches
    rcases topologyWeights_eq_ok topologyWeights_square (i.val, k.val) with
      ⟨l, hl, hpair, hw⟩ | ⟨-, hw⟩
    · obtain ⟨hsrc, hdest⟩ := Prod.mk.inj hpair
      rw [hw, ← hsrc, ← hdest]
      exact hlinks l hl j j.isLt
    · rw [hw]
      split
      · next hik => exact (show i.val = k.val from hik) ▸ Nat.le_add_left _ _
      · exact (squareDist_le _).trans (Nat.le_add_right _ _)
  exact squareRouting.dist_eq hdist hi hj

/-- The routing tables of the square. -/
def squareTable (src : ℕ) : List OutputLink :=
  ((List.range 20).filter fun j => squareRouting.RealLink src j).map fun j =>
    ⟨j, squareRouting.weights (src, j), (squareRouting.machines.zipIdx.filter fun e =>
      decide (squareRouting.weights (src, j) + squareDist (j, e.2 + 8) =
        squareDist (src, e.2 + 8))).map Prod.fst⟩

theorem table_square : squareRouting.table = squareTable := by
  funext src
  unfold Routing.table squareTable
  refine List.map_congr_left fun j hj => ?_
  obtain ⟨hj, hreal⟩ := List.mem_filter.mp hj
  have hsrc : src < 20 := by
    have hlt : ∀ l ∈ squareLinks, l.src < 20 := by decide +kernel
    obtain ⟨l, hl, rfl, -⟩ := (of_decide_eq_true hreal).exists_link topologyWeights_square
    exact hlt l hl
  have hfilter : squareRouting.machines.zipIdx.filter (fun e =>
      squareRouting.linkIsShortestPathToNode src j (e.2 + squareRouting.machines.length)) =
        squareRouting.machines.zipIdx.filter fun e =>
          decide (squareRouting.weights (src, j) + squareDist (j, e.2 + 8) =
            squareDist (src, e.2 + 8)) := by
    refine List.filter_congr fun e he => ?_
    have hlength : squareRouting.machines.length = 8 := rfl
    have he := List.snd_lt_of_mem_zipIdx he
    unfold Routing.linkIsShortestPathToNode
    rw [hlength] at he ⊢
    rw [dist_square (List.mem_range.mp hj) (by omega), dist_square hsrc (by omega)]
  unfold Routing.shortestPathToNode
  rw [hfilter]

theorem packets_arrive_squareMesh : ∃ t path,
    makeTopology (commandOptions (2 * 2) 1) 8 squareMesh = .ok t ∧
      t.createLinks 2 (fun _ => 4) = .ok squareRouting ∧
        squareRouting.journey false id squareRouting.machines[7]? 15
            (squareRouting.cost [16, 17, 19, 15]) 16 = .ok path ∧
          path.getLast? = some 15 ∧ path.IsChain squareRouting.RealLink ∧
            squareRouting.cost path ≤ 4 := by
  obtain ⟨t, ht⟩ := exists_squareTopology
  obtain ⟨net, hnet, harrive⟩ := packets_arrive ht
    (show ((List.range 2).map fun _ => 4).sum = 8 from rfl) (by decide)
  obtain rfl : squareRouting = net := Except.ok.inj ((createLinks_square ht).symm.trans hnet)
  have hcost : squareRouting.cost [16, 17, 19, 15] = 4 := by decide +kernel
  obtain ⟨path, hpath, hlast, hchain, hle⟩ := harrive 0 (by decide) 7 (by decide) false id
    [16, 17, 19, 15] rfl rfl (by rw [hcost]; decide)
  exact ⟨t, path, ht, hnet, hpath, hlast, hchain, hcost ▸ hle⟩

end Garnet

end ChipSim
