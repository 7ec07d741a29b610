import Mathlib.Data.List.TakeWhile
import ChipSim.Lib.Lists
import ChipSim.Garnet.Stats
import ChipSim.Garnet.TraceRoundTrip

/-!
# Injection of the trace

A network interface keeps the packets of the trace in a queue. When it has no flit left to send it
takes the leading packets of one time off the queue and turns them into flits, one of each packet in
turn. The output port, which every flit takes its width from, is looked up for the packet that is
then at the front of the queue, and not for the packets taken: a queue without a later packet is
read when it is empty.
-/

namespace ChipSim

open Lib

namespace Garnet

/-! ## Flits -/

/-- `RouteInfo`. The machine of the destination is its type and its number in the type. -/
structure RouteInfo where
  vnet : ℤ
  netDest : Option (ℕ × ℤ)
  srcNi : ℤ
  srcRouter : ℤ
  destNi : ℤ
  destRouter : ℤ
  hopsTraversed : ℤ
  lastFlit : Bool
  networkIdx : ℤ
  inputIdx : ℤ
  phaseId : ℤ
deriving DecidableEq

/-- `flit_type`, without the credits. -/
inductive FlitType
  | head
  | body
  | tail
  | headTail
deriving DecidableEq

/-- `flit`. -/
structure Flit where
  packetId : ℕ
  id : ℕ
  vc : ℤ
  vnet : ℤ
  route : RouteInfo
  size : ℕ
  type : FlitType
  msgSize : ℕ
  width : ℕ
  time : ℕ
  enqueueTime : ℕ
deriving DecidableEq

/-- The constructor of `flit`. -/
def Flit.new (packetId id : ℕ) (vc vnet : ℤ) (route : RouteInfo) (size msgSize width : ℕ)
    (curTime : ℕ) : Flit where
  packetId := packetId
  id := id
  vc := vc
  vnet := vnet
  route := route
  size := size
  type := if size = 1 then .headTail
    else if id = 0 then .head
    else if id = size - 1 then .tail
    else .body
  msgSize := msgSize
  width := width
  time := curTime
  enqueueTime := curTime

/-- The network, input and phase of a flit. -/
def Flit.phaseKey (f : Flit) : PhaseKey := (f.route.networkIdx, f.route.inputIdx, f.route.phaseId)

/-! ## The interface -/

/-- What the injection reads of an `OutputPort`. -/
structure OutputPort where
  vnets : List ℤ
  routerId : ℤ
  bitWidth : ℕ
deriving DecidableEq

/-- `isVnetSupported`: a port without a list supports all virtual networks. -/
def OutputPort.isVnetSupported (port : OutputPort) (vnet : ℤ) : Bool :=
  port.vnets.isEmpty || decide (vnet ∈ port.vnets)

/-- A network interface with what it reads of the network: the number of the first machine of each
type, and the router of an interface for a virtual network, if there is one. -/
structure NetworkInterface where
  id : ℤ
  outPorts : List OutputPort
  machineTypeNum : ℕ
  machineTypeBaseNumber : ℕ → ℤ
  routerId : ℤ → ℤ → Option ℤ

/-- The queues of an interface and the next packet number of the network. -/
structure InjectionState where
  traceRecordQueue : List NetworkTraceRecord
  traceInjectionQueue : List Flit
  nextPacketId : ℕ
deriving DecidableEq

/-- What stops the program. -/
inductive Fault
  | frontOfEmptyQueue
  | assertion
deriving DecidableEq

/-- `front` of a queue, which is undefined when the queue is empty. -/
def front {α : Type} : List α → Except Fault α
  | [] => .error .frontOfEmptyQueue
  | a :: _ => .ok a

namespace NetworkInterface

variable (ni : NetworkInterface)

/-- `getOutportForVnet`, with the assertion that follows. -/
def getOutportForVnet (vnet : ℤ) : Except Fault OutputPort :=
  match ni.outPorts.find? fun port => port.isVnetSupported vnet with
  | some port => .ok port
  | none => .error .assertion

/-- `m_net_ptr->get_router_id`, with its assertions. -/
def getRouterId (destId vnet : ℤ) : Except Fault ℤ :=
  match ni.routerId destId vnet with
  | some router => .ok router
  | none => .error .assertion

/-- The machine of a destination. -/
def netDest (destId : ℤ) : Option (ℕ × ℤ) :=
  ((List.range ni.machineTypeNum).find? fun m =>
    decide (ni.machineTypeBaseNumber m ≤ destId ∧ destId < ni.machineTypeBaseNumber (m + 1))).map
      fun m => (m, destId - ni.machineTypeBaseNumber m)

/-- The route of a packet. `hops_traversed` begins at `-1`, so that the first router counts it to
`0`. -/
def route (oPort : OutputPort) (record : NetworkTraceRecord) : Except Fault RouteInfo := do
  let destRouter ← ni.getRouterId record.destId record.vnet
  return {
    vnet := record.vnet
    netDest := ni.netDest record.destId
    srcNi := ni.id
    srcRouter := oPort.routerId
    destNi := record.destId
    destRouter := destRouter
    hopsTraversed := -1
    lastFlit := false
    networkIdx := record.networkIdx
    inputIdx := record.inputIdx
    phaseId := record.phaseId }

end NetworkInterface

/-- The loop that takes the packets of one time off the queue: `same_time_records`, and what is left
of the queue. -/
def drain (firstRecordTime : ℤ) :
    List NetworkTraceRecord → List NetworkTraceRecord →
      List NetworkTraceRecord × List NetworkTraceRecord
  | sameTimeRecords, [] => (sameTimeRecords, [])
  | sameTimeRecords, r :: queue =>
    if r.time = firstRecordTime then drain firstRecordTime (sameTimeRecords ++ [r]) queue
    else (sameTimeRecords, r :: queue)

/-- `max_num_flits`. -/
def maxNumFlits (records : List NetworkTraceRecord) : ℤ :=
  records.foldl (fun m r => if r.numFlits > m then r.numFlits else m) 0

/-- One pass of the inner loop: flit `i` of a packet, if it has as many. Every flit is a packet of
its own. -/
def pushFlit (oPort : OutputPort) (curTick i : ℕ) (s : List Flit × ℕ)
    (e : NetworkTraceRecord × RouteInfo) : List Flit × ℕ :=
  if (i : ℤ) < e.1.numFlits then
    let route := { e.2 with lastFlit := decide ((i : ℤ) = e.1.numFlits - 1) }
    (s.1 ++ [Flit.new s.2 0 (-1) e.1.vnet route 1 oPort.bitWidth oPort.bitWidth curTick], s.2 + 1)
  else s

/-- The two loops that push the flits. -/
def pushFlits (oPort : OutputPort) (curTick : ℕ) (maxNumFlits : ℤ)
    (records : List (NetworkTraceRecord × RouteInfo)) (s : List Flit × ℕ) : List Flit × ℕ :=
  (List.range maxNumFlits.toNat).foldl
    (fun s i => records.foldl (pushFlit oPort curTick i) s) s

/-- `transferTraceRecordsToInjectionQueue`. -/
def transferTraceRecordsToInjectionQueue (ni : NetworkInterface) (curTick : ℕ)
    (s : InjectionState) : Except Fault InjectionState :=
  match s.traceRecordQueue with
  | [] => .ok s
  | first :: _ => do
    let (sameTimeRecords, queue) := drain first.time [] s.traceRecordQueue
    let next ← front queue
    let oPort ← ni.getOutportForVnet next.vnet
    let routes ← sameTimeRecords.mapM (ni.route oPort)
    let (flits, packetId) := pushFlits oPort curTick (maxNumFlits sameTimeRecords)
      (sameTimeRecords.zip routes) (s.traceInjectionQueue, s.nextPacketId)
    return ⟨queue, flits, packetId⟩

/-! ## What is injected -/

/-- The leading packets with a given time. -/
def leading (time : ℤ) (queue : List NetworkTraceRecord) : List NetworkTraceRecord :=
  queue.takeWhile fun r => decide (r.time = time)

/-- What follows the leading packets. -/
def following (time : ℤ) (queue : List NetworkTraceRecord) : List NetworkTraceRecord :=
  queue.dropWhile fun r => decide (r.time = time)

/-- A turn `(i, k)` is flit `i` of packet `k`. In round robin every packet has its turns `0`, `1`
and so on, as many as it has flits, and the turns of the packets come in the order of `i`, then of
`k`. -/
structure RoundRobin (records : List NetworkTraceRecord) (turns : List (ℕ × ℕ)) : Prop where
  order : turns.Pairwise fun a b => a.1 < b.1 ∨ a.1 = b.1 ∧ a.2 < b.2
  mem_iff : ∀ i k, (i, k) ∈ turns ↔ ∃ r, records[k]? = some r ∧ (i : ℤ) < r.numFlits
  count : ∀ k r, records[k]? = some r →
    ((turns.filter fun turn => decide (turn.2 = k)).length : ℤ) = r.numFlits

/-- The flit of a turn: it goes where the packet goes, in its virtual network and for its phase, and
is marked as the last one exactly when it is. -/
structure FlitOf (records : List NetworkTraceRecord) (turn : ℕ × ℕ) (flit : Flit) : Prop where
  packet : ∃ r, records[turn.2]? = some r ∧ flit.vnet = r.vnet ∧ flit.route.vnet = r.vnet ∧
    flit.route.destNi = r.destId ∧ flit.phaseKey = phaseKey r ∧
    (flit.route.lastFlit = true ↔ (turn.1 : ℤ) + 1 = r.numFlits)
  type : flit.type = .headTail

/-- The leading packets of the time of the first one have left the queue, and their flits are
appended in round robin. -/
structure Transferred (first : NetworkTraceRecord) (s s' : InjectionState) : Prop where
  queue : s'.traceRecordQueue = following first.time s.traceRecordQueue
  flits : ∃ turns flits, RoundRobin (leading first.time s.traceRecordQueue) turns ∧
    List.Forall₂ (FlitOf (leading first.time s.traceRecordQueue)) turns flits ∧
    s'.traceInjectionQueue = s.traceInjectionQueue ++ flits

theorem drain_eq (time : ℤ) (sameTimeRecords queue : List NetworkTraceRecord) :
    drain time sameTimeRecords queue =
      (sameTimeRecords ++ leading time queue, following time queue) := by
  induction queue generalizing sameTimeRecords with
  | nil => simp [drain, leading, following]
  | cons r queue ih =>
    unfold drain
    by_cases htime : r.time = time
    · rw [if_pos htime, ih]
      simp [leading, following, htime]
    · rw [if_neg htime]
      simp [leading, following, htime]

/-! ### The turns -/

/-- The turns of the two loops. -/
def turnsOf (maxNumFlits : ℤ) (records : List NetworkTraceRecord) : List (ℕ × ℕ) :=
  (List.range maxNumFlits.toNat).flatMap fun i : ℕ => records.zipIdx.flatMap fun e =>
    if (i : ℤ) < e.1.numFlits then [(i, e.2)] else []

theorem maxNumFlits_eq (records : List NetworkTraceRecord) :
    maxNumFlits records = records.foldl (fun m r => max m r.numFlits) 0 := by
  unfold maxNumFlits
  congr 1
  funext m r
  split
  · next h => exact (max_eq_right h.le).symm
  · next h => exact (max_eq_left (not_lt.mp h)).symm

theorem le_maxNumFlits {records : List NetworkTraceRecord} {r : NetworkTraceRecord}
    (hr : r ∈ records) : r.numFlits ≤ maxNumFlits records := by
  rw [maxNumFlits_eq]
  exact le_foldl_max (·.numFlits) hr 0

theorem mem_turnsOf {records : List NetworkTraceRecord} {i k : ℕ} :
    (i, k) ∈ turnsOf (maxNumFlits records) records ↔
      ∃ r, records[k]? = some r ∧ (i : ℤ) < r.numFlits := by
  unfold turnsOf
  simp only [List.mem_flatMap, List.mem_range]
  constructor
  · rintro ⟨i', -, e, he, hturn⟩
    split at hturn
    · next hflits =>
      cases List.mem_singleton.mp hturn
      exact ⟨e.1, List.mem_zipIdx_iff_getElem?.mp he, hflits⟩
    · cases hturn
  · rintro ⟨r, hr, hflits⟩
    have hmax := le_maxNumFlits (List.mem_of_getElem? hr)
    refine ⟨i, by omega, (r, k), List.mem_zipIdx_iff_getElem?.mpr hr, ?_⟩
    rw [if_pos hflits]
    exact List.mem_singleton_self _

theorem mem_turn {i : ℕ} {e : NetworkTraceRecord × ℕ} {turn : ℕ × ℕ}
    (h : turn ∈ if (i : ℤ) < e.1.numFlits then [(i, e.2)] else []) : turn = (i, e.2) := by
  split at h
  · exact List.mem_singleton.mp h
  · cases h

theorem turnsOf_order (m : ℤ) (records : List NetworkTraceRecord) :
    (turnsOf m records).Pairwise fun a b => a.1 < b.1 ∨ a.1 = b.1 ∧ a.2 < b.2 := by
  unfold turnsOf
  refine List.pairwise_flatMap.mpr ⟨fun i _ => List.pairwise_flatMap.mpr ⟨fun e _ => ?_, ?_⟩, ?_⟩
  · split
    · exact List.pairwise_singleton _ _
    · exact .nil
  · -- Within one turn the packets come in the order of their numbers.
    have hindex : records.zipIdx.Pairwise fun a b => a.2 < b.2 := by
      rw [← List.pairwise_map (f := Prod.snd), List.zipIdx_map_snd]
      exact List.pairwise_lt_range' ..
    refine hindex.imp fun {e e'} hlt a ha b hb => ?_
    rw [mem_turn ha, mem_turn hb]
    exact .inr ⟨rfl, hlt⟩
  · refine List.pairwise_lt_range.imp fun {i i'} hlt a ha b hb => ?_
    obtain ⟨e, -, ha⟩ := List.mem_flatMap.mp ha
    obtain ⟨e', -, hb⟩ := List.mem_flatMap.mp hb
    rw [mem_turn ha, mem_turn hb]
    exact .inl hlt

theorem turnsOf_nodup (m : ℤ) (records : List NetworkTraceRecord) :
    (turnsOf m records).Nodup := by
  refine (turnsOf_order m records).imp fun {a b} h hab => ?_
  subst hab
  omega

theorem turnsOf_roundRobin {records : List NetworkTraceRecord}
    (hnonneg : ∀ r ∈ records, 0 ≤ r.numFlits) :
    RoundRobin records (turnsOf (maxNumFlits records) records) where
  order := turnsOf_order _ _
  mem_iff _ _ := mem_turnsOf
  count k r hr := by
    have hperm : ((turnsOf (maxNumFlits records) records).filter fun turn =>
        decide (turn.2 = k)).Perm ((List.range r.numFlits.toNat).map fun i => (i, k)) := by
      refine (List.perm_ext_iff_of_nodup ((turnsOf_nodup _ _).filter _)
        (List.nodup_range.map fun _ _ h => congrArg Prod.fst h)).mpr ?_
      rintro ⟨i, k'⟩
      rw [List.mem_filter, decide_eq_true_eq, mem_turnsOf, List.mem_map]
      constructor
      · rintro ⟨⟨r', hr', hflits⟩, rfl⟩
        rw [hr] at hr'
        cases hr'
        exact ⟨i, List.mem_range.mpr (by omega), rfl⟩
      · rintro ⟨i', hi', hturn⟩
        cases hturn
        exact ⟨⟨r, hr, by have := List.mem_range.mp hi'; omega⟩, rfl⟩
    have hlength := hperm.length_eq
    rw [List.length_map, List.length_range] at hlength
    rw [hlength]
    exact Int.toNat_of_nonneg (hnonneg r (List.mem_of_getElem? hr))

/-! ### The loops -/

/-- The flits of some turns are appended. -/
def Appends (records : List NetworkTraceRecord) (turns : List (ℕ × ℕ)) (s s' : List Flit × ℕ) :
    Prop :=
  ∃ flits, List.Forall₂ (FlitOf records) turns flits ∧ s'.1 = s.1 ++ flits

theorem Appends.refl (records : List NetworkTraceRecord) (s : List Flit × ℕ) :
    Appends records [] s s :=
  ⟨[], .nil, (List.append_nil _).symm⟩

theorem Appends.trans {records : List NetworkTraceRecord} {turns turns' : List (ℕ × ℕ)}
    {s s' s'' : List Flit × ℕ} (h : Appends records turns s s')
    (h' : Appends records turns' s' s'') : Appends records (turns ++ turns') s s'' := by
  obtain ⟨flits, hflits, hs⟩ := h
  obtain ⟨flits', hflits', hs'⟩ := h'
  exact ⟨flits ++ flits', List.rel_append hflits hflits', by rw [hs', hs, List.append_assoc]⟩

/-- A loop appends what its passes append. -/
theorem Appends.foldl {α : Type} {records : List NetworkTraceRecord} {turns : α → List (ℕ × ℕ)}
    {step : List Flit × ℕ → α → List Flit × ℕ} {l : List α}
    (h : ∀ a ∈ l, ∀ s, Appends records (turns a) s (step s a)) (s : List Flit × ℕ) :
    Appends records (l.flatMap turns) s (l.foldl step s) := by
  induction l generalizing s with
  | nil => exact .refl records s
  | cons a l ih =>
    rw [List.flatMap_cons, List.foldl_cons]
    exact (h a List.mem_cons_self s).trans (ih (fun b hb => h b (List.mem_cons_of_mem a hb)) _)

section Loops

variable {ni : NetworkInterface} {oPort : OutputPort} {records : List NetworkTraceRecord}
  {routes : List RouteInfo}

theorem route_eq_ok {record : NetworkTraceRecord} {r : RouteInfo}
    (h : ni.route oPort record = .ok r) :
    r.vnet = record.vnet ∧ r.destNi = record.destId ∧
      (r.networkIdx, r.inputIdx, r.phaseId) = phaseKey record := by
  unfold NetworkInterface.route at h
  obtain ⟨_, -, h⟩ := bind_eq_ok.mp h
  cases h
  exact ⟨rfl, rfl, rfl⟩

theorem pushFlit_appends (curTick i : ℕ) {e : NetworkTraceRecord × RouteInfo} {k : ℕ}
    (hk : records[k]? = some e.1) (hroute : ni.route oPort e.1 = .ok e.2) (s : List Flit × ℕ) :
    Appends records (if (i : ℤ) < e.1.numFlits then [(i, k)] else []) s
      (pushFlit oPort curTick i s e) := by
  unfold pushFlit
  split
  · obtain ⟨hvnet, hdest, hphase⟩ := route_eq_ok hroute
    have hlast : decide ((i : ℤ) = e.1.numFlits - 1) = true ↔ (i : ℤ) + 1 = e.1.numFlits := by
      rw [decide_eq_true_eq, eq_sub_iff_add_eq]
    refine ⟨[_], .cons ?_ .nil, rfl⟩
    exact ⟨⟨e.1, hk, rfl, hvnet, hdest, hphase, hlast⟩, rfl⟩
  · exact .refl records s

theorem pushFlits_appends (curTick : ℕ) (hroutes : records.mapM (ni.route oPort) = .ok routes)
    (m : ℤ) (s : List Flit × ℕ) :
    Appends records (turnsOf m records) s
      (pushFlits oPort curTick m (records.zip routes) s) := by
  have hroute := forall₂_mapM hroutes fun _ _ _ h => h
  have hpairs : (records.zip routes).map Prod.fst = records :=
    List.map_fst_zip hroute.length_eq.le
  have hturns : turnsOf m records = (List.range m.toNat).flatMap fun i : ℕ =>
      (records.zip routes).zipIdx.flatMap fun e =>
        if (i : ℤ) < e.1.1.numFlits then [(i, e.2)] else [] := by
    unfold turnsOf
    conv_lhs => rw [← hpairs]
    simp only [List.zipIdx_map, List.flatMap_map]
    rfl
  rw [hturns]
  unfold pushFlits
  refine Appends.foldl (fun i _ s => ?_) s
  have hpass : (records.zip routes).foldl (pushFlit oPort curTick i) s =
      (records.zip routes).zipIdx.foldl (fun s e => pushFlit oPort curTick i s e.1) s := by
    conv_lhs => rw [← List.zipIdx_map_fst 0 (records.zip routes), List.foldl_map]
  rw [hpass]
  refine Appends.foldl (fun e he s => ?_) s
  have hmem := List.mem_zipIdx_iff_getElem?.mp he
  have hk : records[e.2]? = some e.1.1 := by
    rw [← hpairs, List.getElem?_map, hmem]
    rfl
  exact pushFlit_appends curTick i hk (List.forall₂_zip hroute (List.mem_of_getElem? hmem)) s

end Loops

/-! ## Faults -/

/-- A later packet tells which port is used, the port exists, and the leading packets have routes
and no negative number of flits. -/
structure Transferable (ni : NetworkInterface) (first : NetworkTraceRecord)
    (rest : List NetworkTraceRecord) : Prop where
  later : ∃ next, rest.find? (fun r => decide (r.time ≠ first.time)) = some next ∧
    ∃ port ∈ ni.outPorts, port.isVnetSupported next.vnet = true
  routed : ∀ r ∈ leading first.time (first :: rest), (ni.routerId r.destId r.vnet).isSome
  nonneg : ∀ r ∈ leading first.time (first :: rest), 0 ≤ r.numFlits

theorem front_eq_ok {α : Type} {l : List α} {a : α} : front l = .ok a ↔ l.head? = some a := by
  cases l <;> simp [front]

/-- The front of the queue that is left is the first packet of another time. -/
theorem head?_following (first : NetworkTraceRecord) (rest : List NetworkTraceRecord) :
    (following first.time (first :: rest)).head? =
      rest.find? fun r => decide (r.time ≠ first.time) := by
  unfold following
  rw [List.dropWhile_cons, if_pos (decide_eq_true rfl), ← List.find?_not_eq_head?_dropWhile]
  simp only [ne_eq, decide_not]

theorem getOutportForVnet_ok_iff {ni : NetworkInterface} {vnet : ℤ} :
    (∃ port, ni.getOutportForVnet vnet = .ok port) ↔
      ∃ port ∈ ni.outPorts, port.isVnetSupported vnet = true := by
  unfold NetworkInterface.getOutportForVnet
  rw [← List.find?_isSome (p := fun port => OutputPort.isVnetSupported port vnet)]
  cases ni.outPorts.find? fun port => port.isVnetSupported vnet <;> simp

theorem route_ok_iff {ni : NetworkInterface} (oPort : OutputPort) {r : NetworkTraceRecord} :
    (∃ route, ni.route oPort r = .ok route) ↔ (ni.routerId r.destId r.vnet).isSome := by
  unfold NetworkInterface.route NetworkInterface.getRouterId
  cases ni.routerId r.destId r.vnet <;> simp

theorem transfer_cons (ni : NetworkInterface) (curTick : ℕ) (first : NetworkTraceRecord)
    (rest : List NetworkTraceRecord) (injection : List Flit) (packetId : ℕ) :
    transferTraceRecordsToInjectionQueue ni curTick ⟨first :: rest, injection, packetId⟩ = do
      let next ← front (following first.time (first :: rest))
      let oPort ← ni.getOutportForVnet next.vnet
      let routes ← (leading first.time (first :: rest)).mapM (ni.route oPort)
      let pushed := pushFlits oPort curTick (maxNumFlits (leading first.time (first :: rest)))
        ((leading first.time (first :: rest)).zip routes) (injection, packetId)
      return ⟨following first.time (first :: rest), pushed.1, pushed.2⟩ := by
  unfold transferTraceRecordsToInjectionQueue
  dsimp only
  rw [drain_eq, List.nil_append]

/-- **Injection of the leading packets.** The call takes the leading packets of one time off the
queue and appends their flits in round robin exactly when there is a later packet to look a port up
for, the port and the routes exist, and no leading packet has a negative number of flits. -/
theorem transferTraceRecordsToInjectionQueue_iff (ni : NetworkInterface) (curTick : ℕ)
    (first : NetworkTraceRecord) (rest : List NetworkTraceRecord) (injection : List Flit)
    (packetId : ℕ) :
    (∃ s', transferTraceRecordsToInjectionQueue ni curTick ⟨first :: rest, injection, packetId⟩ =
        .ok s' ∧ Transferred first ⟨first :: rest, injection, packetId⟩ s') ↔
      Transferable ni first rest := by
  rw [transfer_cons]
  constructor
  · rintro ⟨s', h, -, turns, flits, hturns, -⟩
    obtain ⟨next, hnext, h⟩ := bind_eq_ok.mp h
    obtain ⟨oPort, hport, h⟩ := bind_eq_ok.mp h
    obtain ⟨routes, hroutes, -⟩ := bind_eq_ok.mp h
    rw [front_eq_ok, head?_following] at hnext
    refine ⟨⟨next, hnext, getOutportForVnet_ok_iff.mp ⟨oPort, hport⟩⟩, fun r hr => ?_,
      fun r hr => ?_⟩
    · obtain ⟨k, hk⟩ := List.mem_iff_getElem?.mp hr
      obtain ⟨route, -, hroute⟩ := getElem?_mapM hroutes hk
      exact (route_ok_iff oPort).mp ⟨route, hroute⟩
    · obtain ⟨k, hk⟩ := List.mem_iff_getElem?.mp hr
      rw [← hturns.count k r hk]
      exact Int.natCast_nonneg _
  · rintro ⟨⟨next, hnext, hport⟩, hrouted, hnonneg⟩
    rw [← head?_following, ← front_eq_ok] at hnext
    obtain ⟨oPort, hport⟩ := getOutportForVnet_ok_iff.mpr hport
    obtain ⟨routes, hroutes, -⟩ := mapM_total (fun _ _ => True) fun r hr =>
      ((route_ok_iff oPort).mpr (hrouted r hr)).imp fun _ h => ⟨h, trivial⟩
    obtain ⟨flits, hflits, hpushed⟩ := pushFlits_appends curTick hroutes
      (maxNumFlits (leading first.time (first :: rest))) (injection, packetId)
    rw [hnext, ok_bind, hport, ok_bind, hroutes, ok_bind]
    exact ⟨_, rfl, rfl, _, flits, turnsOf_roundRobin hnonneg, hflits, hpushed⟩

/-- The phases of the flits are those of the packets, in turn. -/
theorem Appends.phaseKeys {records : List NetworkTraceRecord} {turns : List (ℕ × ℕ)}
    {s s' : List Flit × ℕ} (h : Appends records turns s s') :
    s'.1.map Flit.phaseKey =
      s.1.map Flit.phaseKey ++ turns.filterMap fun turn => records[turn.2]?.map phaseKey := by
  obtain ⟨flits, hflits, hs⟩ := h
  rw [hs, List.map_append]
  clear hs
  congr 1
  induction hflits with
  | nil => rfl
  | cons hflit _ ih =>
    obtain ⟨r, hr, -, -, -, hkey, -⟩ := hflit.packet
    rw [List.map_cons, ih, List.filterMap_cons, hr, hkey]
    rfl

theorem turnsOf_phaseKeys (records : List NetworkTraceRecord) :
    (turnsOf (maxNumFlits records) records).filterMap
      (fun turn => records[turn.2]?.map phaseKey) = injectionQueue records := by
  unfold turnsOf injectionQueue
  rw [maxNumFlits_eq, List.filterMap_flatMap]
  simp only [bind_pure_comp, List.map_eq_map, List.flatMap_map]
  refine List.flatMap_congr fun i _ => ?_
  have hturn : ∀ e ∈ records.zipIdx, (if (i : ℤ) < e.1.numFlits then [(i, e.2)] else []).filterMap
      (fun turn => records[turn.2]?.map phaseKey) =
        if (i : ℤ) < e.1.numFlits then [phaseKey e.1] else [] := by
    intro e he
    split
    · rw [List.filterMap_cons, List.mem_zipIdx_iff_getElem?.mp he]
      rfl
    · rfl
  rw [List.filterMap_flatMap, List.flatMap_congr hturn, ← flatMap_ite_singleton]
  conv_rhs => rw [← List.zipIdx_map_fst 0 records, List.flatMap_map]

/-- A queue whose packets all have one time is read when it is empty. -/
theorem transfer_sameTime (ni : NetworkInterface) (curTick : ℕ) {first : NetworkTraceRecord}
    {rest : List NetworkTraceRecord} (hsame : ∀ r ∈ rest, r.time = first.time)
    (injection : List Flit) (packetId : ℕ) :
    transferTraceRecordsToInjectionQueue ni curTick ⟨first :: rest, injection, packetId⟩ =
      .error .frontOfEmptyQueue := by
  have hnone : following first.time (first :: rest) = [] := by
    unfold following
    rw [List.dropWhile_eq_nil_iff]
    intro r hr
    rcases List.mem_cons.mp hr with rfl | hr
    · exact decide_eq_true rfl
    · exact decide_eq_true (hsame r hr)
  rw [transfer_cons, hnone]
  rfl

theorem time_of_mem_expected {numNis : ℕ} {es : List TrafficEntry} {r : NetworkTraceRecord}
    (hr : r ∈ expected numNis es) : r.time = cInt 1 := by
  obtain ⟨e, -, rfl⟩ := List.mem_map.mp hr
  unfold remap
  split_ifs <;> rfl

/-- **Every written trace.** The simulator writes all packets with one cycle, so whatever an
interface has in its queue of such a trace, its first call reads the empty queue. -/
theorem transfer_writtenTrace (ni : NetworkInterface) (curTick : ℕ) {n : ℕ}
    {inputs : List SimulatorInput}
    (hrows : ∀ e ∈ trafficData inputs, (garnetRow e).toList.length < 99)
    {records : List NetworkTraceRecord} (hrecords : readBack n inputs = some records)
    {first : NetworkTraceRecord} {rest : List NetworkTraceRecord}
    (hqueue : ∀ r ∈ first :: rest, r ∈ records) (injection : List Flit) (packetId : ℕ) :
    transferTraceRecordsToInjectionQueue ni curTick ⟨first :: rest, injection, packetId⟩ =
      .error .frontOfEmptyQueue := by
  rw [readBack_eq hrows] at hrecords
  cases hrecords
  refine transfer_sameTime ni curTick (fun r hr => ?_) injection packetId
  rw [time_of_mem_expected (hqueue r (List.mem_cons_of_mem first hr)),
    time_of_mem_expected (hqueue first List.mem_cons_self)]

/-- An interface with one port for all virtual networks. -/
def oneRouter : NetworkInterface where
  id := 0
  outPorts := [⟨[], 0, 128⟩]
  machineTypeNum := 1
  machineTypeBaseNumber := fun m => 4 * m
  routerId := fun _ _ => some 0

theorem transfer_writtenTrace_toFirst : ∃ first, readBack 4 toFirst = some [first] ∧
    transferTraceRecordsToInjectionQueue oneRouter 0 ⟨[first], [], 0⟩ =
      .error .frontOfEmptyQueue := by
  have hrows : ∀ e ∈ trafficData toFirst, (garnetRow e).toList.length < 99 := by decide +kernel
  obtain ⟨first, hfirst⟩ : ∃ first, expected 8 (trafficData toFirst) = [first] := ⟨_, rfl⟩
  have hread : readBack 4 toFirst = some [first] := hfirst ▸ readBack_eq hrows
  exact ⟨first, hread, transfer_writtenTrace oneRouter 0 hrows hread (fun _ hr => hr) [] 0⟩

/-- A packet of two flits at cycle `1`. -/
def onePacket : NetworkTraceRecord := ⟨1, 0, 0, 1, 1, 0, 2, 0, 0, 0⟩

/-- A single packet in the queue. -/
theorem onePacket_faults :
    transferTraceRecordsToInjectionQueue oneRouter 0 ⟨[onePacket], [], 0⟩ =
      .error .frontOfEmptyQueue :=
  rfl

end Garnet

end ChipSim
