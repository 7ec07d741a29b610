import ChipSim.Lib.Buffers
import ChipSim.Garnet.Completion
import ChipSim.Garnet.RoutingTable

/-!
# The network

Interfaces, routers and links pass the flits of the trace on and give credits back. A link is the
pair of switches at its ends; all that lies at one of its ends, the states of the virtual channels
and the buffers, is indexed by it. The members of all objects are one state, and the `wakeup` of an
object is a function on it. When an object wakes up is left open: time passes and the objects wake
up in any order.
-/

namespace ChipSim

open Lib

namespace Garnet

/-! ## Flits, credits and virtual channels -/

/-- The switches at the ends of a link. -/
abbrev Link := ℕ × ℕ

/-- A virtual channel of a link. -/
abbrev Channel := Link × ℕ

/-- `flit_stage`. -/
inductive FlitStage
  | initial
  | vcAllocation
  | switchAllocation
  | switchTraversal
  | linkTraversal
deriving DecidableEq

/-- `VC_state_type`. -/
inductive VcState
  | idle
  | vcAb
  | active
deriving DecidableEq

/-- A `flit` with the members that change on its way. -/
structure NetFlit extends Flit where
  dequeueTime : ℕ
  outport : ℕ
  srcDelay : ℕ
  stage : FlitStage × ℕ
deriving DecidableEq

namespace NetFlit

/-- The other members after the construction; the port and the delay are not set. -/
def ofFlit (f : Flit) : NetFlit :=
  { f with dequeueTime := f.time, outport := 0, srcDelay := 0, stage := (.initial, f.time) }

/-- `is_stage`. -/
def isStage (f : NetFlit) (stage : FlitStage) (time : ℕ) : Bool :=
  decide (stage = f.stage.1 ∧ f.stage.2 ≤ time)

/-- `increment_hops`. -/
def incrementHops (f : NetFlit) : NetFlit :=
  { f with route := { f.route with hopsTraversed := f.route.hopsTraversed + 1 } }

/-- The first flit of a packet. -/
def isHead (f : NetFlit) : Bool := decide (f.type = .head ∨ f.type = .headTail)

/-- The last flit of a packet. -/
def isTail (f : NetFlit) : Bool := decide (f.type = .tail ∨ f.type = .headTail)

end NetFlit

/-- `Credit`. -/
structure Credit where
  vc : ℤ
  isFreeSignal : Bool
  time : ℕ
deriving DecidableEq

/-- `OutVcState`. -/
structure OutVcState where
  time : ℕ
  vcState : VcState
  creditCount : ℤ
  maxCreditCount : ℤ
deriving DecidableEq

/-- A check that stops the program. -/
def require (p : Prop) [Decidable p] : Except NetFault Unit :=
  if p then .ok () else .error .assertion

namespace OutVcState

/-- `isInState`. -/
def isInState (o : OutVcState) (state : VcState) (requestTime : ℕ) : Bool :=
  decide (o.vcState = state ∧ o.time ≤ requestTime)

/-- `setState`. -/
def setState (o : OutVcState) (state : VcState) (time : ℕ) : OutVcState :=
  { o with vcState := state, time := time }

/-- `has_credit`. -/
def hasCredit (o : OutVcState) : Bool := decide (0 < o.creditCount)

/-- `increment_credit`. -/
def incrementCredit (o : OutVcState) : Except NetFault OutVcState := do
  require (o.creditCount + 1 ≤ o.maxCreditCount)
  return { o with creditCount := o.creditCount + 1 }

/-- `decrement_credit`. -/
def decrementCredit (o : OutVcState) : Except NetFault OutVcState := do
  require (0 ≤ o.creditCount - 1)
  return { o with creditCount := o.creditCount - 1 }

end OutVcState

/-- `VirtualChannel` without its buffer; `none` stands for `-1`. -/
structure VirtualChannel where
  vcState : VcState
  time : ℕ
  outputPort : Option ℕ
  enqueueTime : ℕ
  outputVc : Option ℕ
deriving DecidableEq

namespace VirtualChannel

/-- `set_idle`; `INFINITE_` has the value of `INFINITE_LATENCY`. -/
def setIdle (curTime : ℕ) : VirtualChannel := ⟨.idle, curTime, none, infiniteLatency, none⟩

/-- `set_active`. -/
def setActive (c : VirtualChannel) (curTime : ℕ) : VirtualChannel :=
  { c with vcState := .active, time := curTime, enqueueTime := curTime }

end VirtualChannel

/-! ## The network and its state -/

/-- The parameters of the network: the interfaces and their machines, the switches with a link to a
router, the routing tables and the router of each interface. An external link is the only one of its
interface and supports all virtual networks, no link has a bridge, and all routers have the same
virtual channels. -/
structure NetworkParams where
  nodes : ℕ
  machineTypeNum : ℕ
  baseCount : ℕ → ℕ
  sources : ℕ → List ℕ
  table : ℕ → List OutputLink
  niRouter : ℕ → ℕ
  virtualNetworks : ℕ
  vcPerVnet : ℕ
  buffersPerVc : ℕ → ℕ
  ordered : ℕ → Bool
  period : ℕ
  linkLatency : Link → ℕ
  pipeStages : ℕ → ℕ
  bitWidth : ℕ
  deadlockThreshold : ℕ
  maxPackets : ℤ
  sources_nodup : ∀ i, (sources i).Nodup

/-- Where a flit lies: in a queue of an interface, in the output queue or the buffer of a link, in a
virtual channel or in the switch of a router. A flit that an interface has received lies there. -/
inductive Place
  | injection (ni : ℕ)
  | niOut (ni vc : ℕ)
  | out (link : Link)
  | link (link : Link)
  | vc (channel : Channel)
  | switch (inport : Link)
  | stall (ni : ℕ)
  | received (ni : ℕ)
deriving DecidableEq

/-- The members of an interface, without its queues. -/
structure NiState where
  vcAllocator : ℕ → ℕ
  vcBusyCounter : ℕ → ℕ
  niOutVcsEnqueueTime : ℕ → ℕ
  vcRoundRobin : ℕ

/-- The members of all objects. The credits of a link wait at its receiving end and then lie on its
credit link; the states of the output virtual channels belong to its sending end. -/
structure NetState where
  curTick : ℕ
  queue : Place → List NetFlit
  creditQueue : Link → List Credit
  creditLink : Link → List Credit
  outVc : Channel → OutVcState
  vc : Channel → VirtualChannel
  traceRecordQueue : ℕ → List NetworkTraceRecord
  ni : ℕ → NiState
  roundRobinInvc : Link → ℕ
  roundRobinInport : Link → ℕ
  nextPacketId : ℕ
  trace : TraceState
  arrivals : List (PhaseKey × ℕ)

namespace NetworkParams

variable (net : NetworkParams)

/-- `m_num_vcs`. -/
def numVcs : ℕ := net.virtualNetworks * net.vcPerVnet

/-- The switch of a router. -/
def switch (r : ℕ) : ℕ := r + 2 * net.nodes

/-- The input units of a router. -/
def inputUnits (r : ℕ) : List Link := (net.sources (net.switch r)).map fun i => (i, net.switch r)

theorem inputUnits_nodup (r : ℕ) : (net.inputUnits r).Nodup :=
  (net.sources_nodup _).map fun _ _ h => congrArg Prod.fst h

/-- The output units of a router. -/
def outputUnits (r : ℕ) : List Link :=
  (net.table (net.switch r)).map fun e => (net.switch r, e.dest)

/-- The link of an interface into the network. -/
def outLink (ni : ℕ) : Link := (ni, net.switch (net.niRouter ni))

/-- The link of an interface out of the network. -/
def inLink (ni : ℕ) : Link := (net.switch (net.niRouter ni), ni + net.nodes)

/-- An index of a vector with an element for each virtual channel. -/
def vcIndex (vc : ℤ) : Except NetFault ℕ :=
  if 0 ≤ vc ∧ vc < net.numVcs then .ok vc.toNat else .error .outOfRange

/-- An index of a vector with an element for each virtual network. -/
def vnetIndex (vnet : ℤ) : Except NetFault ℕ :=
  if 0 ≤ vnet ∧ vnet < net.virtualNetworks then .ok vnet.toNat else .error .outOfRange

/-- `getInputUnit`. -/
def getInputUnit (r inport : ℕ) : Except NetFault Link :=
  match (net.inputUnits r)[inport]? with
  | some l => .ok l
  | none => .error .outOfRange

/-- `getOutputUnit`. -/
def getOutputUnit (r outport : ℕ) : Except NetFault Link :=
  match (net.outputUnits r)[outport]? with
  | some l => .ok l
  | none => .error .outOfRange

/-- An interface, as the injection reads it. -/
def interface (ni : ℕ) : NetworkInterface where
  id := ni
  outPorts := [⟨[], net.niRouter ni, net.bitWidth⟩]
  machineTypeNum := net.machineTypeNum
  machineTypeBaseNumber := fun m => ((List.range m).map net.baseCount).sum
  routerId := fun dest _ =>
    if 0 ≤ dest ∧ dest < net.nodes then some (net.niRouter dest.toNat) else none

/-- The state after the constructors, with the trace after its first line. -/
def init (file : List Char) : NetState where
  curTick := 0
  queue := fun _ => []
  creditQueue := fun _ => []
  creditLink := fun _ => []
  outVc := fun c =>
    ⟨0, .idle, net.buffersPerVc (c.2 / net.vcPerVnet), net.buffersPerVc (c.2 / net.vcPerVnet)⟩
  vc := fun _ => ⟨.idle, 0, none, infiniteLatency, none⟩
  traceRecordQueue := fun _ => []
  ni := fun _ => ⟨fun _ => 0, fun _ => 0, fun _ => infiniteLatency, 0⟩
  roundRobinInvc := fun _ => 0
  roundRobinInport := fun _ => 0
  nextPacketId := 0
  trace := TraceState.start file
  arrivals := []

end NetworkParams

namespace NetState

variable (net : NetworkParams) (s : NetState)

/-- `clockEdge`; objects wake up at the edges of the one clock. -/
def clockEdge (cycles : ℕ) : ℕ := s.curTick + cycles * net.period

/-- `isReady` of a buffer: the flit that `peekTopFlit` then gives. -/
def ready (p : Place) : Option NetFlit :=
  (s.queue p).head?.filter fun f => decide (f.time ≤ s.curTick)

/-- `getTopFlit` of a buffer and `insert` into another one, with the members set in between. -/
def move (a b : Place) (f : NetFlit) : NetState := { s with queue := Buffers.move s.queue a b f }

/-- A virtual channel of an input unit changes. -/
def setVc (c : Channel) (v : VirtualChannel) : NetState :=
  { s with vc := Function.update s.vc c v }

/-- An output virtual channel changes. -/
def setOutVc (c : Channel) (o : OutVcState) : NetState :=
  { s with outVc := Function.update s.outVc c o }

/-- The members of an interface change. -/
def setNi (n : ℕ) (ni : NiState) : NetState := { s with ni := Function.update s.ni n ni }

/-- A credit is inserted into the queue of its link. -/
def sendCredit (l : Link) (c : Credit) : NetState :=
  { s with creditQueue := Function.update s.creditQueue l (s.creditQueue l ++ [c]) }

/-- `need_stage` of a virtual channel. -/
def needStage (c : Channel) (stage : FlitStage) : Except NetFault Bool :=
  match s.ready (.vc c) with
  | none => .ok false
  | some f => do
    require ((s.vc c).vcState = .active ∧ (s.vc c).time ≤ s.curTick)
    return f.isStage stage s.curTick

end NetState

variable (net : NetworkParams)

/-! ## Links -/

/-- A flit goes over a link. -/
def transmit (l : Link) (f : NetFlit) (s : NetState) : NetState :=
  s.move (.out l) (.link l) { f with time := s.clockEdge net (net.linkLatency l) }

/-- `NetworkLink::wakeup`. -/
def NetworkLink.wakeup (l : Link) (s : NetState) : Except NetFault NetState :=
  match s.ready (.out l) with
  | none => .ok s
  | some f => do
    require (f.width = net.bitWidth)
    -- `m_vc_load`
    let _ ← net.vcIndex f.vc
    return transmit net l f s

/-- The credit that is ready in a buffer. -/
def NetState.readyCredit (s : NetState) (credits : List Credit) : Option Credit :=
  credits.head?.filter fun c => decide (c.time ≤ s.curTick)

/-- A credit goes over the credit link of a link. -/
def transmitCredit (l : Link) (c : Credit) (s : NetState) : NetState :=
  { s with
    creditQueue := Function.update s.creditQueue l (s.creditQueue l).tail
    creditLink := Function.update s.creditLink l
      (s.creditLink l ++ [{ c with time := s.clockEdge net (net.linkLatency l) }]) }

/-- `NetworkLink::wakeup` of a `CreditLink`, whose type is never set. -/
def CreditLink.wakeup (l : Link) (s : NetState) : Except NetFault NetState :=
  match s.readyCredit (s.creditQueue l) with
  | none => .ok s
  | some c => do
    let _ ← net.vcIndex c.vc
    return transmitCredit net l c s

/-- `OutputUnit::wakeup`, and the same lines of an interface: a credit is taken off its link. -/
def consumeCredit (l : Link) (s : NetState) : Except NetFault NetState :=
  match s.readyCredit (s.creditLink l) with
  | none => .ok s
  | some c => do
    let vc ← net.vcIndex c.vc
    let o ← (s.outVc (l, vc)).incrementCredit
    let o := if c.isFreeSignal then o.setState .idle s.curTick else o
    return { s with creditLink := Function.update s.creditLink l (s.creditLink l).tail }.setOutVc
      (l, vc) o

/-! ## Routers -/

/-- `RoutingUnit::outportCompute`, by the routing table. -/
def routeCompute (rand r : ℕ) (route : RouteInfo) : Except NetFault ℕ := do
  let vnet ← net.vnetIndex route.vnet
  lookupRoutingTable (net.ordered vnet) rand (net.table (net.switch r)) route.netDest

namespace InputUnit

/-- The virtual channel of a flit that arrives: a head opens it and computes the route. -/
def openVc (rand r : ℕ) (c : Channel) (f : NetFlit) (s : NetState) : Except NetFault NetState :=
  if f.isHead then do
    require ((s.vc c).vcState = .idle)
    let outport ← routeCompute net rand r f.route
    return s.setVc c { (s.vc c).setActive s.curTick with outputPort := some outport }
  else do
    require ((s.vc c).vcState = .active)
    return s

/-- When a flit that arrives may take part in the allocation; a router with one stage takes it
there at once. -/
def saTime (r : ℕ) (s : NetState) : ℕ :=
  if net.pipeStages r = 1 then s.curTick else s.clockEdge net (net.pipeStages r - 1)

/-- `InputUnit::wakeup`. -/
def wakeup (rand r : ℕ) (l : Link) (s : NetState) : Except NetFault NetState :=
  match s.ready (.link l) with
  | none => .ok s
  | some f => do
    require (f.width = net.bitWidth)
    let vc ← net.vcIndex f.vc
    let s ← openVc net rand r (l, vc) f.incrementHops s
    require (net.pipeStages r = 1 ∨ 1 < net.pipeStages r)
    return s.move (.link l) (.vc (l, vc))
      { f.incrementHops with stage := (.switchAllocation, saTime net r s) }

end InputUnit

namespace OutputUnit

/-- `is_vc_idle`. -/
def isVcIdle (s : NetState) (c : Channel) : Bool := (s.outVc c).isInState .idle s.curTick

/-- The virtual channels of a virtual network. -/
def vcsOf (vnet : ℕ) : List ℕ :=
  (List.range net.vcPerVnet).map fun offset => vnet * net.vcPerVnet + offset

/-- `has_free_vc`. -/
def hasFreeVc (l : Link) (vnet : ℕ) (s : NetState) : Bool :=
  (vcsOf net vnet).any fun vc => isVcIdle s (l, vc)

/-- `select_free_vc`. -/
def selectFreeVc (l : Link) (vnet : ℕ) (s : NetState) : Option (ℕ × NetState) :=
  ((vcsOf net vnet).find? fun vc => isVcIdle s (l, vc)).map fun vc =>
    (vc, s.setOutVc (l, vc) ((s.outVc (l, vc)).setState .active s.curTick))

/-- `OutputUnit::has_credit`. -/
def hasCredit (c : Channel) (s : NetState) : Except NetFault Bool := do
  require ((s.outVc c).isInState .active s.curTick)
  return (s.outVc c).hasCredit

/-- `OutputUnit::decrement_credit`. -/
def decrementCredit (c : Channel) (s : NetState) : Except NetFault NetState := do
  let o ← (s.outVc c).decrementCredit
  return s.setOutVc c o

end OutputUnit

namespace SwitchAllocator

/-- `get_vnet`. -/
def getVnet (invc : ℕ) : Except NetFault ℕ := do
  require (invc / net.vcPerVnet < net.virtualNetworks)
  return invc / net.vcPerVnet

/-- The check of `send_allowed` that no flit of an ordered virtual network overtakes another one
from the same input port to the same output port. -/
def overtakes (l : Link) (invc outport vnet : ℕ) (s : NetState) : Except NetFault Bool :=
  if net.ordered vnet then
    (OutputUnit.vcsOf net vnet).anyM fun vc => do
      let waiting ← s.needStage (l, vc) .switchAllocation
      return waiting && decide ((s.vc (l, vc)).outputPort = some outport ∧
        (s.vc (l, vc)).enqueueTime < (s.vc (l, invc)).enqueueTime)
  else .ok false

/-- `send_allowed`. -/
def sendAllowed (r : ℕ) (l : Link) (invc outport : ℕ) (outvc : Option ℕ) (s : NetState) :
    Except NetFault Bool := do
  let vnet ← getVnet net invc
  let outputUnit ← net.getOutputUnit r outport
  let hasCredit ← match outvc with
    | none => pure (OutputUnit.hasFreeVc net outputUnit vnet s)
    | some vc => OutputUnit.hasCredit (outputUnit, vc) s
  if hasCredit then do
    let late ← overtakes net l invc outport vnet s
    return !late
  else return false

/-- The request of an input virtual channel, if it makes one. -/
def request (r : ℕ) (l : Link) (invc : ℕ) (s : NetState) : Except NetFault (Option ℕ) := do
  let invc ← net.vcIndex invc
  if ← s.needStage (l, invc) .switchAllocation then
    match (s.vc (l, invc)).outputPort with
    | none => .error .outOfRange
    | some outport =>
      if ← sendAllowed net r l invc outport (s.vc (l, invc)).outputVc s then return some outport
      else return none
  else return none

/-- The index after `i`, around a vector. -/
def nextIndex (size i : ℕ) : ℕ := if size ≤ i + 1 then 0 else i + 1

/-- The loop of `arbitrate_inports` over the virtual channels of an input port, for a number of
them: the output port and the virtual channel of the first request. -/
def arbitrateInport (r : ℕ) (l : Link) (s : NetState) :
    ℕ → ℕ → Except NetFault (Option (ℕ × ℕ))
  | 0, _ => .ok none
  | n + 1, invc => do
    match ← request net r l invc s with
    | some outport => return some (outport, invc)
    | none => arbitrateInport r l s n (nextIndex net.numVcs invc)

/-- `arbitrate_inports`: `m_port_requests` and `m_vc_winners`. -/
def arbitrateInports (r : ℕ) (s : NetState) : Except NetFault (List (Option (ℕ × ℕ))) :=
  (net.inputUnits r).mapM fun l => arbitrateInport net r l s net.numVcs (s.roundRobinInvc l)

/-- `vc_allocate`, where the virtual channel has no output virtual channel yet. -/
def vcAllocate (l outputUnit : Link) (invc : ℕ) (s : NetState) : Except NetFault (ℕ × NetState) :=
  match (s.vc (l, invc)).outputVc with
  | some outvc => .ok (outvc, s)
  | none => do
    let vnet ← getVnet net invc
    match OutputUnit.selectFreeVc net outputUnit vnet s with
    | none => .error .assertion
    | some (outvc, s) =>
      return (outvc, s.setVc (l, invc) { s.vc (l, invc) with outputVc := some outvc })

/-- The input virtual channel of a flit that has gone: after the last one it is free again. -/
def freeVc (c : Channel) (f : NetFlit) (s : NetState) : Except NetFault NetState :=
  if f.isTail then do
    require (s.ready (.vc c) = none)
    return (s.setVc c (.setIdle s.curTick)).sendCredit c.1 ⟨c.2, true, s.curTick⟩
  else return s.sendCredit c.1 ⟨c.2, false, s.curTick⟩

/-- A grant of `arbitrate_outports`. -/
def grant (r inport outport invc : ℕ) (s : NetState) : Except NetFault NetState := do
  let outputUnit ← net.getOutputUnit r outport
  let l ← net.getInputUnit r inport
  let (outvc, s) ← vcAllocate net l outputUnit invc s
  match s.queue (.vc (l, invc)) with
  | [] => .error .outOfRange
  | f :: _ => do
    let s ← OutputUnit.decrementCredit (outputUnit, outvc) s
    let s ← freeVc (l, invc) f (s.move (.vc (l, invc)) (.switch l)
      { f with outport := outport, vc := outvc, stage := (.switchTraversal, s.curTick) })
    return { s with
      roundRobinInport := Function.update s.roundRobinInport outputUnit
        (nextIndex (net.inputUnits r).length inport)
      roundRobinInvc := Function.update s.roundRobinInvc l (nextIndex net.numVcs invc) }

/-- The loop of `arbitrate_outports` over the input ports, for a number of them. -/
def arbitrateOutport (r outport : ℕ) :
    ℕ → ℕ → NetState × List (Option (ℕ × ℕ)) → Except NetFault (NetState × List (Option (ℕ × ℕ)))
  | 0, _, x => .ok x
  | n + 1, inport, x =>
    match x.2[inport]? with
    | none => .error .outOfRange
    | some none => arbitrateOutport r outport n (nextIndex (net.inputUnits r).length inport) x
    | some (some winner) =>
      if winner.1 = outport then do
        let s ← grant net r inport outport winner.2 x.1
        return (s, x.2.set inport none)
      else arbitrateOutport r outport n (nextIndex (net.inputUnits r).length inport) x

/-- One pass of `arbitrate_outports`. -/
def arbitrateOutputUnit (r : ℕ) (x : NetState × List (Option (ℕ × ℕ))) (e : Link × ℕ) :
    Except NetFault (NetState × List (Option (ℕ × ℕ))) :=
  arbitrateOutport net r e.2 (net.inputUnits r).length (x.1.roundRobinInport e.1) x

/-- `arbitrate_outports`. -/
def arbitrateOutports (r : ℕ) (requests : List (Option (ℕ × ℕ))) (s : NetState) :
    Except NetFault NetState := do
  let x ← (net.outputUnits r).zipIdx.foldlM (arbitrateOutputUnit net r) (s, requests)
  return x.1

/-- `SwitchAllocator::wakeup`. -/
def wakeup (r : ℕ) (s : NetState) : Except NetFault NetState := do
  let requests ← arbitrateInports net r s
  arbitrateOutports net r requests s

end SwitchAllocator

namespace CrossbarSwitch

/-- One pass of `CrossbarSwitch::wakeup`. -/
def traverse (r : ℕ) (s : NetState) (l : Link) : Except NetFault NetState :=
  match s.ready (.switch l) with
  | none => .ok s
  | some f =>
    if f.isStage .switchTraversal s.curTick then do
      let outputUnit ← net.getOutputUnit r f.outport
      return s.move (.switch l) (.out outputUnit) { f with
        stage := (.linkTraversal, s.clockEdge net 1)
        time := s.clockEdge net 1 }
    else .ok s

/-- `CrossbarSwitch::wakeup`. -/
def wakeup (r : ℕ) (s : NetState) : Except NetFault NetState :=
  (net.inputUnits r).foldlM (traverse net r) s

end CrossbarSwitch

/-- `Router::wakeup`, with the random numbers that the input units draw. -/
def Router.wakeup (rand : Link → ℕ) (r : ℕ) (s : NetState) : Except NetFault NetState := do
  let s ← (net.inputUnits r).foldlM (fun s l => InputUnit.wakeup net (rand l) r l s) s
  let s ← (net.outputUnits r).foldlM (fun s l => consumeCredit net l s) s
  let s ← SwitchAllocator.wakeup net r s
  CrossbarSwitch.wakeup net r s

/-! ## Interfaces -/

/-- `transferTraceRecordsToInjectionQueue` on a machine that reads an old record where the queue is
empty. -/
def transferReading (ni : NetworkInterface) (stale : NetworkTraceRecord) (curTick : ℕ)
    (s : InjectionState) : Except Fault InjectionState :=
  match s.traceRecordQueue with
  | [] => .ok s
  | first :: _ => do
    let (sameTimeRecords, queue) := drain first.time [] s.traceRecordQueue
    let oPort ← ni.getOutportForVnet (queue.headD stale).vnet
    let routes ← sameTimeRecords.mapM (ni.route oPort)
    let (flits, packetId) := pushFlits oPort curTick (maxNumFlits sameTimeRecords)
      (sameTimeRecords.zip routes) (s.traceInjectionQueue, s.nextPacketId)
    return ⟨queue, flits, packetId⟩

/-- Where the queue is not empty the record does not matter. -/
theorem transferReading_eq {ni : NetworkInterface} (stale : NetworkTraceRecord) {curTick : ℕ}
    {s s' : InjectionState} (h : transferTraceRecordsToInjectionQueue ni curTick s = .ok s') :
    transferReading ni stale curTick s = .ok s' := by
  unfold transferTraceRecordsToInjectionQueue at h
  unfold transferReading
  cases hqueue : s.traceRecordQueue with
  | nil =>
    rw [hqueue] at h
    exact h
  | cons first rest =>
    rw [hqueue] at h
    dsimp only at h ⊢
    generalize drain first.time [] (first :: rest) = d at h ⊢
    obtain ⟨next, hnext, h⟩ := bind_eq_ok.mp h
    rw [front_eq_ok] at hnext
    rwa [List.headD_eq_head?_getD, hnext, Option.getD_some]

namespace NetworkInterface

/-- The transfer, when there is no flit left to inject. -/
def transfer (n : ℕ) (stale : NetworkTraceRecord) (s : NetState) : Except NetFault NetState :=
  if (s.queue (.injection n)).isEmpty then
    match transferReading (net.interface n) stale s.curTick
      ⟨s.traceRecordQueue n, [], s.nextPacketId⟩ with
    | .error fault => .error (.injection fault)
    | .ok t => .ok { s with
        queue := Buffers.extend s.queue (.injection n) (t.traceInjectionQueue.map NetFlit.ofFlit)
        traceRecordQueue := Function.update s.traceRecordQueue n t.traceRecordQueue
        nextPacketId := t.nextPacketId }
  else .ok s

/-- The loop of `calculateVC`, with `m_vc_allocator`. -/
def searchVc (n vnet : ℕ) (s : NetState) : ℕ → ℕ → Except NetFault (Option ℕ × ℕ)
  | 0, delta => .ok (none, delta)
  | i + 1, delta => do
    let next := if delta + 1 = net.vcPerVnet then 0 else delta + 1
    let vc ← net.vcIndex (vnet * net.vcPerVnet + delta : ℕ)
    if (s.outVc (net.outLink n, vc)).isInState .idle s.curTick then return (some vc, next)
    else searchVc n vnet s i next

/-- `calculateVC`. -/
def calculateVc (n vnet : ℕ) (s : NetState) : Except NetFault (Option ℕ × NetState) := do
  let ni := s.ni n
  let (vc, delta) ← searchVc net n vnet s net.vcPerVnet (ni.vcAllocator vnet)
  let busy := if vc.isSome then 0 else ni.vcBusyCounter vnet + 1
  if busy > net.deadlockThreshold then .error .panic
  else .ok (vc, s.setNi n { ni with
    vcAllocator := Function.update ni.vcAllocator vnet delta
    vcBusyCounter := Function.update ni.vcBusyCounter vnet busy })

/-- `injectTraceFlit`. -/
def injectTraceFlit (n vc : ℕ) (f : NetFlit) (s : NetState) : NetState :=
  ((s.move (.injection n) (.niOut n vc) { f with
      vc := vc
      time := s.curTick
      srcDelay := s.curTick - f.enqueueTime
      enqueueTime := s.curTick }).setNi n { s.ni n with
      niOutVcsEnqueueTime := Function.update (s.ni n).niOutVcsEnqueueTime vc s.curTick }).setOutVc
    (net.outLink n, vc) ((s.outVc (net.outLink n, vc)).setState .active s.curTick)

/-- The flit at the front of the injection queue, if there is one, gets a virtual channel. -/
def inject (n : ℕ) (s : NetState) : Except NetFault NetState :=
  match s.queue (.injection n) with
  | [] => .ok s
  | f :: _ => do
    let vnet ← net.vnetIndex f.vnet
    let (vc, s) ← calculateVc net n vnet s
    match vc with
    | none => return s
    | some vc => return injectTraceFlit net n vc f s

/-- `is_candidate_vc`: no flit of an ordered virtual network overtakes another one. -/
def isCandidateVc (n vc : ℕ) (s : NetState) : Bool :=
  !net.ordered (vc / net.vcPerVnet) ||
    (OutputUnit.vcsOf net (vc / net.vcPerVnet)).all fun other =>
      (s.ready (.niOut n other)).isNone ||
        decide ((s.ni n).niOutVcsEnqueueTime vc ≤ (s.ni n).niOutVcsEnqueueTime other)

/-- The flit that `scheduleOutputPort` has chosen goes to the output queue. -/
def scheduleFlit (n vc : ℕ) (f : NetFlit) (s : NetState) : Except NetFault NetState := do
  let s ← OutputUnit.decrementCredit (net.outLink n, vc) s
  return (s.move (.niOut n vc) (.out (net.outLink n))
    { f with time := s.clockEdge net 1 }).setNi n { s.ni n with
      vcRoundRobin := vc
      niOutVcsEnqueueTime := if f.isTail then
        Function.update (s.ni n).niOutVcsEnqueueTime vc infiniteLatency
        else (s.ni n).niOutVcsEnqueueTime }

/-- The loop of `scheduleOutputPort`, for a number of virtual channels. -/
def scheduleOutputPort (n : ℕ) (s : NetState) : ℕ → ℕ → Except NetFault NetState
  | 0, _ => .ok s
  | i + 1, vc =>
    let vc := if vc + 1 = net.numVcs then 0 else vc + 1
    -- `get_vnet`
    if net.numVcs ≤ vc then .error .fatal
    else
      match s.ready (.niOut n vc) with
      | none => scheduleOutputPort n s i vc
      | some f =>
        if (s.outVc (net.outLink n, vc)).hasCredit && isCandidateVc net n vc s then
          scheduleFlit net n vc f s
        else scheduleOutputPort n s i vc

/-- `checkStallQueue`, for the virtual networks whose protocol buffers have a slot: the flits of a
trace have no message, which is dereferenced. -/
def checkStallQueue (n : ℕ) (slots : ℤ → Bool) (s : NetState) : Except NetFault NetState :=
  if (s.queue (.stall n)).any fun f => slots f.vnet then .error .nullMessage else .ok s

/-- `incrementStats`: the latency of a packet is added to its phase. -/
def incrementStats (f : NetFlit) (s : NetState) : NetState :=
  let networkDelay := f.dequeueTime - f.enqueueTime - net.period
  let queueingDelay := f.srcDelay + (s.curTick - f.dequeueTime)
  if f.type = .headTail ∨ f.type = .tail ∧ f.route.lastFlit then
    { s with arrivals := s.arrivals ++ [(f.phaseKey, networkDelay + queueingDelay)] }
  else s

/-- A flit is taken off the incoming link. -/
def consumeFlit (n : ℕ) (slots : ℤ → Bool) (s : NetState) : Except NetFault NetState :=
  match s.ready (.link (net.inLink n)) with
  | none => .ok s
  | some f => do
    require (f.width = net.bitWidth)
    let f := { f with dequeueTime := s.curTick }
    if f.isTail then do
      let _ ← net.vnetIndex f.vnet
      if slots f.vnet then
        let s := { s with trace := { s.trace.incrementTraceFlitsReceived net.maxPackets with
          delivered := s.trace.delivered + 1 } }
        return incrementStats net f ((s.move (.link (net.inLink n)) (.received n) f).sendCredit
          (net.inLink n) ⟨f.vc, true, s.curTick⟩)
      else return s.move (.link (net.inLink n)) (.stall n) f
    else
      return incrementStats net f ((s.move (.link (net.inLink n)) (.received n) f).sendCredit
        (net.inLink n) ⟨f.vc, false, s.curTick⟩)

/-- `NetworkInterface::wakeup` with a trace. -/
def wakeup (n : ℕ) (stale : NetworkTraceRecord) (slots : ℤ → Bool) (s : NetState) :
    Except NetFault NetState := do
  let s ← transfer net n stale s
  let s ← inject net n s
  let s ← scheduleOutputPort net n s net.numVcs (s.ni n).vcRoundRobin
  let s ← checkStallQueue n slots s
  let s ← consumeFlit net n slots s
  consumeCredit net (net.outLink n) s

/-- `enqueueTracePacket`. -/
def enqueueTracePacket (r : NetworkTraceRecord) (s : NetState) : Except NetFault NetState :=
  if 0 ≤ r.srcId ∧ r.srcId < net.nodes then
    .ok { s with
      traceRecordQueue := Function.update s.traceRecordQueue r.srcId.toNat
        (s.traceRecordQueue r.srcId.toNat ++ [r]) }
  else .error .outOfRange

end NetworkInterface

/-! ## The whole network -/

/-- One call of `GarnetNetwork::wakeup`. -/
def GarnetNetwork.wakeup (s : NetState) : Except NetFault NetState :=
  match s.trace.wakeupCall net.nodes net.maxPackets with
  | none => .error .nullPointer
  | some trace =>
    match s.trace.nextPacket with
    | none => .ok { s with trace := trace }
    | some r => do
      let s ← NetworkInterface.enqueueTracePacket net r s
      return { s with trace := trace }

/-- A cycle passes, or an object wakes up. What an object reads and is not in the state is
arbitrary: the old record an interface may find behind the end of a queue, whether the protocol
buffers have slots, and the random numbers. -/
inductive Action
  | cycle
  | network
  | interface (n : ℕ) (stale : NetworkTraceRecord) (slots : ℤ → Bool)
  | router (r : ℕ) (rand : Link → ℕ)
  | outputUnit (l : Link)
  | link (l : Link)
  | creditLink (l : Link)

/-- What an action does while the simulation loop runs. -/
def perform (s : NetState) : Action → Except NetFault NetState
  | .cycle => .ok { s with curTick := s.clockEdge net 1 }
  | .network => if s.trace.wakeupDue then GarnetNetwork.wakeup net s else .ok s
  | .interface n stale slots =>
    if n < net.nodes then NetworkInterface.wakeup net n stale slots s else .ok s
  | .router r rand => Router.wakeup net rand r s
  | .outputUnit l => consumeCredit net l s
  | .link l => NetworkLink.wakeup net l s
  | .creditLink l => CreditLink.wakeup net l s

/-- One action; after the end of the simulation nothing happens. -/
def step (s : NetState) (a : Action) : Except NetFault NetState :=
  if s.trace.exited then .ok s else perform net s a

end Garnet

end ChipSim
