import Mathlib.Algebra.BigOperators.Group.Finset.Basic
import Mathlib.Data.Multiset.Bind
import ChipSim.Garnet.Network
import ChipSim.Garnet.Routes

/-!
# Delivery

Whatever the order in which the objects of the network wake up, no flit is lost or doubled, and each
one that arrives is counted once, for its phase, at the interface it is for. The trace that is read
and the arrivals that are counted are a run of the reader, so that a simulation that ends has
delivered all flits of the trace.
-/

namespace ChipSim

open Lib

namespace Garnet

/-! ## The invariant -/

/-- What a flit keeps on its way. -/
def NetFlit.label (f : NetFlit) : ℕ × FlitType × PhaseKey × Option (ℕ × ℤ) × ℤ :=
  (f.packetId, f.type, f.phaseKey, f.route.netDest, f.route.destNi)

namespace NetworkParams

variable (net : NetworkParams)

/-- The machine of a destination. -/
def netDest (dest : ℤ) : Option (ℕ × ℤ) := (net.interface 0).netDest dest

/-- An output port of a switch leads to the destination of a flit. -/
def Leads (switch outport : ℕ) (f : NetFlit) : Prop :=
  ∃ e, (net.table switch)[outport]? = some e ∧ e.reaches f.route.netDest = true

/-- A link comes from an interface, or leads to the destination of a flit. -/
def Aims (l : Link) (f : NetFlit) : Prop :=
  l.1 < net.nodes ∨ ∃ e ∈ net.table l.1, e.dest = l.2 ∧ e.reaches f.route.netDest = true

/-- What holds of a flit where it lies: it has come on a way to its destination, and not sooner than
that takes. -/
def Lies (now : ℕ) (f : NetFlit) : Place → Prop
  | .injection _ => True
  | .niOut n _ => n < net.nodes ∧ f.enqueueTime ≤ f.time
  | .out l => net.Aims l f ∧ f.enqueueTime + net.period ≤ f.time
  | .link l => net.Aims l f ∧ f.enqueueTime + net.period + net.linkLatency l * net.period ≤ f.time
  | .vc _ => f.enqueueTime + net.period ≤ f.time ∧ f.time ≤ now
  | .switch l => net.Leads l.2 f.outport f ∧ f.enqueueTime + net.period ≤ f.time ∧ f.time ≤ now
  | .stall n | .received n => net.Aims (net.inLink n) f

/-- A flit of a trace; the phases of all flits are given by their numbers. -/
structure Fits (phases : ℕ → PhaseKey) (now : ℕ) (p : Place) (f : NetFlit) : Prop where
  type : f.type = .headTail
  phase : phases f.packetId = f.phaseKey
  dest : f.route.netDest = net.netDest f.route.destNi
  lies : net.Lies now f p

/-- The flits with numbers below `next` lie in the buffers, once each. -/
structure Stored (phases : ℕ → PhaseKey) (now next : ℕ) (q : Place → List NetFlit) : Prop where
  unique : Buffers.Unique (fun f => f.packetId) q
  fresh : ∀ p, ∀ f ∈ q p, f.packetId < next
  fits : ∀ p, ∀ f ∈ q p, net.Fits phases now p f
  present : ∀ i < next, ∃ p, ∃ f ∈ q p, f.packetId = i

/-- A virtual channel at a switch is empty when it is idle, and its port leads to the destination of
what lies in it. -/
structure VcOk (switch : ℕ) (v : VirtualChannel) (l : List NetFlit) : Prop where
  idle : v.vcState = .idle → l = []
  leads : ∀ f ∈ l, ∃ outport, v.outputPort = some outport ∧ net.Leads switch outport f

end NetworkParams

/-- The phases of the flits by their numbers, and the numbers of those that have arrived, in
order. -/
structure History where
  phases : ℕ → PhaseKey
  arrived : List ℕ

/-- The phases of the flits of some packets. -/
def flitPhases (records : List NetworkTraceRecord) : Multiset PhaseKey :=
  (records : Multiset NetworkTraceRecord).bind fun r =>
    Multiset.replicate r.numFlits.toNat (phaseKey r)

/-- The invariant of the network. A flit of a packet that has been read waits for its number, or has
one; the received flits are those that have been counted. -/
structure NetState.Inv (net : NetworkParams) (g : History) (s : NetState) : Prop where
  stored : net.Stored g.phases s.curTick s.nextPacketId s.queue
  vcs : ∀ c : Channel, net.VcOk c.1.2 (s.vc c) (s.queue (.vc c))
  arrived : ∀ i, i ∈ g.arrived ↔ ∃ n, ∃ f ∈ s.queue (.received n), f.packetId = i
  nodup : g.arrived.Nodup
  sources : ∀ r ∈ s.trace.enqueued, 0 ≤ r.srcId ∧ r.srcId < net.nodes
  injected : ((List.range s.nextPacketId).map g.phases : Multiset PhaseKey) +
    ∑ n ∈ Finset.range net.nodes, flitPhases (s.traceRecordQueue n) = flitPhases s.trace.enqueued
  delivered : g.arrived.length = s.trace.delivered
  arrivals : s.arrivals.map Prod.fst = g.arrived.map g.phases
  latency : ∀ a ∈ s.arrivals, ∃ n, net.linkLatency (net.inLink n) * net.period ≤ a.2

/-- A part of a wakeup that counts no arrival keeps the invariant. -/
def Keeps (net : NetworkParams) (s s' : NetState) : Prop :=
  ∀ g, s.Inv net g → s'.trace = s.trace ∧ ∃ g', s'.Inv net g'

variable {net : NetworkParams} {s s' : NetState}

/-! ## Moves -/

namespace NetworkParams

variable {phases : ℕ → PhaseKey} {now next : ℕ} {q : Place → List NetFlit} {a b : Place}
  {f x : NetFlit} {rest : List NetFlit}

theorem Fits.carry (h : net.Fits phases now a f) (hx : x.label = f.label)
    (hlies : net.Lies now x b) : net.Fits phases now b x := by
  simp only [NetFlit.label, Prod.mk.injEq] at hx
  obtain ⟨hid, htype, hphase, hnetDest, hdest⟩ := hx
  refine ⟨htype.trans h.type, ?_, ?_, hlies⟩
  · rw [hid, hphase, h.phase]
  · rw [hnetDest, hdest, h.dest]

theorem netDest_of_label (hx : x.label = f.label) : f.route.netDest = x.route.netDest := by
  simp only [NetFlit.label, Prod.mk.injEq] at hx
  exact hx.2.2.2.1.symm

/-- A flit moves on. -/
theorem Stored.move (h : net.Stored phases now next q) (hq : q a = f :: rest)
    (hx : x.label = f.label) (hlies : net.Lies now f a → net.Lies now x b) :
    net.Stored phases now next (Buffers.move q a b x) := by
  have hid : x.packetId = f.packetId := congrArg Prod.fst hx
  have hf : f ∈ q a := hq ▸ List.mem_cons_self
  refine ⟨h.unique.move hq hid b, fun p y hy => ?_, fun p y hy => ?_, fun i hi => ?_⟩
  · rcases (Buffers.mem_move h.unique hq).mp hy with ⟨rfl, rfl⟩ | ⟨hy, -⟩
    · exact hid ▸ h.fresh a f hf
    · exact h.fresh p y hy
  · rcases (Buffers.mem_move h.unique hq).mp hy with ⟨rfl, rfl⟩ | ⟨hy, -⟩
    · exact (h.fits a f hf).carry hx (hlies (h.fits a f hf).lies)
    · exact h.fits p y hy
  · obtain ⟨p, y, hy, rfl⟩ := h.present i hi
    by_cases hyf : y.packetId = f.packetId
    · exact ⟨b, x, (Buffers.mem_move h.unique hq).mpr (.inl ⟨rfl, rfl⟩), hid.trans hyf.symm⟩
    · exact ⟨p, y, (Buffers.mem_move h.unique hq).mpr (.inr ⟨hy, hyf⟩), rfl⟩

theorem Stored.mono {now' : ℕ} (h : net.Stored phases now next q) (hle : now ≤ now') :
    net.Stored phases now' next q := by
  refine ⟨h.unique, h.fresh, fun p f hf => ?_, h.present⟩
  obtain ⟨htype, hphase, hdest, hlies⟩ := h.fits p f hf
  refine ⟨htype, hphase, hdest, ?_⟩
  cases p with
  | vc c => exact ⟨hlies.1, hlies.2.trans hle⟩
  | switch l => exact ⟨hlies.1, hlies.2.1, hlies.2.2.trans hle⟩
  | injection | niOut | out | link | stall | received => exact hlies

end NetworkParams

/-- The places of the flits that are on their way and in no virtual channel. -/
def Place.passing : Place → Bool
  | .vc _ | .received _ => false
  | _ => true

/-- All that the invariant is about. -/
def NetState.carried (s : NetState) :=
  (s.curTick, s.queue, s.vc, s.traceRecordQueue, s.nextPacketId, s.trace, s.arrivals)

theorem NetState.Inv.congr {g : History} (h : s.Inv net g) (heq : s'.carried = s.carried) :
    s'.Inv net g := by
  simp only [NetState.carried, Prod.mk.injEq] at heq
  obtain ⟨htick, hqueue, hvc, hrecords, hnext, htrace, harrivals⟩ := heq
  obtain ⟨hstored, hvcs, harrived, hnodup, hsources, hinjected, hdelivered, hmap, hlatency⟩ := h
  simp only [← htick, ← hqueue, ← hvc, ← hrecords, ← hnext, ← htrace, ← harrivals] at *
  exact ⟨hstored, hvcs, harrived, hnodup, hsources, hinjected, hdelivered, hmap, hlatency⟩

/-- The same flits are received. -/
theorem NetState.Inv.arrived_of_eq {g : History} (h : s.Inv net g)
    (hq : ∀ n, s'.queue (.received n) = s.queue (.received n)) (i : ℕ) :
    i ∈ g.arrived ↔ ∃ n, ∃ f ∈ s'.queue (.received n), f.packetId = i := by
  simp only [h.arrived, hq]

namespace Keeps

theorem of_eq (heq : s'.carried = s.carried) : Keeps net s s' := by
  intro g h
  have htrace : s'.trace = s.trace := congrArg (·.2.2.2.2.2.1) heq
  exact ⟨htrace, g, h.congr heq⟩

theorem trans {s'' : NetState} (h : Keeps net s s') (h' : Keeps net s' s'') : Keeps net s s'' := by
  intro g hg
  obtain ⟨htrace, g', hg'⟩ := h g hg
  obtain ⟨htrace', hg''⟩ := h' g' hg'
  exact ⟨htrace'.trans htrace, hg''⟩

theorem foldlM {α : Type} {f : NetState → α → Except NetFault NetState} {l : List α}
    (h : l.foldlM f s = .ok s') (step : ∀ a ∈ l, ∀ s s', f s a = .ok s' → Keeps net s s') :
    Keeps net s s' :=
  foldlM_invariant (Keeps net s) h (of_eq rfl) fun a ha t t' ht hstep =>
    ht.trans (step a ha t t' hstep)

/-- A flit on its way moves on. -/
theorem pass {a b : Place} {f x : NetFlit} {rest : List NetFlit}
    (heq : s'.carried = (s.move a b x).carried) (hq : s.queue a = f :: rest)
    (ha : a.passing = true) (hb : b.passing = true) (hx : x.label = f.label)
    (hlies : net.Lies s.curTick f a → net.Lies s.curTick x b) : Keeps net s s' := by
  refine trans (fun g h => ?_) (of_eq heq)
  have hne : ∀ {p c : Place}, p.passing = true → c.passing = false → c ≠ p := by
    rintro p c hp hc rfl
    exact Bool.false_ne_true (hc.symm.trans hp)
  refine ⟨rfl, g, { h with
    stored := h.stored.move hq hx hlies
    vcs := fun c => ?_
    arrived := h.arrived_of_eq fun n => Buffers.move_of_ne (hne ha rfl) (hne hb rfl) }⟩
  dsimp only [NetState.move]
  rw [Buffers.move_of_ne (hne ha rfl) (hne hb rfl)]
  exact h.vcs c

end Keeps

theorem ready_eq_some {p : Place} {f : NetFlit} (h : s.ready p = some f) :
    (∃ rest, s.queue p = f :: rest) ∧ f.time ≤ s.curTick := by
  unfold NetState.ready at h
  rw [Option.filter_eq_some_iff, decide_eq_true_eq, List.head?_eq_some_iff] at h
  exact h

/-! ## Links and credits -/

theorem networkLink_keeps {l : Link} (h : NetworkLink.wakeup net l s = .ok s') :
    Keeps net s s' := by
  unfold NetworkLink.wakeup at h
  split at h
  · cases h
    exact .of_eq rfl
  · next f hready =>
    obtain ⟨⟨rest, hq⟩, htime⟩ := ready_eq_some hready
    obtain ⟨-, -, h⟩ := bind_eq_ok.mp h
    obtain ⟨-, -, h⟩ := bind_eq_ok.mp h
    cases h
    refine .pass rfl hq rfl rfl rfl fun hlies => ⟨hlies.1, ?_⟩
    have := hlies.2
    dsimp only [NetState.clockEdge]
    omega

theorem creditLink_keeps {l : Link} (h : CreditLink.wakeup net l s = .ok s') : Keeps net s s' := by
  unfold CreditLink.wakeup at h
  split at h
  · cases h
    exact .of_eq rfl
  · obtain ⟨-, -, h⟩ := bind_eq_ok.mp h
    cases h
    exact .of_eq rfl

theorem consumeCredit_keeps {l : Link} (h : consumeCredit net l s = .ok s') : Keeps net s s' := by
  unfold consumeCredit at h
  split at h
  · cases h
    exact .of_eq rfl
  · obtain ⟨vc, -, h⟩ := bind_eq_ok.mp h
    obtain ⟨o, -, h⟩ := bind_eq_ok.mp h
    cases h
    exact .of_eq rfl

theorem decrementCredit_carried {c : Channel} (h : OutputUnit.decrementCredit c s = .ok s') :
    s'.carried = s.carried := by
  obtain ⟨o, -, h⟩ := bind_eq_ok.mp h
  cases h
  rfl

/-! ## Routers -/

theorem require_eq_ok {p : Prop} [Decidable p] {u : Unit} (h : require p = .ok u) : p := by
  unfold require at h
  split_ifs at h with hp
  exact hp

theorem isHead_of_type {f : NetFlit} (h : f.type = .headTail) : f.isHead = true :=
  decide_eq_true (.inr h)

theorem isTail_of_type {f : NetFlit} (h : f.type = .headTail) : f.isTail = true :=
  decide_eq_true (.inr h)

/-- What is looked up leads to the destination. -/
theorem lookupRoutingTable_reaches {ordered : Bool} {rand o : ℕ} {table : List OutputLink}
    {dest : Option (ℕ × ℤ)} (h : lookupRoutingTable ordered rand table dest = .ok o) :
    ∃ e, table[o]? = some e ∧ e.reaches dest = true := by
  by_cases hnone : outputLinkCandidates table dest = []
  · unfold lookupRoutingTable at h
    dsimp only at h
    rw [if_pos hnone] at h
    cases h
  · obtain ⟨o', ho', hlookup⟩ := lookupRoutingTable_ok ordered rand hnone
    cases hlookup.symm.trans h
    obtain ⟨e, he, hreaches, -⟩ := mem_outputLinkCandidates.mp ho'
    exact ⟨e, he, hreaches⟩

/-- A flit that arrives finds its virtual channel idle, and the port leads to its destination. -/
theorem openVc_eq_ok {rand r : ℕ} {c : Channel} {f : NetFlit} (htype : f.type = .headTail)
    (h : InputUnit.openVc net rand r c f s = .ok s') :
    (s.vc c).vcState = .idle ∧ ∃ outport v, net.Leads (net.switch r) outport f ∧
      v.vcState = .active ∧ v.outputPort = some outport ∧ s' = s.setVc c v := by
  unfold InputUnit.openVc at h
  rw [if_pos (isHead_of_type htype)] at h
  obtain ⟨_, hidle, h⟩ := bind_eq_ok.mp h
  obtain ⟨outport, hroute, h⟩ := bind_eq_ok.mp h
  obtain ⟨vnet, -, hroute⟩ := bind_eq_ok.mp hroute
  cases h
  exact ⟨require_eq_ok hidle, outport, _, lookupRoutingTable_reaches hroute, rfl, rfl, rfl⟩

theorem snd_of_mem_inputUnits {r : ℕ} {l : Link} (hl : l ∈ net.inputUnits r) :
    l.2 = net.switch r := by
  obtain ⟨i, -, rfl⟩ := List.mem_map.mp hl
  rfl

theorem inputUnit_keeps {rand r : ℕ} {l : Link} (hl : l ∈ net.inputUnits r)
    (h : InputUnit.wakeup net rand r l s = .ok s') : Keeps net s s' := by
  unfold InputUnit.wakeup at h
  split at h
  · cases h
    exact .of_eq rfl
  next f hready =>
  obtain ⟨⟨rest, hq⟩, htime⟩ := ready_eq_some hready
  obtain ⟨-, -, h⟩ := bind_eq_ok.mp h
  obtain ⟨vc, -, h⟩ := bind_eq_ok.mp h
  obtain ⟨t, ht, h⟩ := bind_eq_ok.mp h
  obtain ⟨-, -, h⟩ := bind_eq_ok.mp h
  cases h
  intro g hg
  have hf := hg.stored.fits _ f (hq ▸ List.mem_cons_self)
  obtain ⟨hidle, outport, v, hleads, hactive, hport, rfl⟩ := openVc_eq_ok hf.type ht
  refine ⟨rfl, g, { hg with stored := ?_, vcs := ?_, arrived := ?_ }⟩
  · exact hg.stored.move hq rfl fun hlies => ⟨(Nat.le_add_right _ _).trans hlies.2, htime⟩
  · intro c
    dsimp only [NetState.move, NetState.setVc]
    rcases eq_or_ne c (l, vc) with rfl | hc
    · rw [Function.update_self, Buffers.move_target (by simp), (hg.vcs _).idle hidle]
      refine ⟨fun h => (nomatch hactive.symm.trans h), fun x hx => ⟨outport, hport, ?_⟩⟩
      cases List.mem_singleton.mp hx
      exact (snd_of_mem_inputUnits hl).symm ▸ hleads
    · rw [Function.update_of_ne hc, Buffers.move_of_ne (by simp) (by simpa using hc)]
      exact hg.vcs c
  · refine hg.arrived_of_eq fun n => ?_
    dsimp only [NetState.move, NetState.setVc]
    rw [Buffers.move_of_ne (by simp) (by simp)]

namespace SwitchAllocator

/-- A virtual channel gets its output virtual channel, and nothing else changes. -/
theorem vcAllocate_eq_ok {l outputUnit : Link} {invc outvc : ℕ}
    (h : vcAllocate net l outputUnit invc s = .ok (outvc, s')) :
    { s' with vc := s.vc }.carried = s.carried ∧
      ∀ c, (s'.vc c).vcState = (s.vc c).vcState ∧ (s'.vc c).outputPort = (s.vc c).outputPort := by
  unfold vcAllocate at h
  split at h
  · cases h
    exact ⟨rfl, fun c => ⟨rfl, rfl⟩⟩
  · obtain ⟨vnet, -, h⟩ := bind_eq_ok.mp h
    unfold OutputUnit.selectFreeVc at h
    cases hfree : (OutputUnit.vcsOf net vnet).find? fun vc =>
        OutputUnit.isVcIdle s (outputUnit, vc) with
    | none =>
      rw [hfree] at h
      cases h
    | some vc =>
      rw [hfree] at h
      cases h
      refine ⟨rfl, fun c => ?_⟩
      dsimp only [NetState.setVc, NetState.setOutVc]
      rcases eq_or_ne c (l, invc) with rfl | hc
      · rw [Function.update_self]
        exact ⟨rfl, rfl⟩
      · rw [Function.update_of_ne hc]
        exact ⟨rfl, rfl⟩

/-- A flit leaves its virtual channel, which is empty then. -/
theorem freeVc_inv {g : History} (hg : s.Inv net g) {c : Channel} {f x : NetFlit}
    {rest : List NetFlit} (h : freeVc c f (s.move (.vc c) (.switch c.1) x) = .ok s')
    (hq : s.queue (.vc c) = f :: rest) (hport : (s.vc c).outputPort = some x.outport)
    (hx : x.label = f.label) (htime : x.enqueueTime = f.enqueueTime ∧ x.time = f.time) :
    s'.trace = s.trace ∧ s'.Inv net g ∧ ∀ d, d ≠ c → s'.vc d = s.vc d := by
  have hmem : f ∈ s.queue (.vc c) := hq ▸ List.mem_cons_self
  have hfits := hg.stored.fits _ f hmem
  unfold freeVc at h
  rw [if_pos (isTail_of_type hfits.type)] at h
  obtain ⟨_, hnone, h⟩ := bind_eq_ok.mp h
  cases h
  have hqueue : Buffers.move s.queue (.vc c) (.switch c.1) x (.vc c) = rest :=
    Buffers.move_source hq (by simp)
  -- What lies behind the flit would be ready.
  have hrest : rest = [] := by
    cases rest with
    | nil => rfl
    | cons y rest =>
      have hy := (hg.stored.fits (.vc c) y (by rw [hq]; simp)).lies.2
      have hready := require_eq_ok hnone
      unfold NetState.ready NetState.move at hready
      dsimp only at hready
      rw [hqueue, List.head?_cons, Option.filter_some, if_pos (decide_eq_true hy)] at hready
      cases hready
  refine ⟨rfl, { hg with stored := ?_, vcs := ?_, arrived := ?_ }, ?_⟩
  · refine hg.stored.move hq hx fun hlies => ⟨?_, ?_⟩
    · obtain ⟨outport, houtport, e, he, hreaches⟩ := (hg.vcs c).leads f hmem
      cases hport.symm.trans houtport
      exact ⟨e, he, NetworkParams.netDest_of_label hx ▸ hreaches⟩
    · rw [htime.1, htime.2]
      exact hlies
  · intro d
    dsimp only [NetState.move, NetState.setVc, NetState.sendCredit]
    rcases eq_or_ne d c with rfl | hd
    · rw [Function.update_self, hqueue, hrest]
      exact ⟨fun _ => rfl, fun _ h => absurd h List.not_mem_nil⟩
    · rw [Function.update_of_ne hd, Buffers.move_of_ne (by simpa using hd) (by simp)]
      exact hg.vcs d
  · refine hg.arrived_of_eq fun n => ?_
    dsimp only [NetState.move, NetState.setVc, NetState.sendCredit]
    rw [Buffers.move_of_ne (by simp) (by simp)]
  · exact fun d hd => Function.update_of_ne hd _ _

/-- A grant of a request for the port of a virtual channel changes no port of another input unit. -/
theorem grant_inv {g : History} (hg : s.Inv net g) {r inport outport invc : ℕ}
    (hport : ∀ l, (net.inputUnits r)[inport]? = some l →
      (s.vc (l, invc)).outputPort = some outport)
    (h : grant net r inport outport invc s = .ok s') :
    s'.trace = s.trace ∧ s'.Inv net g ∧ ∃ l, (net.inputUnits r)[inport]? = some l ∧
      ∀ c : Channel, c.1 ≠ l → (s'.vc c).outputPort = (s.vc c).outputPort := by
  obtain ⟨outputUnit, -, h⟩ := bind_eq_ok.mp h
  obtain ⟨l, hl, h⟩ := bind_eq_ok.mp h
  obtain ⟨⟨outvc, t⟩, ht, h⟩ := bind_eq_ok.mp h
  replace hl : (net.inputUnits r)[inport]? = some l := by
    unfold NetworkParams.getInputUnit at hl
    split at hl
    · next hl' =>
      cases hl
      exact hl'
    · cases hl
  obtain ⟨hsame, hvc⟩ := vcAllocate_eq_ok ht
  have hgs := hg.congr hsame
  have hgt : t.Inv net g := by
    refine { hgs with vcs := fun c => ⟨fun hidle => ?_, fun f hf => ?_⟩ }
    · exact (hgs.vcs c).idle ((hvc c).1.symm.trans hidle)
    · exact (hvc c).2 ▸ (hgs.vcs c).leads f hf
  dsimp only at h
  split at h
  · cases h
  next f rest hq =>
  obtain ⟨t', ht', h⟩ := bind_eq_ok.mp h
  obtain ⟨t'', ht'', h⟩ := bind_eq_ok.mp h
  cases h
  have hcredit := decrementCredit_carried ht'
  have hvc' : t'.vc = t.vc := congrArg (·.2.2.1) hcredit
  have hq' : t'.queue (.vc (l, invc)) = f :: rest :=
    (congrFun (congrArg (·.2.1) hcredit) _).trans hq
  obtain ⟨htrace, hinv, hother⟩ := freeVc_inv (hgt.congr hcredit) ht'' hq'
    (by rw [hvc', (hvc _).2]; exact hport l hl) rfl ⟨rfl, rfl⟩
  refine ⟨?_, hinv.congr rfl, l, hl, fun c hc => ?_⟩
  · exact htrace.trans ((congrArg (·.2.2.2.2.2.1) hcredit).trans (congrArg (·.2.2.2.2.2.1) hsame))
  · exact (congrArg _ (hother c fun hcl => hc (hcl ▸ rfl))).trans (hvc' ▸ (hvc c).2)

/-- The requests that are left are for the ports of their virtual channels. -/
structure Arbitrates (net : NetworkParams) (g : History) (r : ℕ) (trace : TraceState)
    (x : NetState × List (Option (ℕ × ℕ))) : Prop where
  trace : x.1.trace = trace
  inv : x.1.Inv net g
  requests : ∀ (i : ℕ) (l : Link) (w : ℕ × ℕ), (net.inputUnits r)[i]? = some l →
    x.2[i]? = some (some w) → (x.1.vc (l, w.2)).outputPort = some w.1

theorem arbitrateOutport_arbitrates {g : History} {r outport n inport : ℕ} {trace : TraceState}
    {x x' : NetState × List (Option (ℕ × ℕ))} (hx : Arbitrates net g r trace x)
    (h : arbitrateOutport net r outport n inport x = .ok x') : Arbitrates net g r trace x' := by
  induction n generalizing inport with
  | zero =>
    cases h
    exact hx
  | succ n ih =>
    unfold arbitrateOutport at h
    split at h
    · cases h
    · exact ih h
    · next w hw =>
      split_ifs at h with houtport
      · obtain ⟨s, hs, h⟩ := bind_eq_ok.mp h
        cases h
        obtain ⟨htrace, hinv, l, hl, hother⟩ := grant_inv hx.inv
          (fun l hl => (hx.requests inport l w hl hw).trans (congrArg some houtport)) hs
        refine ⟨htrace.trans hx.trace, hinv, fun i l' w' hl' hw' => ?_⟩
        have hne : i ≠ inport := by
          rintro rfl
          have hlt := (List.getElem?_eq_some_iff.mp hw).1
          rw [List.getElem?_set_self hlt] at hw'
          cases hw'
        rw [List.getElem?_set_ne hne.symm] at hw'
        have hlinks : l' ≠ l := by
          rintro rfl
          have hlt := (List.getElem?_eq_some_iff.mp hl').1
          exact hne ((List.getElem?_inj hlt (net.inputUnits_nodup r)).mp (hl'.trans hl.symm))
        exact (hother (l', w'.2) hlinks).trans (hx.requests i l' w' hl' hw')
      · exact ih h

theorem arbitrateInport_eq_ok {r n invc : ℕ} {l : Link} {w : ℕ × ℕ}
    (h : arbitrateInport net r l s n invc = .ok (some w)) :
    (s.vc (l, w.2)).outputPort = some w.1 := by
  induction n generalizing invc with
  | zero => cases h
  | succ n ih =>
    obtain ⟨outport, hrequest, h⟩ := bind_eq_ok.mp h
    cases outport with
    | none => exact ih h
    | some outport =>
      cases h
      obtain ⟨vc, hvc, hvcs⟩ := bind_eq_ok.mp hrequest
      obtain rfl : vc = invc := by
        unfold NetworkParams.vcIndex at hvc
        split_ifs at hvc
        cases hvc
        rfl
      obtain ⟨waiting, -, hvcs⟩ := bind_eq_ok.mp hvcs
      split_ifs at hvcs
      · split at hvcs
        · cases hvcs
        · next hport =>
          obtain ⟨allowed, -, hvcs⟩ := bind_eq_ok.mp hvcs
          split_ifs at hvcs
          · cases hvcs
            exact hport
          · cases hvcs
      · cases hvcs

theorem wakeup_keeps {r : ℕ} (h : SwitchAllocator.wakeup net r s = .ok s') : Keeps net s s' := by
  obtain ⟨requests, hrequests, h⟩ := bind_eq_ok.mp h
  obtain ⟨x, hx, h⟩ := bind_eq_ok.mp h
  cases h
  intro g hg
  have hstart : Arbitrates net g r s.trace (s, requests) := by
    refine ⟨rfl, hg, fun i l w hl hw => ?_⟩
    obtain ⟨w', hw', h⟩ := getElem?_mapM hrequests hl
    cases hw.symm.trans hw'
    exact arbitrateInport_eq_ok h
  have hend := foldlM_invariant (Arbitrates net g r s.trace) hx hstart
    fun e _ x x' hx h => arbitrateOutport_arbitrates hx h
  exact ⟨hend.trace, g, hend.inv⟩

end SwitchAllocator

theorem traverse_keeps {r : ℕ} {l : Link} (hl : l ∈ net.inputUnits r)
    (h : CrossbarSwitch.traverse net r s l = .ok s') : Keeps net s s' := by
  unfold CrossbarSwitch.traverse at h
  split at h
  · cases h
    exact .of_eq rfl
  next f hready =>
  obtain ⟨⟨rest, hq⟩, htime⟩ := ready_eq_some hready
  split_ifs at h
  · obtain ⟨u, hu, h⟩ := bind_eq_ok.mp h
    cases h
    refine .pass rfl hq rfl rfl rfl fun hlies => ⟨?_, ?_⟩
    · obtain ⟨e, he, hreaches⟩ := hlies.1
      rw [snd_of_mem_inputUnits hl] at he
      unfold NetworkParams.getOutputUnit NetworkParams.outputUnits at hu
      rw [List.getElem?_map, he] at hu
      cases hu
      exact .inr ⟨e, List.mem_of_getElem? he, rfl, hreaches⟩
    · have := hlies.2
      dsimp only [NetState.clockEdge]
      omega
  · cases h
    exact .of_eq rfl

theorem router_keeps {rand : Link → ℕ} {r : ℕ} (h : Router.wakeup net rand r s = .ok s') :
    Keeps net s s' := by
  obtain ⟨s₁, h₁, h⟩ := bind_eq_ok.mp h
  obtain ⟨s₂, h₂, h⟩ := bind_eq_ok.mp h
  obtain ⟨s₃, h₃, h⟩ := bind_eq_ok.mp h
  refine (Keeps.foldlM h₁ fun l hl _ _ => inputUnit_keeps hl).trans ?_
  refine (Keeps.foldlM h₂ fun l _ _ _ => consumeCredit_keeps).trans ?_
  exact (SwitchAllocator.wakeup_keeps h₃).trans (.foldlM h fun l hl _ _ => traverse_keeps hl)

/-! ## Packets and their flits -/

theorem flitPhases_append (records records' : List NetworkTraceRecord) :
    flitPhases (records ++ records') = flitPhases records + flitPhases records' := by
  unfold flitPhases
  rw [← Multiset.coe_add, Multiset.add_bind]

theorem card_flitPhases (trace : TraceState) :
    (flitPhases trace.enqueued).card = trace.numFlits := by
  unfold flitPhases TraceState.numFlits
  simp

theorem sum_flitPhases_update {nodes n : ℕ} (hn : n < nodes) (q : ℕ → List NetworkTraceRecord)
    (records : List NetworkTraceRecord) :
    ∑ m ∈ Finset.range nodes, flitPhases (Function.update q n records m) + flitPhases (q n) =
      ∑ m ∈ Finset.range nodes, flitPhases (q m) + flitPhases records := by
  have hmem := Finset.mem_range.mpr hn
  simp only [Function.apply_update fun _ => flitPhases]
  rw [Finset.sum_update_of_mem hmem, ← Finset.add_sum_erase _ _ hmem,
    Finset.sdiff_singleton_eq_erase]
  abel

/-- The flits that an interface takes in turn are those of its packets. -/
theorem coe_injectionQueue (records : List NetworkTraceRecord) :
    (injectionQueue records : Multiset PhaseKey) = flitPhases records := by
  unfold injectionQueue flitPhases
  simp only [bind_pure_comp, List.map_eq_map, List.flatMap_map, ← flatMap_ite_singleton,
    ← Multiset.coe_bind]
  rw [Multiset.bind_bind]
  refine Multiset.bind_congr fun r hr => ?_
  have hmax := le_foldl_max (·.numFlits) (Multiset.mem_coe.mp hr) (0 : ℤ)
  obtain ⟨d, hd⟩ := Nat.exists_eq_add_of_le (Int.toNat_le_toNat hmax)
  rw [Multiset.coe_bind, hd, flatMap_ite_singleton, List.range_add, List.filter_append,
    List.filter_eq_self.mpr, List.filter_eq_nil_iff.mpr, List.append_nil, List.map_const',
    List.length_range, Multiset.coe_replicate]
  · simp only [List.mem_map, decide_eq_true_eq]
    rintro _ ⟨i, -, rfl⟩
    omega
  · intro i hi
    have := List.mem_range.mp hi
    exact decide_eq_true (by omega)

/-- The interfaces share the packets. -/
theorem coe_injectedFlits {nodes : ℕ} {records : List NetworkTraceRecord}
    (h : ∀ r ∈ records, 0 ≤ r.srcId ∧ r.srcId < nodes) :
    (injectedFlits nodes records : Multiset PhaseKey) = flitPhases records := by
  have hsum : (injectedFlits nodes records : Multiset PhaseKey) =
      ∑ n ∈ Finset.range nodes, flitPhases (records.filter fun r => r.srcId = (n : ℤ)) := by
    unfold injectedFlits
    simp only [bind_pure_comp, List.map_eq_map, List.flatMap_map, ← Multiset.coe_bind,
      coe_injectionQueue]
    rfl
  rw [hsum]
  clear hsum
  induction records with
  | nil => exact Finset.sum_eq_zero fun _ _ => rfl
  | cons r records ih =>
    obtain ⟨hsrc, hlt⟩ := h r List.mem_cons_self
    have hupdate := sum_flitPhases_update (show r.srcId.toNat < nodes by omega)
      (fun n => records.filter fun r => r.srcId = (n : ℤ))
      ([r] ++ records.filter fun r' => r'.srcId = (r.srcId.toNat : ℤ))
    rw [flitPhases_append, ih fun r' hr' => h r' (List.mem_cons_of_mem r hr'), ← add_assoc,
      add_left_inj, add_comm, ← flitPhases_append] at hupdate
    rw [← List.singleton_append, ← hupdate]
    refine Finset.sum_congr rfl fun n _ => congrArg flitPhases ?_
    rw [Function.update_apply, List.singleton_append, List.filter_cons]
    split_ifs <;> simp_all

/-! ## Interfaces -/

/-- Flits with the next numbers. -/
structure Created (net : NetworkParams) (start : ℕ) (s : List Flit × ℕ) : Prop where
  ids : s.1.map Flit.packetId = List.range' start s.1.length
  next : s.2 = start + s.1.length
  flits : ∀ f ∈ s.1, f.type = .headTail ∧ f.route.netDest = net.netDest f.route.destNi

theorem Created.pushFlit {start curTick i : ℕ} {oPort : OutputPort} {s : List Flit × ℕ}
    {e : NetworkTraceRecord × RouteInfo} (h : Created net start s)
    (he : e.2.netDest = net.netDest e.2.destNi) :
    Created net start (pushFlit oPort curTick i s e) := by
  unfold Garnet.pushFlit
  split
  · refine ⟨?_, ?_, ?_⟩
    · rw [List.map_append, h.ids, List.length_append, List.length_singleton,
        List.range'_concat, List.map_singleton]
      simp only [one_mul, Flit.new, h.next]
    · simp only [List.length_append, List.length_singleton, h.next]
      omega
    · intro f hf
      rcases List.mem_append.mp hf with hf | hf
      · exact h.flits f hf
      · cases List.mem_singleton.mp hf
        exact ⟨rfl, he⟩
  · exact h

/-- What a transfer takes from the queue, and what it creates. -/
theorem transferReading_eq_ok {n start curTick : ℕ} {stale : NetworkTraceRecord}
    {records : List NetworkTraceRecord} {t : InjectionState}
    (h : transferReading (net.interface n) stale curTick ⟨records, [], start⟩ = .ok t) :
    Created net start (t.traceInjectionQueue, t.nextPacketId) ∧
      flitPhases records = (t.traceInjectionQueue.map Flit.phaseKey : Multiset PhaseKey) +
        flitPhases t.traceRecordQueue := by
  unfold transferReading at h
  cases records with
  | nil =>
    cases h
    exact ⟨⟨rfl, rfl, by simp⟩, rfl⟩
  | cons first rest =>
    dsimp only at h
    rw [drain_eq, List.nil_append] at h
    obtain ⟨oPort, -, h⟩ := bind_eq_ok.mp h
    obtain ⟨routes, hroutes, h⟩ := bind_eq_ok.mp h
    cases h
    constructor
    · have hroute := forall₂_mapM hroutes fun _ _ _ h => h
      unfold pushFlits
      refine List.foldlRecOn _ _ ⟨rfl, rfl, by simp⟩ fun s hs i _ => ?_
      refine List.foldlRecOn _ _ hs fun s hs e he => hs.pushFlit ?_
      obtain ⟨_, -, h⟩ := bind_eq_ok.mp (List.forall₂_zip hroute he)
      rw [← Except.ok.inj h]
      rfl
    · have hkeys := (pushFlits_appends curTick hroutes
        (maxNumFlits (leading first.time (first :: rest))) ([], start)).phaseKeys
      rw [turnsOf_phaseKeys, List.map_nil, List.nil_append] at hkeys
      have hqueue : leading first.time (first :: rest) ++ following first.time (first :: rest) =
          first :: rest := List.takeWhile_append_dropWhile
      dsimp only
      rw [hkeys, coe_injectionQueue, ← flitPhases_append, hqueue]

theorem NetworkParams.Stored.extend {phases phases' : ℕ → PhaseKey} {now next n : ℕ}
    {q : Place → List NetFlit} (h : net.Stored phases now next q) {l : List NetFlit}
    (hids : l.map (fun f => f.packetId) = List.range' next l.length)
    (hphases : ∀ i < next, phases' i = phases i)
    (hl : ∀ f ∈ l, net.Fits phases' now (.injection n) f) :
    net.Stored phases' now (next + l.length) (Buffers.extend q (.injection n) l) := by
  have hid : ∀ i, i ∈ l.map (fun f => f.packetId) ↔ next ≤ i ∧ i < next + l.length := by
    intro i
    rw [hids, List.mem_range'_1]
  have hnew := fun f hf => (hid _).mp (List.mem_map_of_mem (a := f) hf)
  refine ⟨h.unique.extend (hids ▸ List.nodup_range') (fun x hx b y hy => ?_) _, fun p f hf => ?_,
    fun p f hf => ?_, fun i hi => ?_⟩
  · have := h.fresh b y hy
    have := hnew x hx
    omega
  · rcases Buffers.mem_extend.mp hf with hf | ⟨-, hf⟩
    · exact (h.fresh p f hf).trans_le (Nat.le_add_right _ _)
    · exact (hnew f hf).2
  · rcases Buffers.mem_extend.mp hf with hold | ⟨rfl, hnew⟩
    · obtain ⟨htype, hphase, hdest, hlies⟩ := h.fits p f hold
      exact ⟨htype, (hphases _ (h.fresh p f hold)).trans hphase, hdest, hlies⟩
    · exact hl f hnew
  · by_cases hlt : i < next
    · obtain ⟨p, f, hf, hfi⟩ := h.present i hlt
      exact ⟨p, f, Buffers.mem_extend.mpr (.inl hf), hfi⟩
    · obtain ⟨f, hf, hfi⟩ := List.mem_map.mp ((hid i).mpr ⟨not_lt.mp hlt, hi⟩)
      exact ⟨_, f, Buffers.mem_extend.mpr (.inr ⟨rfl, hf⟩), hfi⟩

theorem transfer_keeps {n : ℕ} {stale : NetworkTraceRecord} (hn : n < net.nodes)
    (h : NetworkInterface.transfer net n stale s = .ok s') : Keeps net s s' := by
  unfold NetworkInterface.transfer at h
  split_ifs at h
  swap
  · cases h
    exact .of_eq rfl
  split at h
  · cases h
  next t ht =>
  cases h
  intro g hg
  obtain ⟨⟨hids, hnext, hflits⟩, hrecords⟩ := transferReading_eq_ok ht
  dsimp only at hids hnext hflits
  generalize t.traceInjectionQueue = flits at *
  -- The phases of the new numbers.
  obtain ⟨phases, hphases⟩ : ∃ phases : ℕ → PhaseKey, phases = fun i =>
      if i < s.nextPacketId then g.phases i
      else (flits.map Flit.phaseKey).getD (i - s.nextPacketId) (g.phases i) := ⟨_, rfl⟩
  have hold : ∀ i < s.nextPacketId, phases i = g.phases i := by
    intro i hi
    rw [hphases]
    exact if_pos hi
  have hrange : (List.range t.nextPacketId).map phases =
      (List.range s.nextPacketId).map g.phases ++ flits.map Flit.phaseKey := by
    rw [hnext, List.range_add, List.map_append, List.map_map]
    congr 1
    · exact List.map_congr_left fun i hi => hold i (List.mem_range.mp hi)
    · refine List.ext_getElem (by simp) fun i hi _ => ?_
      simp [hphases, show i < flits.length by simpa using hi]
  refine ⟨rfl, ⟨phases, g.arrived⟩, { hg with
    stored := ?_, vcs := ?_, arrived := ?_, injected := ?_, arrivals := ?_ }⟩
  · have hlength : t.nextPacketId = s.nextPacketId + (flits.map NetFlit.ofFlit).length := by
      rw [hnext, List.length_map]
    dsimp only
    rw [hlength]
    refine hg.stored.extend ?_ hold fun x hx => ?_
    · rw [List.map_map, List.length_map]
      exact hids
    · obtain ⟨f, hf, rfl⟩ := List.mem_map.mp hx
      refine ⟨(hflits f hf).1, ?_, (hflits f hf).2, trivial⟩
      obtain ⟨i, hi, rfl⟩ := List.getElem_of_mem hf
      have hid : flits[i].packetId = s.nextPacketId + i := by
        simpa [hi] using congrArg (·[i]?) hids
      simp [hphases, NetFlit.ofFlit, hid, hi]
  · intro c
    dsimp only
    rw [Buffers.extend_of_ne (by simp)]
    exact hg.vcs c
  · refine hg.arrived_of_eq fun m => ?_
    dsimp only
    rw [Buffers.extend_of_ne (by simp)]
  · dsimp only
    have hsum := sum_flitPhases_update hn s.traceRecordQueue t.traceRecordQueue
    rw [hrecords, ← add_assoc, add_left_inj] at hsum
    rw [hrange, ← hg.injected, ← hsum, ← Multiset.coe_add]
    abel
  · rw [hg.arrivals]
    refine List.map_congr_left fun i hi => (hold i ?_).symm
    obtain ⟨m, f, hf, rfl⟩ := (hg.arrived i).mp hi
    exact hg.stored.fresh _ f hf

theorem inject_keeps {n : ℕ} (hn : n < net.nodes) (h : NetworkInterface.inject net n s = .ok s') :
    Keeps net s s' := by
  unfold NetworkInterface.inject at h
  split at h
  · cases h
    exact .of_eq rfl
  next f rest hq =>
  obtain ⟨vnet, -, h⟩ := bind_eq_ok.mp h
  obtain ⟨⟨vc, t⟩, hvc, h⟩ := bind_eq_ok.mp h
  obtain ⟨ni, rfl⟩ : ∃ ni, t = s.setNi n ni := by
    obtain ⟨⟨vc', delta⟩, -, hvc⟩ := bind_eq_ok.mp hvc
    dsimp only at hvc
    generalize (if vc'.isSome = true then _ else _) = busy at hvc
    split_ifs at hvc
    cases hvc
    exact ⟨_, rfl⟩
  cases vc with
  | none =>
    cases h
    exact .of_eq rfl
  | some vc =>
    cases h
    exact .pass rfl hq rfl rfl rfl fun _ => ⟨hn, le_rfl⟩

theorem scheduleOutputPort_keeps {n i vc : ℕ} (hn : n < net.nodes)
    (h : NetworkInterface.scheduleOutputPort net n s i vc = .ok s') : Keeps net s s' := by
  induction i generalizing vc with
  | zero =>
    cases h
    exact .of_eq rfl
  | succ i ih =>
    unfold NetworkInterface.scheduleOutputPort at h
    dsimp only at h
    generalize (if vc + 1 = net.numVcs then 0 else vc + 1) = vc' at h
    by_cases hvc : net.numVcs ≤ vc'
    · rw [if_pos hvc] at h
      cases h
    rw [if_neg hvc] at h
    split at h
    · exact ih h
    next f hready =>
    obtain ⟨⟨rest, hq⟩, htime⟩ := ready_eq_some hready
    split_ifs at h
    · obtain ⟨t, ht, h⟩ := bind_eq_ok.mp h
      obtain ⟨o, -, ht⟩ := bind_eq_ok.mp ht
      cases ht
      cases h
      refine .pass rfl hq rfl rfl rfl fun hlies => ⟨.inl hn, ?_⟩
      have := hlies.2
      dsimp only [NetState.clockEdge, NetState.setOutVc]
      omega
    · exact ih h

/-- The flits that have been counted have numbers. -/
theorem NetState.Inv.subset_range {g : History} (hg : s.Inv net g) :
    g.arrived ⊆ List.range s.nextPacketId := by
  intro i hi
  obtain ⟨n, f, hf, rfl⟩ := (hg.arrived i).mp hi
  exact List.mem_range.mpr (hg.stored.fresh _ f hf)

/-- The flits of the trace are those with numbers and those that wait. -/
theorem NetState.Inv.numFlits_eq {g : History} (hg : s.Inv net g) :
    s.trace.numFlits = s.nextPacketId +
      (∑ n ∈ Finset.range net.nodes, flitPhases (s.traceRecordQueue n)).card := by
  have hcard := congrArg Multiset.card hg.injected
  rw [card_flitPhases, Multiset.card_add, Multiset.coe_card, List.length_map,
    List.length_range] at hcard
  exact hcard.symm

/-- A flit is received at an interface, counted, and was on its way before. -/
theorem NetState.Inv.receive {g : History} (hg : s.Inv net g) {n : ℕ} {f : NetFlit}
    {rest : List NetFlit} (hq : s.queue (.link (net.inLink n)) = f :: rest) {trace : TraceState}
    (htrace : trace = { s.trace.incrementTraceFlitsReceived net.maxPackets with
      delivered := s.trace.delivered + 1 }) {delay : ℕ}
    (hdelay : net.linkLatency (net.inLink n) * net.period ≤ delay) :
    s.trace.delivered < s.trace.numFlits ∧
      { s.move (.link (net.inLink n)) (.received n) { f with dequeueTime := s.curTick } with
        trace := trace, arrivals := s.arrivals ++ [(f.phaseKey, delay)] }.Inv net
          { g with arrived := g.arrived ++ [f.packetId] } := by
  subst htrace
  have hf : f ∈ s.queue (.link (net.inLink n)) := hq ▸ List.mem_cons_self
  have hnew : f.packetId ∉ g.arrived := by
    intro hmem
    obtain ⟨m, y, hy, hyf⟩ := (hg.arrived _).mp hmem
    cases hg.stored.unique.place hy hf hyf
  have hnodup : (g.arrived ++ [f.packetId]).Nodup := by
    rw [← List.concat_eq_append]
    exact hg.nodup.concat hnew
  refine ⟨?_, { hg with
    stored := hg.stored.move hq rfl fun hlies => hlies.1
    vcs := fun c => ?_, arrived := fun i => ?_, nodup := hnodup, delivered := ?_, arrivals := ?_
    latency := ?_ }⟩
  · have hsubset : g.arrived ++ [f.packetId] ⊆ List.range s.nextPacketId :=
      List.append_subset.mpr ⟨hg.subset_range, by simpa using hg.stored.fresh _ f hf⟩
    have hlength := (hnodup.subperm hsubset).length_le
    have := hg.numFlits_eq
    rw [List.length_append, List.length_singleton, List.length_range, hg.delivered] at hlength
    omega
  · dsimp only [NetState.move]
    rw [Buffers.move_of_ne (by simp) (by simp)]
    exact hg.vcs c
  · simp only [NetState.move, Buffers.mem_move hg.stored.unique hq, List.mem_append,
      List.mem_singleton, hg.arrived]
    constructor
    · rintro (⟨m, y, hy, rfl⟩ | rfl)
      · refine ⟨m, y, .inr ⟨hy, fun hyf => ?_⟩, rfl⟩
        cases hg.stored.unique.place hy hf hyf
      · exact ⟨n, _, .inl ⟨rfl, rfl⟩, rfl⟩
    · rintro ⟨m, y, ⟨-, rfl⟩ | ⟨hy, -⟩, rfl⟩
      · exact .inr rfl
      · exact .inl ⟨m, y, hy, rfl⟩
  · simp [hg.delivered]
  · simp [hg.arrivals, (hg.stored.fits _ f hf).phase]
  · intro a ha
    rcases List.mem_append.mp ha with ha | ha
    · exact hg.latency a ha
    · cases List.mem_singleton.mp ha
      exact ⟨n, hdelay⟩

/-- An action is nothing to the reader of the trace, or one of its steps. -/
def Advances (net : NetworkParams) (s s' : NetState) : Prop :=
  ∀ g, s.Inv net g → s.trace.exited = false →
    TraceState.Run net.nodes net.maxPackets s.trace s'.trace ∧ ∃ g', s'.Inv net g'

theorem Keeps.advances (h : Keeps net s s') : Advances net s s' := by
  intro g hg _
  obtain ⟨htrace, hg'⟩ := h g hg
  exact ⟨htrace ▸ .refl, hg'⟩

theorem consumeFlit_advances {n : ℕ} {slots : ℤ → Bool}
    (h : NetworkInterface.consumeFlit net n slots s = .ok s') : Advances net s s' := by
  unfold NetworkInterface.consumeFlit at h
  split at h
  · cases h
    exact (Keeps.of_eq rfl).advances
  next f hready =>
  obtain ⟨⟨rest, hq⟩, htime⟩ := ready_eq_some hready
  obtain ⟨-, -, h⟩ := bind_eq_ok.mp h
  intro g hg hexited
  obtain ⟨htype, -, -, -, hlies⟩ := hg.stored.fits _ f (hq ▸ List.mem_cons_self)
  dsimp only at h
  rw [if_pos (isTail_of_type (f := { f with dequeueTime := s.curTick }) htype)] at h
  obtain ⟨-, -, h⟩ := bind_eq_ok.mp h
  split_ifs at h
  · unfold NetworkInterface.incrementStats at h
    dsimp only at h
    rw [if_pos (.inl htype)] at h
    cases h
    have hdelay : net.linkLatency (net.inLink n) * net.period ≤ s.curTick - f.enqueueTime -
        net.period + (f.srcDelay + (s.curTick - s.curTick)) := by omega
    obtain ⟨hflit, hinv⟩ := hg.receive hq rfl hdelay
    exact ⟨.single (.deliver hexited hflit), _, hinv.congr rfl⟩
  · cases h
    refine Keeps.advances (.pass (b := .stall n) rfl hq rfl rfl rfl ?_) g hg hexited
    exact fun hlies => hlies.1

theorem interface_advances {n : ℕ} {stale : NetworkTraceRecord} {slots : ℤ → Bool}
    (hn : n < net.nodes) (h : NetworkInterface.wakeup net n stale slots s = .ok s') :
    Advances net s s' := by
  obtain ⟨s₁, h₁, h⟩ := bind_eq_ok.mp h
  obtain ⟨s₂, h₂, h⟩ := bind_eq_ok.mp h
  obtain ⟨s₃, h₃, h⟩ := bind_eq_ok.mp h
  obtain ⟨s₄, h₄, h⟩ := bind_eq_ok.mp h
  obtain ⟨s₅, h₅, h₆⟩ := bind_eq_ok.mp h
  have hstall : s₄ = s₃ := by
    unfold NetworkInterface.checkStallQueue at h₄
    split_ifs at h₄
    exact (Except.ok.inj h₄).symm
  subst hstall
  intro g hg hexited
  have hfirst := ((transfer_keeps hn h₁).trans (inject_keeps hn h₂)).trans
    (scheduleOutputPort_keeps hn h₃)
  obtain ⟨htrace, g₁, hg₁⟩ := hfirst g hg
  obtain ⟨hrun, g₂, hg₂⟩ := consumeFlit_advances h₅ g₁ hg₁ (htrace ▸ hexited)
  obtain ⟨htrace', hg₃⟩ := consumeCredit_keeps h₆ g₂ hg₂
  rw [htrace, ← htrace'] at hrun
  exact ⟨hrun, hg₃⟩

/-! ## The trace -/

theorem network_advances (hdue : s.trace.wakeupDue = true)
    (h : GarnetNetwork.wakeup net s = .ok s') : Advances net s s' := by
  intro g hg hexited
  unfold GarnetNetwork.wakeup at h
  split at h
  · cases h
  next trace hcall =>
  obtain ⟨henqueued, -, -⟩ := wakeupCall_spec hcall
  have hdelivered : trace.delivered = s.trace.delivered := by
    unfold TraceState.wakeupCall at hcall
    dsimp only at hcall
    split at hcall
    · cases hcall
      rfl
    · split at hcall
      · cases hcall
        rfl
      · split at hcall <;> cases hcall
        rfl
  have hrun := Relation.ReflTransGen.single (TraceState.Step.wakeup hexited hdue hcall)
  split at h
  · next hnext =>
    cases h
    rw [hnext, Option.toList_none, List.append_nil] at henqueued
    exact ⟨hrun, g, { hg with
      sources := henqueued ▸ hg.sources
      injected := henqueued ▸ hg.injected
      delivered := hdelivered ▸ hg.delivered }⟩
  · next r hnext =>
    rw [hnext, Option.toList_some] at henqueued
    obtain ⟨t, ht, h⟩ := bind_eq_ok.mp h
    cases h
    unfold NetworkInterface.enqueueTracePacket at ht
    split_ifs at ht with hsrc
    cases ht
    refine ⟨hrun, g, { hg with
      sources := ?_, injected := ?_, delivered := hdelivered ▸ hg.delivered }⟩
    · dsimp only
      rw [henqueued, List.forall_mem_append]
      exact ⟨hg.sources, by simpa using hsrc⟩
    · have hsum := sum_flitPhases_update (show r.srcId.toNat < net.nodes by omega)
        s.traceRecordQueue (s.traceRecordQueue r.srcId.toNat ++ [r])
      rw [flitPhases_append, add_comm (flitPhases _) (flitPhases [r]), ← add_assoc,
        add_left_inj] at hsum
      dsimp only
      rw [henqueued, hsum, ← add_assoc, hg.injected, flitPhases_append]

/-! ## Runs -/

/-- Some actions, in any order. -/
def Reaches (net : NetworkParams) : NetState → NetState → Prop :=
  Relation.ReflTransGen fun s s' => ∃ a, step net s a = .ok s'

theorem perform_advances {a : Action} (h : perform net s a = .ok s') : Advances net s s' := by
  cases a with
  | cycle =>
    cases h
    intro g hg _
    exact ⟨.refl, g, { hg with stored := hg.stored.mono (Nat.le_add_right _ _) }⟩
  | network =>
    dsimp only [perform] at h
    split_ifs at h with hdue
    · exact network_advances hdue h
    · cases h
      exact (Keeps.of_eq rfl).advances
  | interface n stale slots =>
    dsimp only [perform] at h
    split_ifs at h with hn
    · exact interface_advances hn h
    · cases h
      exact (Keeps.of_eq rfl).advances
  | router r rand => exact (router_keeps h).advances
  | outputUnit l => exact (consumeCredit_keeps h).advances
  | link l => exact (networkLink_keeps h).advances
  | creditLink l => exact (creditLink_keeps h).advances

theorem inv_init (net : NetworkParams) (file : List Char) :
    (net.init file).Inv net ⟨fun _ => (0, 0, 0), []⟩ where
  stored := ⟨⟨fun _ => .nil, fun h => absurd h List.not_mem_nil⟩,
    fun _ _ h => absurd h List.not_mem_nil, fun _ _ h => absurd h List.not_mem_nil,
    fun _ h => absurd h (Nat.not_lt_zero _)⟩
  vcs c := ⟨fun _ => rfl, fun _ h => absurd h List.not_mem_nil⟩
  arrived i := by simp [NetworkParams.init]
  nodup := .nil
  sources _ h := absurd h List.not_mem_nil
  injected := by simp [NetworkParams.init, flitPhases, TraceState.start]
  delivered := rfl
  arrivals := rfl
  latency _ h := absurd h List.not_mem_nil

/-- Every run of the network is a run of the reader of its trace, and keeps the invariant. -/
theorem Reaches.inv {file : List Char} (h : Reaches net (net.init file) s) :
    TraceState.Run net.nodes net.maxPackets (.start file) s.trace ∧ ∃ g, s.Inv net g := by
  induction h with
  | refl => exact ⟨.refl, _, inv_init net file⟩
  | tail _ hstep ih =>
    obtain ⟨hrun, g, hg⟩ := ih
    obtain ⟨a, ha⟩ := hstep
    unfold step at ha
    split_ifs at ha with hexited
    · cases ha
      exact ⟨hrun, g, hg⟩
    · obtain ⟨hrun', hg'⟩ := perform_advances ha g hg (Bool.eq_false_iff.mpr hexited)
      exact ⟨hrun.trans hrun', hg'⟩

theorem reaches_of_foldlM {actions : List Action} (h : actions.foldlM (step net) s = .ok s') :
    Reaches net s s' :=
  foldlM_invariant (Reaches net s) h .refl fun a _ _ _ ht hstep => ht.tail ⟨a, hstep⟩

/-- The network of the command, over these routes. -/
def squareNet : NetworkParams where
  nodes := 8
  machineTypeNum := 2
  baseCount := fun _ => 4
  sources := fun i => (List.range 20).filter fun j => squareRouting.RealLink j i
  table := squareTable
  niRouter := fun n => n % 4
  virtualNetworks := 1
  vcPerVnet := 4
  buffersPerVc := fun _ => 1
  ordered := fun _ => false
  period := 1
  linkLatency := fun _ => 1
  pipeStages := fun _ => 1
  bitWidth := 128
  deadlockThreshold := 100
  maxPackets := 2
  sources_nodup := fun _ => List.nodup_range.filter _

/-- One flit of the second chiplet and two of the fourth one. -/
def squareTraffic : List SimulatorInput :=
  [([[0, 0, 0, 0], [0, 0, 1, 0], [0, 0, 0, 0], [2, 0, 0, 0]], 0, 0, 0)]

/-- The flits go to the first interface, over two and three routers. -/
def squareActions : List Action :=
  let interface n := .interface n ⟨0, 0, 0, 0, 0, 0, 0, 0, 0, 0⟩ fun _ => true
  let router r := .router r fun _ => 0
  [.network, .network, .network, interface 1, interface 3, .cycle,
    .link (1, 17), .link (3, 19), interface 3, .cycle, router 1, router 3, .link (3, 19), .cycle,
    .link (17, 16), .link (19, 18), router 3, .cycle, router 0, router 2, .link (19, 18), .cycle,
    .link (16, 8), .link (18, 16), router 2, .cycle, interface 0, router 0, .link (18, 16), .cycle,
    .link (16, 8), router 0, .cycle, interface 0, .link (16, 8), .cycle, interface 0]

theorem exists_run_square : ∃ file s, prepareGarnetTrafficFiles squareTraffic = some file ∧
    Reaches squareNet (squareNet.init file) s ∧ s.trace.exited = true ∧
      s.nextPacketId = 3 ∧ (s.queue (.received 0)).map (·.packetId) = [0, 1, 2] := by
  obtain ⟨file, hfile⟩ : ∃ file, prepareGarnetTrafficFiles squareTraffic = some file := ⟨_, rfl⟩
  have hrun : (prepareGarnetTrafficFiles squareTraffic).bind (fun file =>
      ((squareActions.foldlM (step squareNet) (squareNet.init file)).toOption.map
        fun s => (s.trace.exited, s.nextPacketId, (s.queue (.received 0)).map (·.packetId)))) =
          some (true, 3, [0, 1, 2]) := by
    decide +kernel
  rw [hfile, Option.bind_some] at hrun
  obtain ⟨s, hs, hend⟩ := Option.map_eq_some_iff.mp hrun
  obtain ⟨hexited, hend⟩ := Prod.mk.inj hend
  obtain ⟨hnext, hreceived⟩ := Prod.mk.inj hend
  exact ⟨file, s, hfile, reaches_of_foldlM (toOption_eq_some.mp hs), hexited, hnext, hreceived⟩

/-- **No flit is lost or doubled.** After any actions in any order, every flit that has got a number
lies in one place, once; the others wait at the interfaces; and those that have been received are
as many as have been counted. -/
theorem flits_conserved {file : List Char} (h : Reaches net (net.init file) s) :
    (∀ i < s.nextPacketId, ∃! p, ∃ f ∈ s.queue p, f.packetId = i) ∧
      (∀ p, ((s.queue p).map fun f => f.packetId).Nodup) ∧
      s.trace.numFlits = s.nextPacketId +
        (∑ n ∈ Finset.range net.nodes, flitPhases (s.traceRecordQueue n)).card ∧
      ∃ ids : List ℕ, ids.Nodup ∧ ids.length = s.trace.delivered ∧
        s.arrivals.length = s.trace.delivered ∧
          ∀ i, i ∈ ids ↔ ∃ n, ∃ f ∈ s.queue (.received n), f.packetId = i := by
  obtain ⟨-, g, hg⟩ := h.inv
  refine ⟨fun i hi => ?_, hg.stored.unique.nodup, hg.numFlits_eq, g.arrived, hg.nodup, hg.delivered,
    ?_, hg.arrived⟩
  · obtain ⟨p, f, hf, rfl⟩ := hg.stored.present i hi
    exact ⟨p, ⟨f, hf, rfl⟩, fun p' ⟨f', hf', hid⟩ => hg.stored.unique.place hf' hf hid⟩
  · have hlength := congrArg List.length hg.arrivals
    rw [List.length_map, List.length_map] at hlength
    exact hlength.trans hg.delivered

theorem flits_conserved_squareMesh : ∃ file s, Reaches squareNet (squareNet.init file) s ∧
    s.nextPacketId = 3 ∧ ∀ i < 3, ∃! p, ∃ f ∈ s.queue p, f.packetId = i := by
  obtain ⟨file, s, -, hrun, -, hnext, -⟩ := exists_run_square
  exact ⟨file, s, hrun, hnext, hnext ▸ (flits_conserved hrun).1⟩

/-- When all flits of the trace have been counted, each one has been counted for its phase. -/
theorem NetState.Inv.delivers {g : History} (hg : s.Inv net g)
    (hall : s.trace.delivered = s.trace.numFlits) (hperiod : 0 < net.period)
    (hlatency : ∀ l, 0 < net.linkLatency l) :
    Delivers (injectedFlits net.nodes s.trace.enqueued) s.arrivals := by
  have hsubperm := hg.nodup.subperm hg.subset_range
  have hle := hsubperm.length_le
  have hnumFlits := hg.numFlits_eq
  have hdelivered := hg.delivered
  rw [List.length_range] at hle
  have hperm : g.arrived.Perm (List.range s.nextPacketId) :=
    hsubperm.perm_of_length_le (by rw [List.length_range]; omega)
  have hnone : ∑ n ∈ Finset.range net.nodes, flitPhases (s.traceRecordQueue n) = 0 :=
    Multiset.card_eq_zero.mp (by omega)
  have hinjected := hg.injected
  rw [hnone, add_zero, ← coe_injectedFlits hg.sources] at hinjected
  refine ⟨?_, fun a ha => ?_⟩
  · rw [hg.arrivals]
    exact (hperm.map _).trans (Multiset.coe_eq_coe.mp hinjected)
  · obtain ⟨n, hn⟩ := hg.latency a ha
    exact (Nat.mul_pos (hlatency _) hperiod).trans_le hn

theorem numFlits_expected (numNis : ℕ) {inputs : List SimulatorInput}
    (hflits : totalPackets inputs < 2 ^ 31) :
    ((expected numNis (trafficData inputs)).map (·.numFlits.toNat)).sum = totalPackets inputs := by
  rw [← sum_flits_trafficData] at hflits ⊢
  unfold expected
  rw [List.map_map]
  congr 1
  refine List.map_congr_left fun e he => ?_
  have hle : e.flits ≤ ((trafficData inputs).map (·.flits)).sum :=
    List.le_sum_of_mem (List.mem_map_of_mem he)
  have hcInt : (rowPacket e).numFlits = e.flits := cInt_of_lt (by omega)
  simp only [Function.comp_apply, numFlits_remap, hcInt, Int.toNat_natCast]

/-- **The network delivers.** When the simulation of a trace of the simulator ends, however the
objects of the network have been scheduled, every flit of every row has been received, and its
latency is positive and counted for the phase of its row. -/
theorem network_delivers {n : ℕ} {inputs : List SimulatorInput} {file : List Char}
    (hfile : prepareGarnetTrafficFiles inputs = some file)
    (hrows : ∀ e ∈ trafficData inputs, (garnetRow e).toList.length < 99)
    (hflits : totalPackets inputs < 2 ^ 31) (hnodes : net.nodes = 2 * n)
    (hmax : net.maxPackets = totalPackets inputs - 1) (hperiod : 0 < net.period)
    (hlatency : ∀ l, 0 < net.linkLatency l) (hrun : Reaches net (net.init file) s)
    (hexited : s.trace.exited = true) :
    Delivers (injectedFlits (2 * n) (expected (2 * n) (trafficData inputs))) s.arrivals := by
  obtain ⟨htrace, g, hg⟩ := hrun.inv
  rw [prepareGarnetTrafficFiles_eq_some hfile] at htrace
  have htotal := length_trafficData_le inputs
  obtain ⟨-, hexit⟩ := (tracing_start (trafficData inputs)).run rfl hrows (by omega) htrace
  obtain ⟨henqueued, hdelivered⟩ := hexit hexited
  rw [sum_numFlits_expected _ hflits] at hdelivered
  rw [← hnodes, ← henqueued]
  refine hg.delivers ?_ hperiod hlatency
  rw [TraceState.numFlits, henqueued, numFlits_expected _ hflits]
  exact Int.ofNat.inj hdelivered

theorem network_delivers_squareMesh :
    ∃ file s, prepareGarnetTrafficFiles squareTraffic = some file ∧
      Reaches squareNet (squareNet.init file) s ∧ s.trace.exited = true ∧
        Delivers (injectedFlits 8 (expected 8 (trafficData squareTraffic))) s.arrivals := by
  obtain ⟨file, s, hfile, hrun, hexited, -⟩ := exists_run_square
  exact ⟨file, s, hfile, hrun, hexited, network_delivers (n := 4) hfile (by decide +kernel)
    (by decide) rfl (by decide) Nat.one_pos (fun _ => Nat.one_pos) hrun hexited⟩

/-! ## Destinations -/

/-- The machine of a destination is the one at its place among the interfaces. -/
theorem getElem?_machines_of_netDest {routing : Routing}
    (htypes : net.machineTypeNum = routing.machineTypeNum)
    (hcount : net.baseCount = routing.baseCount) {dest : ℤ} {machine : ℕ × ℤ}
    (h : net.netDest dest = some machine) :
    0 ≤ dest ∧ routing.machines[dest.toNat]? = some machine := by
  obtain ⟨m, hm, rfl⟩ := Option.map_eq_some_iff.mp h
  have hlt := List.mem_range.mp (List.mem_of_find?_eq_some hm)
  have hfound := List.find?_some hm
  have hbounds := of_decide_eq_true hfound
  dsimp only [NetworkParams.interface] at hbounds hlt ⊢
  rw [List.range_succ, List.map_append, List.sum_append, hcount] at hbounds
  rw [htypes] at hlt
  rw [hcount]
  generalize hsum : ((List.range m).map routing.baseCount).sum = sum at hbounds ⊢
  simp only [List.map_singleton, List.sum_singleton, Nat.cast_add] at hbounds
  obtain ⟨i, rfl⟩ : ∃ i : ℕ, dest = (sum + i : ℕ) := ⟨(dest - sum).toNat, by omega⟩
  have hplace := Routing.getElem?_machines hlt (i := i) (by omega)
  rw [hsum] at hplace
  refine ⟨by omega, ?_⟩
  rw [Int.toNat_natCast, hplace]
  simp

/-- **Flits arrive where they are for.** In the topology of the command, whatever the order of the
actions and the random numbers, an interface receives only flits whose destination it is. -/
theorem received_at_destination {numChiplets linkLatency machineTypeNum nodes : ℕ}
    {baseCount : ℕ → ℕ} {topology : TopologyFile} {t : Topology}
    (ht : makeTopology (commandOptions numChiplets linkLatency) nodes topology = .ok t)
    (hnodes : ((List.range machineTypeNum).map baseCount).sum = nodes) (htwo : 1 < nodes) :
    ∃ routing, t.createLinks machineTypeNum baseCount = .ok routing ∧
      ∀ (net : NetworkParams) (file : List Char) (s : NetState), net.nodes = nodes →
        net.machineTypeNum = machineTypeNum → net.baseCount = baseCount →
        net.table = routing.table → Reaches net (net.init file) s →
          ∀ n < nodes, ∀ f ∈ s.queue (.received n), f.route.destNi = n := by
  obtain ⟨numCols, routing, -, -, hrouting, hlength, hmade⟩ := createLinks_made ht hnodes htwo
  refine ⟨routing, hrouting, fun net file s hnet htypes hcount htable hrun n hn f hf => ?_⟩
  obtain ⟨-, g, hg⟩ := hrun.inv
  obtain ⟨-, -, hdest, hlies⟩ := hg.stored.fits _ f hf
  obtain ⟨htypes', hcount'⟩ :
      routing.machineTypeNum = machineTypeNum ∧ routing.baseCount = baseCount := by
    unfold Topology.createLinks at hrouting
    dsimp only at hrouting
    rw [if_neg (by omega)] at hrouting
    obtain ⟨weights, -, hrouting⟩ := bind_eq_ok.mp hrouting
    cases hrouting
    exact ⟨rfl, rfl⟩
  -- The last link comes from a router, and leads to the machine of the flit.
  rcases hlies with hlt | ⟨e, he, hn', hreaches⟩
  · have : net.nodes ≤ (net.inLink n).1 := by
      dsimp only [NetworkParams.inLink, NetworkParams.switch]
      omega
    omega
  rw [htable] at he
  obtain ⟨j, hj, hreal, rfl⟩ := Routing.mem_table.mp he
  subst hlength
  obtain rfl : j = routing.receiver n := hn'.trans (congrArg (n + ·) hnet)
  cases hmachine : net.netDest f.route.destNi with
  | none =>
    rw [hdest, hmachine] at hreaches
    simp [OutputLink.reaches] at hreaches
  | some machine =>
    obtain ⟨hnonneg, hplace⟩ := getElem?_machines_of_netDest (htypes.trans htypes'.symm)
      (hcount.trans hcount'.symm) hmachine
    have hd := (List.getElem?_eq_some_iff.mp hplace).1
    rw [hdest, hmachine, ← hplace, Routing.reaches_iff hd] at hreaches
    have := hmade.eq_of_approaches hn hd ⟨hj, hreal, hreaches⟩
    omega

theorem received_at_destination_squareMesh : ∃ t file s,
    makeTopology (commandOptions (2 * 2) 1) 8 squareMesh = .ok t ∧
      t.createLinks 2 (fun _ => 4) = .ok squareRouting ∧
        squareNet.table = squareRouting.table ∧ Reaches squareNet (squareNet.init file) s ∧
          (s.queue (.received 0)).map (·.packetId) = [0, 1, 2] ∧
            ∀ f ∈ s.queue (.received 0), f.route.destNi = 0 := by
  obtain ⟨t, ht⟩ := exists_squareTopology
  obtain ⟨routing, hrouting, hreceived⟩ := received_at_destination ht
    (show ((List.range 2).map fun _ => 4).sum = 8 from rfl) (by decide)
  obtain rfl : squareRouting = routing :=
    Except.ok.inj ((createLinks_square ht).symm.trans hrouting)
  obtain ⟨file, s, -, hrun, -, -, hids⟩ := exists_run_square
  exact ⟨t, file, s, ht, hrouting, table_square.symm, hrun, hids,
    hreceived squareNet file s rfl rfl rfl table_square.symm hrun 0 (by decide)⟩

end Garnet

end ChipSim
