import Mathlib.Combinatorics.SimpleGraph.Metric
import NostrPubsub.Mesh.HopBudget

/-!
# A network of meshes

Meshes on the nodes of a graph that send each other messages. A node calls `publish`,
`receive` and `maintain` and passes only neighbours as peers; what it sends is in flight from
then on. The network may lose any of the packets in flight at any time, deliver them in any
order, and deliver one any number of times. Only senders are authenticated: a node that
receives a packet learns which node sent it.

`hop_budget` bounds how far an event travels: an inventory with hop limit `h` is at most
`maxHops - h` edges away from a publisher, in the exact sense of a walk of that length.
-/

namespace NostrPubsub

/-- The fixed parts of a network. -/
structure Network (ν : Type) where
  graph : SimpleGraph ν
  /-- The peer id of a node. -/
  name : ν → String
  name_injective : Function.Injective name
  options : ν → InvWantMeshOptions
  maxHops : ℕ
  /-- All nodes have the same hop limit. -/
  same_maxHops : ∀ v, (options v).normalize.maxHops = maxHops

/-- A message on its way. -/
structure Packet (ν : Type) where
  source : ν
  target : ν
  message : InvWantWireMessage

/-- A state of a network, with what was published and delivered so far: pairs of a node and an
event id. -/
structure Network.Configuration (ν : Type) where
  mesh : ν → InvWantMesh
  inFlight : Set (Packet ν)
  published : Set (ν × String)
  delivered : Set (ν × String)

namespace Network

variable {ν : Type} (net : Network ν) (nostr : NostrCrate)

/-- The network before any call. -/
def start : Configuration ν where
  mesh v := .new (net.options v)
  inFlight := ∅
  published := ∅
  delivered := ∅

/-- The peers passed to a call of `v` are neighbours of `v`. -/
def PassesNeighbours (v : ν) (peers : List MeshPeer) : Prop :=
  ∀ peer ∈ peers, ∃ w, net.graph.Adj v w ∧ net.name w = peer.id

variable {nostr}

/-- A call of node `v`: its sends are in flight, and its deliveries are noted. -/
def call [DecidableEq ν] (c : Configuration ν) (v : ν) (step : Step nostr) :
    Configuration ν where
  mesh := Function.update c.mesh v (step.run (c.mesh v)).2
  inFlight := c.inFlight ∪
    { packet | packet.source = v ∧
      .send (net.name packet.target) packet.message ∈ (step.run (c.mesh v)).1.emitted }
  published := c.published
  delivered := c.delivered ∪
    { entry | entry.1 = v ∧ ∃ sourcePeer event,
      .deliver sourcePeer event ∈ (step.run (c.mesh v)).1.emitted ∧ entry.2 = event.id.toHex }

/-- The note of a publication that succeeded. -/
def notePublished (c : Configuration ν) (v : ν) (event : Event) (result : OpResult) :
    Configuration ν :=
  { c with
    published := c.published ∪
      { entry | entry = (v, event.id.toHex) ∧ ∃ actions, result = .returned (.ok actions) } }

/-- What can happen next in a network. -/
inductive Moves [DecidableEq ν] (nostr : NostrCrate) : Configuration ν → Configuration ν → Prop
  | publish {c : Configuration ν} (v : ν) (event : Event) {peers : List MeshPeer} (nowMs : ℕ)
      (order : RouteOrder) (hpeers : net.PassesNeighbours v peers) :
      Moves nostr c
        (notePublished (net.call c v (⟨.publish event peers nowMs, order⟩ : Step nostr)) v event
          ((⟨.publish event peers nowMs, order⟩ : Step nostr).run (c.mesh v)).1)
  | receive {c : Configuration ν} (packet : Packet ν) {peers : List MeshPeer} (nowMs : ℕ)
      (order : RouteOrder) (hpacket : packet ∈ c.inFlight)
      (hpeers : net.PassesNeighbours packet.target peers) :
      Moves nostr c
        (net.call c packet.target
          (⟨.receive (net.name packet.source) packet.message peers nowMs, order⟩ : Step nostr))
  | maintain {c : Configuration ν} (v : ν) (nowMs : ℕ) (order : RouteOrder) :
      Moves nostr c (net.call c v (⟨.maintain nowMs, order⟩ : Step nostr))
  | lose {c : Configuration ν} {kept : Set (Packet ν)} (hkept : kept ⊆ c.inFlight) :
      Moves nostr c { c with inFlight := kept }

/-- The configurations that a network can get into. -/
def Reachable [DecidableEq ν] (nostr : NostrCrate) (c : Configuration ν) : Prop :=
  Relation.ReflTransGen (net.Moves nostr) net.start c

/-! ## Distances -/

section Distances

variable (published : Set (ν × String))

/-- A walk of `length` edges leads from a publisher of the event to `v`. -/
def PublisherWalk (eventId : String) (length : ℕ) (v : ν) : Prop :=
  ∃ publisher, (publisher, eventId) ∈ published ∧
    ∃ walk : net.graph.Walk publisher v, walk.length = length

/-- The node is within the hop limit of a publisher of the event. -/
def Near (eventId : String) (v : ν) : Prop :=
  ∃ publisher, (publisher, eventId) ∈ published ∧ net.graph.edist publisher v ≤ net.maxHops

variable {net published} {published' : Set (ν × String)} {eventId : String} {length : ℕ} {u v : ν}

theorem PublisherWalk.mono (h : net.PublisherWalk published eventId length v)
    (hsub : published ⊆ published') : net.PublisherWalk published' eventId length v := by
  obtain ⟨publisher, hpublished, hwalk⟩ := h
  exact ⟨publisher, hsub hpublished, hwalk⟩

theorem Near.mono (h : net.Near published eventId v) (hsub : published ⊆ published') :
    net.Near published' eventId v := by
  obtain ⟨publisher, hpublished, hdist⟩ := h
  exact ⟨publisher, hsub hpublished, hdist⟩

theorem PublisherWalk.near (h : net.PublisherWalk published eventId length v)
    (hlength : length ≤ net.maxHops) : net.Near published eventId v := by
  obtain ⟨publisher, hpublished, walk, rfl⟩ := h
  refine ⟨publisher, hpublished, (SimpleGraph.Walk.edist_le walk).trans ?_⟩
  exact_mod_cast hlength

/-- One more edge. -/
theorem PublisherWalk.step (h : net.PublisherWalk published eventId length u)
    (hadj : net.graph.Adj u v) : net.PublisherWalk published eventId (length + 1) v := by
  obtain ⟨publisher, hpublished, walk, rfl⟩ := h
  exact ⟨publisher, hpublished, walk.concat hadj, SimpleGraph.Walk.length_concat walk hadj⟩

/-- A publisher is no edge away from itself. -/
theorem PublisherWalk.refl (h : (v, eventId) ∈ published) :
    net.PublisherWalk published eventId 0 v :=
  ⟨v, h, .nil, rfl⟩

variable (net published)

/-- What node `v` may have to do with, as far as events were published. -/
def reach (v : ν) : Reach where
  hop eventId hopLimit := 1 ≤ hopLimit ∧ hopLimit ≤ net.maxHops ∧
    ∃ u, net.graph.Adj u v ∧ net.PublisherWalk published eventId (net.maxHops - hopLimit) u
  near eventId := net.Near published eventId v
  nearPeer eventId peer :=
    ∃ u, net.name u = peer ∧ net.graph.Adj v u ∧ net.Near published eventId u
  neighbour peer := ∃ u, net.name u = peer ∧ net.graph.Adj v u
  published eventId := (v, eventId) ∈ published
  near_of_hop eventId hopLimit := by
    rintro ⟨hpos, hle, u, hadj, hwalk⟩
    exact (hwalk.step hadj).near (by omega)
  near_of_published eventId hpublished :=
    PublisherWalk.near (.refl hpublished) (Nat.zero_le _)

/-- A packet keeps to the edges, and to the distances that its message allows. -/
def PacketBounded (packet : Packet ν) : Prop :=
  net.graph.Adj packet.source packet.target ∧
    match packet.message with
    | .inventory eventId _ _ hopLimit => 1 ≤ hopLimit ∧ hopLimit ≤ net.maxHops ∧
      net.PublisherWalk published eventId (net.maxHops - hopLimit) packet.source
    | .want eventId | .frame eventId _ =>
      net.Near published eventId packet.source ∧ net.Near published eventId packet.target

end Distances

/-! ## The invariant -/

/-- Nodes, packets and deliveries keep to the hop limit. -/
structure Bounded (c : Configuration ν) : Prop where
  options : ∀ v, (c.mesh v).options = (net.options v).normalize
  nodes : ∀ v, (c.mesh v).WithinReach (net.reach c.published v)
  packets : ∀ packet ∈ c.inFlight, net.PacketBounded c.published packet
  delivered : ∀ entry ∈ c.delivered, net.Near c.published entry.2 entry.1

variable {net}

theorem PacketBounded.mono {published published' : Set (ν × String)} {packet : Packet ν}
    (h : net.PacketBounded published packet) (hsub : published ⊆ published') :
    net.PacketBounded published' packet := by
  obtain ⟨source, target, message⟩ := packet
  obtain ⟨hadj, hmessage⟩ := h
  refine ⟨hadj, ?_⟩
  cases message with
  | inventory eventId eventKind payloadBytes hopLimit =>
    exact ⟨hmessage.1, hmessage.2.1, hmessage.2.2.mono hsub⟩
  | want eventId => exact ⟨hmessage.1.mono hsub, hmessage.2.mono hsub⟩
  | frame eventId event => exact ⟨hmessage.1.mono hsub, hmessage.2.mono hsub⟩

/-- What a node emits within its reach is bounded in flight. -/
theorem packetBounded_of_withinReach {published : Set (ν × String)} {v w : ν}
    {message : InvWantWireMessage} (hpos : 1 ≤ net.maxHops)
    (h : (InvWantAction.send (net.name w) message).WithinReach (net.reach published v)
      net.maxHops) :
    net.PacketBounded published { source := v, target := w, message } := by
  cases message with
  | inventory eventId eventKind payloadBytes hopLimit =>
    obtain ⟨⟨u, hname, hadj⟩, hlimit⟩ := h
    obtain rfl := net.name_injective hname
    refine ⟨hadj, ?_⟩
    rcases hlimit with ⟨rfl, hpublished⟩ | ⟨hone, _, hle, u', hadj', hwalk⟩
    · refine ⟨hpos, le_rfl, ?_⟩
      rw [Nat.sub_self]
      exact .refl hpublished
    · refine ⟨hone, by omega, ?_⟩
      have hlength : net.maxHops - hopLimit = net.maxHops - (hopLimit + 1) + 1 := by omega
      rw [hlength]
      exact hwalk.step hadj'
  | want eventId =>
    obtain ⟨hnear, u, hname, hadj, hnear'⟩ := h
    obtain rfl := net.name_injective hname
    exact ⟨hadj, hnear, hnear'⟩
  | frame eventId event =>
    obtain ⟨hnear, u, hname, hadj, hnear'⟩ := h
    obtain rfl := net.name_injective hname
    exact ⟨hadj, hnear, hnear'⟩

/-- A node that knows of more publications stays within reach. -/
theorem withinReach_mono {published published' : Set (ν × String)} {v : ν} {m : InvWantMesh}
    (h : m.WithinReach (net.reach published v)) (hsub : published ⊆ published') :
    m.WithinReach (net.reach published' v) := by
  refine h.mono ?_ (fun _ hnear => Near.mono hnear hsub) ?_
  · rintro eventId hopLimit ⟨hpos, hle, u, hadj, hwalk⟩
    exact ⟨hpos, hle, u, hadj, hwalk.mono hsub⟩
  · rintro eventId peer ⟨u, hname, hadj, hnear⟩
    exact ⟨u, hname, hadj, hnear.mono hsub⟩

section Steps

variable [DecidableEq ν]

/-- A call that stays within the reach of its node, when more may have been published. -/
theorem Bounded.call {c : Configuration ν} (h : net.Bounded c) {published : Set (ν × String)}
    (hsub : c.published ⊆ published) {v : ν} {step : Step nostr}
    (hstays : InvWantMesh.StaysWithin (net.reach published v) net.maxHops
      (step.run (c.mesh v)).1.emitted (step.run (c.mesh v)).2) :
    net.Bounded { net.call c v step with published } where
  options w := by
    by_cases hw : w = v
    · subst hw
      simp only [Network.call, Function.update_self]
      rw [Step.run_options, h.options]
    · simp only [Network.call, Function.update_of_ne hw]
      exact h.options w
  nodes w := by
    by_cases hw : w = v
    · subst hw
      simp only [Network.call, Function.update_self]
      exact hstays.state
    · simp only [Network.call, Function.update_of_ne hw]
      exact withinReach_mono (h.nodes w) hsub
  packets packet hpacket := by
    have hpos : 1 ≤ net.maxHops := by
      rw [← net.same_maxHops v]
      exact Nat.le_max_right _ _
    rcases hpacket with hold | ⟨hsource, hsent⟩
    · exact (h.packets packet hold).mono hsub
    · have hbounded := packetBounded_of_withinReach hpos (hstays.actions _ hsent)
      rw [← hsource] at hbounded
      exact hbounded
  delivered entry hentry := by
    rcases hentry with hold | ⟨hnode, sourcePeer, event, hdeliver, hid⟩
    · exact (h.delivered entry hold).mono hsub
    · rw [hnode, hid]
      exact hstays.actions _ hdeliver

theorem Bounded.publish {c : Configuration ν} (h : net.Bounded c) {v : ν} {event : Event}
    {peers : List MeshPeer} {nowMs : ℕ} {order : RouteOrder}
    (hpeers : net.PassesNeighbours v peers) :
    net.Bounded
      (notePublished (net.call c v (⟨.publish event peers nowMs, order⟩ : Step nostr)) v event
        ((⟨.publish event peers nowMs, order⟩ : Step nostr).run (c.mesh v)).1) := by
  refine h.call Set.subset_union_left ?_
  have hpruned : ∀ published, c.published ⊆ published →
      ((c.mesh v).prune order nowMs).WithinReach (net.reach published v) :=
    fun published hsub => (withinReach_mono (h.nodes v) hsub).shrinks (.prune _ order nowMs)
  have hhops : ((c.mesh v).prune order nowMs).options.maxHops = net.maxHops := by
    rw [InvWantMesh.prune_options, h.options, net.same_maxHops]
  simp only [Step.run, Op.apply, InvWantMesh.publish, InvWantMesh.withValidated]
  cases hvalid : ((c.mesh v).prune order nowMs).options.validateEvent nostr event with
  | error error => exact .silent (hpruned _ Set.subset_union_left)
  | ok validated =>
    obtain ⟨eventId, payloadBytes⟩ := validated
    obtain ⟨rfl, _⟩ := admissible_of_validateEvent hvalid
    refine .publishValidated (hpruned _ Set.subset_union_left) ?_ ?_ hhops
    · exact Set.mem_union_right _ ⟨rfl, _, rfl⟩
    · intro peer hpeer
      obtain ⟨w, hadj, hname⟩ := hpeers peer hpeer
      exact ⟨w, hname, hadj⟩

theorem Bounded.receive {c : Configuration ν} (h : net.Bounded c) {packet : Packet ν}
    {peers : List MeshPeer} {nowMs : ℕ} {order : RouteOrder} (hpacket : packet ∈ c.inFlight)
    (hpeers : net.PassesNeighbours packet.target peers) :
    net.Bounded (net.call c packet.target
      (⟨.receive (net.name packet.source) packet.message peers nowMs, order⟩ : Step nostr)) := by
  obtain ⟨source, target, message⟩ := packet
  obtain ⟨hadj, hmessage⟩ := h.packets _ hpacket
  refine h.call subset_rfl (.recordRejection ?_)
  have hpruned := (h.nodes target).shrinks (.prune (c.mesh target) order nowMs)
  cases message with
  | inventory eventId eventKind payloadBytes hopLimit =>
    obtain ⟨hpos, hle, hwalk⟩ := hmessage
    exact .receiveInventory hpruned ⟨hpos, hle, source, hadj, hwalk⟩
      ⟨source, rfl, hadj.symm, hwalk.near (Nat.sub_le _ _)⟩
  | want eventId => exact .receiveWant hpruned ⟨source, rfl, hadj.symm, hmessage.1⟩
  | frame eventId event =>
    refine .receiveFrame hpruned fun peer hpeer => ?_
    obtain ⟨w, hadj', hname⟩ := hpeers peer hpeer
    exact ⟨w, hname, hadj'⟩

/-- Every move keeps the bounds. -/
theorem Bounded.moves {c c' : Configuration ν} (h : net.Bounded c) (hmove : net.Moves nostr c c') :
    net.Bounded c' := by
  cases hmove with
  | publish v event nowMs order hpeers => exact h.publish hpeers
  | receive packet nowMs order hpacket hpeers => exact h.receive hpacket hpeers
  | maintain v nowMs order =>
    exact h.call subset_rfl (.silent ((h.nodes v).shrinks (.prune (c.mesh v) order nowMs)))
  | lose hkept =>
    exact ⟨h.options, h.nodes, fun packet hp => h.packets packet (hkept hp), h.delivered⟩

omit [DecidableEq ν] in
theorem bounded_start : net.Bounded net.start where
  options _ := rfl
  nodes v := .new (net.options v)
  packets packet hpacket := absurd hpacket (Set.notMem_empty packet)
  delivered entry hentry := absurd hentry (Set.notMem_empty entry)

theorem Reachable.bounded {c : Configuration ν} (h : net.Reachable nostr c) : net.Bounded c := by
  induction h with
  | refl => exact bounded_start
  | tail _ hmove ih => exact ih.moves hmove

/-- In every configuration that a network of meshes with one hop limit can get into: an
inventory in flight from `v` with hop limit `h` means a walk of `maxHops - h` edges from a
publisher to `v`; an event is delivered only within `maxHops` of a publisher; and a want or a
frame for it crosses only edges with both ends within `maxHops` of one. -/
theorem hop_budget (net : Network ν) (nostr : NostrCrate) (c : Configuration ν)
    (h : net.Reachable nostr c) :
    (∀ packet ∈ c.inFlight, ∀ eventId eventKind payloadBytes hopLimit,
      packet.message = .inventory eventId eventKind payloadBytes hopLimit →
        1 ≤ hopLimit ∧ hopLimit ≤ net.maxHops ∧
          ∃ publisher, (publisher, eventId) ∈ c.published ∧
            ∃ walk : net.graph.Walk publisher packet.source,
              walk.length = net.maxHops - hopLimit) ∧
    (∀ v eventId, (v, eventId) ∈ c.delivered →
      ∃ publisher, (publisher, eventId) ∈ c.published ∧
        net.graph.edist publisher v ≤ net.maxHops) ∧
    (∀ packet ∈ c.inFlight, ∀ eventId,
      (packet.message = .want eventId ∨ ∃ event, packet.message = .frame eventId event) →
        net.graph.Adj packet.source packet.target ∧
        (∃ publisher, (publisher, eventId) ∈ c.published ∧
          net.graph.edist publisher packet.source ≤ net.maxHops) ∧
        ∃ publisher, (publisher, eventId) ∈ c.published ∧
          net.graph.edist publisher packet.target ≤ net.maxHops) := by
  have hbounded := h.bounded
  refine ⟨?_, fun v eventId hdelivered => hbounded.delivered _ hdelivered, ?_⟩
  · intro packet hpacket eventId eventKind payloadBytes hopLimit hmessage
    obtain ⟨_, hlimits⟩ := hbounded.packets packet hpacket
    rw [hmessage] at hlimits
    exact hlimits
  · intro packet hpacket eventId hmessage
    obtain ⟨hadj, hnear⟩ := hbounded.packets packet hpacket
    rcases hmessage with hwant | ⟨event, hframe⟩
    · rw [hwant] at hnear
      exact ⟨hadj, hnear⟩
    · rw [hframe] at hnear
      exact ⟨hadj, hnear⟩

/-! ## Two nodes -/

/-- Two neighbours with default options. -/
def pair : Network Bool where
  graph := ⊤
  name v := if v then "b" else "a"
  name_injective := by decide
  options _ := {}
  maxHops := defaultInvWantHopLimit
  same_maxHops _ := rfl

/-- The inventory of a note as its publisher sends it. -/
def pairInventory : InvWantWireMessage :=
  .inventory noteA.id.toHex noteA.kind noteA.plainJson.length defaultInvWantHopLimit

/-- `a` publishes a note. -/
def pairPublish : Step noteCrate := ⟨.publish noteA [.new "b"] 0, .ascending _⟩

/-- The network after that. -/
def pairPublished : Configuration Bool :=
  notePublished (pair.call pair.start false pairPublish) false noteA
    (pairPublish.run (pair.start.mesh false)).1

/-- `b` receives the inventory. -/
def pairAsk : Step noteCrate := ⟨.receive "a" pairInventory [.new "a"] 1, .ascending _⟩

/-- The network after that. -/
def pairAsked : Configuration Bool := pair.call pairPublished true pairAsk

/-- `a` receives the want. -/
def pairAnswer : Step noteCrate := ⟨.receive "b" (.want noteA.id.toHex) [.new "b"] 2, .ascending _⟩

/-- The network after that. -/
def pairAnswered : Configuration Bool := pair.call pairAsked false pairAnswer

/-- `b` receives the frame. -/
def pairDeliver : Step noteCrate :=
  ⟨.receive "a" (.frame noteA.id.toHex noteA) [.new "a"] 3, .ascending _⟩

/-- The network after that. -/
def pairDelivered : Configuration Bool := pair.call pairAnswered true pairDeliver

theorem pair_passesNeighbours (v : Bool) :
    pair.PassesNeighbours v [.new (pair.name (!v))] := by
  intro peer hpeer
  obtain rfl := List.mem_singleton.mp hpeer
  exact ⟨!v, by cases v <;> simp [pair], rfl⟩

theorem pairDelivered_reachable : pair.Reachable noteCrate pairDelivered := by
  have hinventory : .send "b" pairInventory ∈
      (pairPublish.run (pair.start.mesh false)).1.emitted := by
    decide +kernel
  have hwant : .send "a" (.want noteA.id.toHex) ∈
      (pairAsk.run (pairPublished.mesh true)).1.emitted := by
    decide +kernel
  have hframe : .send "b" (.frame noteA.id.toHex noteA) ∈
      (pairAnswer.run (pairAsked.mesh false)).1.emitted := by
    decide +kernel
  have hpublish : pair.Moves noteCrate pair.start pairPublished :=
    .publish false noteA 0 (.ascending _) (pair_passesNeighbours false)
  have hask : pair.Moves noteCrate pairPublished pairAsked :=
    .receive ⟨false, true, pairInventory⟩ 1 (.ascending _) (Or.inr ⟨rfl, hinventory⟩)
      (pair_passesNeighbours true)
  have hanswer : pair.Moves noteCrate pairAsked pairAnswered :=
    .receive ⟨true, false, .want noteA.id.toHex⟩ 2 (.ascending _) (Or.inr ⟨rfl, hwant⟩)
      (pair_passesNeighbours false)
  have hdeliver : pair.Moves noteCrate pairAnswered pairDelivered :=
    .receive ⟨false, true, .frame noteA.id.toHex noteA⟩ 3 (.ascending _) (Or.inr ⟨rfl, hframe⟩)
      (pair_passesNeighbours true)
  exact (((Relation.ReflTransGen.single hpublish).tail hask).tail hanswer).tail hdeliver

/-- The note is delivered at `b`, within the hop limit of its publisher. -/
theorem hop_budget_pairDelivered :
    (true, noteA.id.toHex) ∈ pairDelivered.delivered ∧
      ∃ publisher, (publisher, noteA.id.toHex) ∈ pairDelivered.published ∧
        pair.graph.edist publisher true ≤ pair.maxHops := by
  have hemitted : .deliver "a" noteA ∈ (pairDeliver.run (pairAnswered.mesh true)).1.emitted := by
    decide +kernel
  have hdelivered : (true, noteA.id.toHex) ∈ pairDelivered.delivered :=
    Or.inr ⟨rfl, "a", noteA, hemitted, rfl⟩
  exact ⟨hdelivered,
    (hop_budget pair noteCrate pairDelivered pairDelivered_reachable).2.1 true _ hdelivered⟩

end Steps

end Network

end NostrPubsub
