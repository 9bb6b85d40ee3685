import Mathlib.Order.WithBot
import NostrPubsub.Core

/-!
# The inventory/want mesh: data

The types of `mesh.rs` and `mesh_resources.rs`. `InvWantMesh` keeps the fields of the source
struct one for one; nothing relates them here, since how they agree is what the later
modules prove.

- `HashMap<String, _>` is a `Table`, `VecDeque<String>` a list (front first), `BTreeSet` a
  `Finset`.
- `next_prune_at_ms : Option<u64>` is `WithTop ℕ`: `None`, no deadline, is `⊤`.
- `usize` and the byte total `cached_event_bytes` are natural numbers: they measure memory
  that is held.
-/

namespace NostrPubsub

def defaultInvWantFanout : ℕ := 8
def defaultInvWantHopLimit : ℕ := 16
def defaultInvWantMaxEventBytes : ℕ := 1024 * 1024
def defaultInvWantMaxCacheBytes : ℕ := 16 * 1024 * 1024
def defaultInvWantMaxWireBytes : ℕ := defaultInvWantMaxEventBytes + 4096
def defaultRouteTtlMs : ℕ := 2 * 60 * 1000
def defaultEventTtlMs : ℕ := 10 * 60 * 1000
def maxUpstreamProvidersPerEvent : ℕ := 3
def maxTrackedPeerBehaviors : ℕ := 4096
def minPeerBehaviorSamples : ℕ := 3
def validFrameReward : ℤ := 20
def invalidMessagePenalty : ℤ := -40
def unservedInventoryPenalty : ℤ := -20

/-! ## Messages, peers and actions -/

/-- `InvWantWireMessage`. -/
inductive InvWantWireMessage where
  | inventory (eventId : String) (eventKind payloadBytes hopLimit : ℕ)
  | want (eventId : String)
  | frame (eventId : String) (event : Event)
  deriving DecidableEq

/-- `MeshPeer`: a connected peer and its quality score, `none` when unknown. -/
structure MeshPeer where
  id : String
  qualityScore : Option ℤ
  deriving DecidableEq, Repr

/-- `MeshPeer::new`. -/
def MeshPeer.new (id : String) : MeshPeer := { id, qualityScore := none }

/-- `MeshPeer::observed`. -/
def MeshPeer.observed (id : String) (score : ℤ) : MeshPeer := { id, qualityScore := some score }

/-- `MeshPeer::is_unknown`. -/
def MeshPeer.isUnknown (peer : MeshPeer) : Bool := peer.qualityScore.isNone

/-- `MeshPeer::effective_score`. -/
def MeshPeer.effectiveScore (peer : MeshPeer) : ℤ := peer.qualityScore.getD 0

/-- `InvWantAction`. -/
inductive InvWantAction where
  | send (peerId : String) (message : InvWantWireMessage)
  | deliver (sourcePeer : String) (event : Event)
  deriving DecidableEq

/-! ## Options -/

/-- `InvWantMeshOptions`. -/
structure InvWantMeshOptions where
  fanout : ℕ := defaultInvWantFanout
  unknownPeerReserve : ℕ := 1
  maxHops : ℕ := defaultInvWantHopLimit
  maxEventBytes : ℕ := defaultInvWantMaxEventBytes
  maxCachedEvents : ℕ := 1024
  maxCachedEventBytes : ℕ := defaultInvWantMaxCacheBytes
  maxSeenEvents : ℕ := 4096
  maxPendingPeersPerEvent : ℕ := 64
  routeTtlMs : ℕ := defaultRouteTtlMs
  eventTtlMs : ℕ := defaultEventTtlMs
  /-- `none` accepts every kind. -/
  allowedKinds : Option (Finset ℕ) := none
  deriving DecidableEq

/-- The clamping of `InvWantMesh::new`. -/
def InvWantMeshOptions.normalize (options : InvWantMeshOptions) : InvWantMeshOptions :=
  let fanout := max options.fanout 1
  let maxEventBytes := max options.maxEventBytes 1
  let routeTtlMs := max options.routeTtlMs 1
  { fanout
    unknownPeerReserve := min options.unknownPeerReserve fanout
    maxHops := max options.maxHops 1
    maxEventBytes
    maxCachedEvents := max options.maxCachedEvents 1
    maxCachedEventBytes := max options.maxCachedEventBytes maxEventBytes
    maxSeenEvents := max options.maxSeenEvents 1
    maxPendingPeersPerEvent := max options.maxPendingPeersPerEvent 1
    routeTtlMs
    eventTtlMs := max options.eventTtlMs routeTtlMs
    allowedKinds := options.allowedKinds }

/-! ## State -/

/-- `UpstreamRoute`: where an announced event was asked for. -/
structure UpstreamRoute where
  peerId : String
  alternatePeers : Finset String
  transportDisruptedPeers : Finset String
  eventKind : ℕ
  payloadBytes : ℕ
  hopLimit : ℕ
  expiresAtMs : ℕ
  fulfilled : Bool
  deriving DecidableEq

/-- The peers an event was asked from: `peer_id` and the alternates. -/
def UpstreamRoute.providers (route : UpstreamRoute) : Finset String :=
  insert route.peerId route.alternatePeers

/-- `route.peer_id == peer || route.alternate_peers.contains(peer)`. -/
def UpstreamRoute.hasProvider (route : UpstreamRoute) (peer : String) : Bool :=
  route.peerId == peer || decide (peer ∈ route.alternatePeers)

theorem UpstreamRoute.hasProvider_iff {route : UpstreamRoute} {peer : String} :
    route.hasProvider peer = true ↔ peer ∈ route.providers := by
  simp only [hasProvider, providers, Bool.or_eq_true, beq_iff_eq, decide_eq_true_eq,
    Finset.mem_insert]
  rw [eq_comm]

/-- `PendingPeers`: the peers waiting for an event that was asked for upstream. -/
structure PendingPeers where
  peers : Finset String
  expiresAtMs : ℕ
  deriving DecidableEq

/-- `PeerBehavior`. -/
structure PeerBehavior where
  score : ℤ := 0
  samples : ℕ := 0
  validFrames : ℕ := 0
  invalidMessages : ℕ := 0
  unservedInventories : ℕ := 0
  deriving DecidableEq, Repr

/-- `PeerBehaviorEvidence`. -/
inductive PeerBehaviorEvidence where
  | validFrame
  | invalidMessage
  | unservedInventory
  deriving DecidableEq, Repr

/-- `CachedEvent`. -/
structure CachedEvent where
  event : Event
  expiresAtMs : ℕ
  payloadBytes : ℕ
  deriving DecidableEq

/-- `InvWantMesh`. -/
structure InvWantMesh where
  options : InvWantMeshOptions
  cachedEvents : Table CachedEvent
  cacheOrder : List String
  cachedEventBytes : ℕ
  seenInventories : Table ℕ
  seenOrder : List String
  deliveredEvents : Table ℕ
  deliveredOrder : List String
  upstreamRoutes : Table UpstreamRoute
  pendingDownstream : Table PendingPeers
  pendingPeerCount : ℕ
  wantForwarded : Table ℕ
  nextPruneAtMs : WithTop ℕ
  peerBehaviors : Table PeerBehavior
  peerBehaviorOrder : List String

/-- `InvWantMesh::new`. -/
def InvWantMesh.new (options : InvWantMeshOptions) : InvWantMesh where
  options := options.normalize
  cachedEvents := ∅
  cacheOrder := []
  cachedEventBytes := 0
  seenInventories := ∅
  seenOrder := []
  deliveredEvents := ∅
  deliveredOrder := []
  upstreamRoutes := ∅
  pendingDownstream := ∅
  pendingPeerCount := 0
  wantForwarded := ∅
  nextPruneAtMs := ⊤
  peerBehaviors := ∅
  peerBehaviorOrder := []

/-- `InvWantMeshRetainedState`. -/
structure InvWantMeshRetainedState where
  cachedEvents : ℕ
  cachedEventBytes : ℕ
  seenInventories : ℕ
  deliveredEvents : ℕ
  upstreamRoutes : ℕ
  transportDisruptedRoutePeers : ℕ
  pendingEvents : ℕ
  pendingPeers : ℕ
  forwardedWants : ℕ
  peerBehaviors : ℕ
  deriving DecidableEq, Repr

/-- `InvWantMesh::retained_state`. -/
def InvWantMesh.retainedState (m : InvWantMesh) : InvWantMeshRetainedState where
  cachedEvents := m.cachedEvents.size
  cachedEventBytes := m.cachedEventBytes
  seenInventories := m.seenInventories.size
  deliveredEvents := m.deliveredEvents.size
  upstreamRoutes := m.upstreamRoutes.size
  transportDisruptedRoutePeers :=
    m.upstreamRoutes.total fun _ route => route.transportDisruptedPeers.card
  pendingEvents := m.pendingDownstream.size
  pendingPeers := m.pendingPeerCount
  forwardedWants := m.wantForwarded.size
  peerBehaviors := m.peerBehaviors.size

/-- `PeerBehaviorObservation` and `InvWantMesh::peer_behavior_observation`: the evidence on a
peer once there are enough samples. -/
def InvWantMesh.peerBehaviorObservation (m : InvWantMesh) (peerId : String) :
    Option PeerBehavior :=
  (m.peerBehaviors.lookup peerId).filter fun behavior =>
    decide (minPeerBehaviorSamples ≤ behavior.samples)

/-- `InvWantMesh::peer_behavior_score`. -/
def InvWantMesh.peerBehaviorScore (m : InvWantMesh) (peerId : String) : Option ℤ :=
  (m.peerBehaviorObservation peerId).map PeerBehavior.score

/-- The inventory of a note, as its author's peers send it. -/
def noteInventory (event : Event) : InvWantWireMessage :=
  .inventory event.id.toHex event.kind event.plainJson.length 4

end NostrPubsub
