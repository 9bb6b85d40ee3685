import NostrPubsub.Fips.PendingWants
import NostrPubsub.Fips.ProviderBehavior
import NostrPubsub.Fips.ReplayAnswers
import NostrPubsub.Fips.SeenIds
import NostrPubsub.Mesh.PeerSelection
import NostrPubsub.Stream.TcpDriver
import NostrPubsub.ToMathlib.Threads

/-!
# The state of a client, and its threads

`ClientInner` (`client_inner.rs`), shared by the transport, the workers that serve history and the
callers in the application. A thread goes from lock to lock: what is done under one lock of a mutex
is one critical section, and the other threads may run between any two of them. Where the source
takes a second lock while it holds a first, the model takes them one after the other, unless both
are read at once; that only adds orders of steps.

What a client asks of its endpoint, its driver, its policies, its store and the clock is a `Request`,
and any answer may come back. Peers are named by their npubs, which `PeerIdentity::from_npub` reads
back. A mutex is never poisoned.
-/

namespace NostrPubsub.Fips

open Threads

variable {nostr : NostrCrate}

/-- `SOURCE_PRIORITY_FIPS_ENDPOINT`. -/
def sourcePriorityFipsEndpoint : ℤ := 200

/-- `FIPS_NOSTR_PUBSUB_MAX_OBSERVED_IDS_PER_SCOPE`. -/
def maxObservedIdsPerScope : ℕ := 1024

/-- `FIPS_NOSTR_PUBSUB_MAX_OBSERVED_IDS`. -/
def maxObservedIds : ℕ := 16384

/-! ## Local delivery in one piece -/

variable (nostr) in
/-- `LocalDelivery`, with the channel that it fills. -/
structure LocalDelivery where
  state : DeliveryState nostr
  channel : Channel (QueryEvent nostr)

namespace LocalDelivery

/-- `LocalDelivery::new`, on a new channel. -/
def new (maxReplayEvents : ℕ) : LocalDelivery nostr :=
  ⟨.new maxReplayEvents, ⟨maxReplayEvents, [], false⟩⟩

/-- `LocalDelivery::contains`. -/
def contains (delivery : LocalDelivery nostr) (eventId : String) : Bool :=
  eventId ∈ delivery.state.deliveredIds ∨ eventId ∈ delivery.state.pendingIds

/-- The loop of `refill`. Every turn but the last takes a pending event. -/
def refillLoop : ℕ → LocalDelivery nostr → LocalDelivery nostr
  | 0, delivery => delivery
  | fuel + 1, delivery =>
    let (goesOn, state, channel) := delivery.state.refillTurn delivery.channel
    if goesOn then refillLoop fuel ⟨state, channel⟩ else ⟨state, channel⟩

/-- `LocalDelivery::refill`. -/
def refill (delivery : LocalDelivery nostr) : LocalDelivery nostr :=
  delivery.refillLoop (delivery.state.pending.length + 1)

/-- `LocalDelivery::enqueue`. -/
def enqueue (event : QueryEvent nostr) (delivery : LocalDelivery nostr) :
    Bool × LocalDelivery nostr :=
  if delivery.state.Admits event then
    let delivery := delivery.refill
    let (accepted, state, channel) := delivery.state.send event delivery.channel
    (accepted, ⟨state, channel⟩)
  else (false, delivery)

/-- `LocalDelivery::close`. -/
def close (delivery : LocalDelivery nostr) : LocalDelivery nostr :=
  { delivery with state := delivery.state.close }

/-- The next event in the channel, for `recv` and `try_recv`. -/
def take (delivery : LocalDelivery nostr) : Option (QueryEvent nostr) × LocalDelivery nostr :=
  match delivery.channel.buffer with
  | [] => (none, delivery)
  | event :: rest => (some event, { delivery with channel := { delivery.channel with buffer := rest } })

/-- The events that the application has still to take. -/
def waiting (delivery : LocalDelivery nostr) : List (QueryEvent nostr) :=
  delivery.channel.buffer ++ delivery.state.pending

end LocalDelivery

/-! ## The shared state -/

/-- `ActiveSubscription`, without its delivery. -/
structure ActiveSubscription where
  filters : List WireFilter
  fresh : Bool
  peers : Finset String

/-- `PeerLinkEpoch`. -/
inductive PeerLinkEpoch where
  | routed
  | direct (linkId : ℕ)
  | localService (startupEpoch : ℕ)
  deriving DecidableEq

/-- `matches!(link, PeerLinkEpoch::LocalService(_))`. -/
def PeerLinkEpoch.isLocalService : PeerLinkEpoch → Bool
  | .localService _ => true
  | _ => false

/-- `PeerLinkEpoch::requires_reset`. -/
def PeerLinkEpoch.requiresReset (next previous : PeerLinkEpoch) : Bool :=
  match previous, next with
  | .direct _, .localService _ => false
  | _, _ => decide (next ≠ previous)

/-- `ConnectedPeerLink`. -/
structure ConnectedPeerLink where
  npub : String
  linkId : PeerLinkEpoch

/-- `TransportCommand`. -/
inductive TransportCommand where
  | send (peer : String) (frame : Frame)
  | cooldown (peer : String)

/-- `ReplayRequest`. Stores are told apart by number, as `Arc::ptr_eq` tells them apart. -/
structure ReplayRequest where
  peer : String
  source : ℕ
  query : ReplayQuery

variable (nostr) in
/-- `ClientInner`, as far as it changes. The deliveries of subscriptions that were closed stay, as
the application holds on to them. -/
structure ClientInner where
  /-- `admission`. -/
  open_ : Bool
  publications : Publications
  /-- What was sent on the `oneshot` channels of publications. -/
  receipts : List (EventId × PublicationResult)
  replaySource : Option ℕ
  nextSubscriptionId : ℕ
  subscriptions : Table ActiveSubscription
  deliveries : Table (LocalDelivery nostr)
  peerSubscriptions : PubsubPeerSubscriptionStore
  recentEvents : RecentEvents nostr
  observedInventories : ScopedSeenIds
  observedFullEvents : ScopedSeenIds
  providerBehavior : ProviderBehavior
  pendingWants : PendingWants
  /-- The channel of `transport_tx`. -/
  commands : List TransportCommand
  /-- The receiver of `transport_tx` is gone. -/
  transportStopped : Bool
  /-- The channel of `replay_tx`. -/
  replays : List ReplayRequest
  /-- `known_links` of `transport_loop`. -/
  knownLinks : Table PeerLinkEpoch

/-- What a client is built from, and what its functions take from elsewhere. -/
structure ClientSetup extends ReplayClient where
  /-- Which events meet the criteria of a filter. -/
  criteria : WireFilter → Event → Bool
  /-- `endpoint.npub()`. -/
  npub : String
  /-- `peer_transport`. -/
  peerTransport : Option String
  /-- `event_policy.is_some()`. -/
  hasEventPolicy : Bool
  /-- `peer_policy.is_some()`. -/
  hasPeerPolicy : Bool
  unknownPeerReserve : ℕ
  /-- The hash in `bounded_delivery_targets`. -/
  targetHash : EventId → String → ℕ
  /-- The hash in `select_policy_peers`. -/
  orderHash : EventId → String → String → ℕ
  /-- The orders in which hash maps are visited. -/
  subscriptionOrder : Finmap.Enumeration fun _ : String => ActiveSubscription
  wantOrder : Finmap.Enumeration fun _ : String => PendingInventory
  linkOrder : Finmap.Enumeration fun _ : String => PeerLinkEpoch
  peerOrder : Finset String → List String

namespace ClientSetup

variable (client : ClientSetup)

/-- `FipsPubsubClientOptions::subscription_limits`. -/
def subscriptionLimits : PubsubSubscriptionLimits where
  maxPeers := client.options.maxConnectedPeers
  maxSubscriptionsPerPeer := satAdd client.options.maxActiveSubscriptions 1
  maxFiltersPerSubscription := client.options.maxFiltersPerSubscription

/-- `PendingWants::from_options`. -/
def newPendingWants : PendingWants :=
  .new (max (satMul (satAdd client.options.maxActiveSubscriptions 1) client.options.maxReplayEvents) 1)
    client.options.maxConnectedPeers

/-- `command_capacity`. -/
def commandCapacity : ℕ :=
  max (satMul client.options.maxConnectedPeers client.options.receiveBatchSize) 1

/-- `replay_capacity`. -/
def replayCapacity : ℕ := max client.options.maxConnectedPeers client.options.receiveBatchSize

/-- The state in `start_for_role`. -/
def start : ClientInner nostr where
  open_ := true
  publications := ∅
  receipts := []
  replaySource := none
  nextSubscriptionId := 1
  subscriptions := ∅
  deliveries := ∅
  peerSubscriptions := .new client.subscriptionLimits
  recentEvents := .new client.options.maxReplayEvents maxSeenEventIds
  observedInventories := .new maxObservedIdsPerScope maxObservedIds
  observedFullEvents := .new maxObservedIdsPerScope maxObservedIds
  providerBehavior := {}
  pendingWants := client.newPendingWants
  commands := []
  transportStopped := false
  replays := []
  knownLinks := ∅

end ClientSetup

/-! ## Requests -/

variable (nostr) in
/-- What a client asks. -/
inductive Request where
  /-- `now_ms`. -/
  | nowMs
  /-- `now_ms`, for each of the pending events that a removal visits. -/
  | nowMsOfEach
  /-- `connected_peer_links`. -/
  | connectedPeerLinks
  /-- `PubsubPolicy::check_event`. -/
  | checkEvent (event : VerifiedEvent nostr) (source : EventSource)
  /-- `MeshPeerPolicy::select_mesh_peer`. -/
  | selectMeshPeer (peer : String)
  /-- `EventBus::query` of a store. -/
  | query (source : ℕ) (filters : List Filter) (limit : ℕ)
  /-- `WireTcpDriver::queue_frame`. -/
  | queueFrame (peer : String) (frame : Frame)
  /-- `WireTcpDriver::connect_peer`. -/
  | connectPeer (peer : String)
  /-- `WireTcpDriver::abort_peer`. -/
  | abortPeer (peer : String)
  /-- `WireTcpDriver::forget_peer`. -/
  | forgetPeer (peer : String)
  /-- `WireTcpDriver::service_discovered`. -/
  | serviceDiscovered (peer : String)
  /-- `WireTcpDriver::is_inbound`. -/
  | isInbound (peer : String)
  /-- `WireTcpDriver::select_peers`: the peers whose selection changed. -/
  | selectPeers (peers : List String)
  /-- `WireTcpDriver::due_service_peers`. -/
  | dueServicePeers
  /-- `WireTcpDriver::flush_queues`. -/
  | flushQueues
  /-- `recv` and `try_recv` of a subscription return an event. -/
  | handOver (key : String) (event : QueryEvent nostr)

/-- What may come back. -/
def Request.Answer : Request nostr → Type
  | .nowMs => ℕ
  | .nowMsOfEach => String → ℕ
  | .connectedPeerLinks => Except PubsubError (List ConnectedPeerLink)
  | .checkEvent _ _ => Except PubsubError PolicyDecision
  | .selectMeshPeer _ => Except PubsubError (Option MeshPeer)
  | .query _ _ _ => QueryReport nostr
  | .queueFrame _ _ => Except PubsubError Unit
  | .isInbound _ => Bool
  | .selectPeers _ | .dueServicePeers => List String
  | .connectPeer _ | .abortPeer _ | .forgetPeer _ | .serviceDiscovered _ | .flushQueues
  | .handOver _ _ => Unit

variable (nostr) in
/-- A thread of a client. -/
abbrev ClientThread (α : Type) : Type := Thread (ClientInner nostr) (@Request.Answer nostr) α

/-- `now_ms`. -/
def nowMs : ClientThread nostr ℕ := Thread.request Request.nowMs

/-- `now_ms`, for each of the pending events that a removal visits. -/
def nowMsOfEach : ClientThread nostr (String → ℕ) := Thread.request Request.nowMsOfEach

/-- `connected_peer_links`. -/
def connectedPeerLinks : ClientThread nostr (Except PubsubError (List ConnectedPeerLink)) :=
  Thread.request Request.connectedPeerLinks

/-- `PubsubPolicy::check_event`. -/
def checkEvent (event : VerifiedEvent nostr) (source : EventSource) :
    ClientThread nostr (Except PubsubError PolicyDecision) :=
  Thread.request (Request.checkEvent event source)

/-- `MeshPeerPolicy::select_mesh_peer`. -/
def selectMeshPeer (peer : String) : ClientThread nostr (Except PubsubError (Option MeshPeer)) :=
  Thread.request (Request.selectMeshPeer peer)

/-! ## Sending -/

namespace ClientSetup

variable (client : ClientSetup)

/-- `ClientInner::admit`. -/
def admitCall : ClientThread nostr (Except PubsubError Unit) :=
  .read fun s =>
    if s.open_ then .ok () else .error (.storage "FIPS pubsub client is shut down")

/-- The filters of a subscription as they match events. -/
def toFilters (filters : List WireFilter) : List Filter :=
  filters.map (WireFilter.toFilter client.criteria)

/-- `FipsPubsubWireCodec::encode_frame`. -/
def encode (message : FipsPubsubWireMessage nostr) : Except PubsubError Frame :=
  client.codec.encodeFrame client.json message

/-- `FipsPubsubWireCodec::decode_frame`. -/
def decode (frame : Frame) : Except PubsubError (FipsPubsubWireMessage nostr) :=
  client.codec.decodeFrame client.json frame

/-- `ClientInner::validate_outbound`, of a state. -/
def permitsIn (s : ClientInner nostr) (peer : String) (frame : Frame) : Except PubsubError Unit :=
  client.permits s.publications s.recentEvents peer frame

/-- `ClientInner::validate_outbound`. -/
def validateOutbound (peer : String) (frame : Frame) : ClientThread nostr (Except PubsubError Unit) :=
  .read fun s => client.permitsIn s peer frame

/-- `transport_tx.try_send`. -/
def trySend (command : TransportCommand) : ClientThread nostr (Except String Unit) :=
  .atomic fun s =>
    -- nothing waits for room in the channel
    if s.transportStopped then (.error "channel closed", s)
    else if s.commands.length < client.commandCapacity then
      (.ok (), { s with commands := s.commands ++ [command] })
    else (.error "no available capacity", s)

/-- `ClientInner::send_frame`. -/
def sendFrame (peer : String) (frame : Frame) : ClientThread nostr (Except PubsubError Unit) := do
  match ← client.validateOutbound peer frame with
  | .error error => return .error error
  | .ok () =>
    let sent ← client.trySend (.send peer frame)
    return sent.mapError (storageError "queue TCP/FIPS Nostr pubsub frame")

/-- `active.delivery.close()`, for the subscription under a key. -/
def closeDelivery (key : String) : ClientThread nostr Unit :=
  .modify fun s =>
    match s.deliveries.lookup key with
    | some delivery => { s with deliveries := s.deliveries.insert key delivery.close }
    | none => s

/-- `transport_tx.try_send`, whatever comes of it. -/
def sendCommand (command : TransportCommand) : ClientThread nostr Unit := do
  let _ ← client.trySend command

/-- `ClientInner::send_close`. -/
def sendClose (key : String) (peers : Finset String) : ClientThread nostr Unit :=
  match @encode nostr client (.close key) with
  | .error _ => pure ()
  | .ok frame => .each (client.peerOrder peers) fun peer => client.sendCommand (.send peer frame)

/-- `ClientInner::close_subscription`. -/
def closeSubscription (key : String) : ClientThread nostr Unit := do
  -- of two threads that close, one takes the subscription out
  let active ← Thread.atomic fun s =>
    (s.subscriptions.lookup key, { s with subscriptions := s.subscriptions.erase key })
  match active with
  | none => return
  | some active =>
    closeDelivery key
    Thread.modify fun s => { s with pendingWants := s.pendingWants.removeSubscription key }
    Thread.modify fun s =>
      { s with observedInventories := s.observedInventories.clearSubscription key }
    client.sendClose key active.peers

/-- `ClientInner::inventory_frame`. -/
def inventoryFrame (subscriptionIds : List String) (event : VerifiedEvent nostr) (hopLimit : UInt8) :
    ClientThread nostr (Except PubsubError Frame) := do
  if ¬ client.role.canExport event then
    return .error (invalidOption "inventory author is not public on this receiver")
  else
    -- a receiver keeps what it announces, so that it can answer the WANT
    Thread.modify fun s =>
      { s with recentEvents := client.keepApproved s.recentEvents event hopLimit }
    return client.inventory subscriptionIds event hopLimit

/-- The loop of `send_inventories`: how many frames were queued. -/
def sendInventoriesLoop (event : VerifiedEvent nostr) (hopLimit : UInt8) :
    List (String × List String) → ℕ → ClientThread nostr ℕ
  | [], sent => pure sent
  | (peer, subscriptionIds) :: rest, sent => do
    match ← client.inventoryFrame subscriptionIds event hopLimit with
    | .error _ => sendInventoriesLoop event hopLimit rest sent
    | .ok frame =>
      match ← client.sendFrame peer frame with
      | .error _ => sendInventoriesLoop event hopLimit rest sent
      | .ok () => sendInventoriesLoop event hopLimit rest (sent + 1)

/-- `ClientInner::send_inventories`. -/
def sendInventories (targets : List (String × List String)) (event : VerifiedEvent nostr)
    (hopLimit : UInt8) : ClientThread nostr ℕ :=
  if hopLimit = 0 then pure 0 else client.sendInventoriesLoop event hopLimit targets 0

/-! ## Policies -/

/-- `ClientInner::event_decision`. -/
def eventDecision (event : VerifiedEvent nostr) (source : EventSource) :
    ClientThread nostr (Except PubsubError PolicyDecision) :=
  if client.hasEventPolicy then checkEvent event source
  else pure (.ok (.allow sourcePriorityFipsEndpoint))

/-- A decision that lets the event in. -/
def admits : Except PubsubError PolicyDecision → Bool
  | .ok (.drop _) => false
  | .ok _ => true
  | .error _ => false

/-- `ClientInner::event_is_admitted`. -/
def eventIsAdmitted (event : VerifiedEvent nostr) (source : EventSource) : ClientThread nostr Bool := do
  let decision ← client.eventDecision event source
  return admits decision

/-- `ClientInner::record_provider_violation`. -/
def recordProviderViolation (peer : String) (violation : ProviderViolation) :
    ClientThread nostr Unit := do
  let nowMs ← nowMs
  let cooldown ← Thread.atomic fun s =>
    let (cooldown, behavior) := s.providerBehavior.record peer violation nowMs
    (cooldown, { s with providerBehavior := behavior })
  match cooldown with
  | none => return
  | some _ => client.sendCommand (.cooldown peer)

/-- `ClientInner::peer_is_in_cooldown`. -/
def peerIsInCooldown (peer : String) : ClientThread nostr Bool := do
  let nowMs ← nowMs
  Thread.atomic fun s =>
    let (cooling, behavior) := s.providerBehavior.isInCooldown peer nowMs
    (cooling, { s with providerBehavior := behavior })

/-! ## The peers for a live event -/

/-- The loop of `select_policy_peers`: what the policy knows of the peers. -/
def policyCandidates : List String → ClientThread nostr (Except PubsubError (List MeshPeer))
  | [] => pure (.ok [])
  | id :: rest => do
    match ← selectMeshPeer id with
    | .error error => return .error error
    | .ok candidate =>
      match ← policyCandidates rest with
      | .error error => return .error error
      | .ok candidates =>
        -- a policy scores an identity; it cannot replace it
        match candidate with
        | none => return .ok candidates
        | some candidate => return .ok ({ candidate with id } :: candidates)

/-- `format!("{:016x}:{}", hash, id)`. -/
def orderKey (hash : ℕ) (id : String) : String :=
  let digits := Nat.toDigits 16 hash
  String.ofList (List.replicate (16 - digits.length) '0' ++ digits) ++ ":" ++ id

/-- `select_policy_peers`, for a live event. -/
def selectPolicyPeers (ids : List String) (eventId : EventId) :
    ClientThread nostr (Except PubsubError (List String)) := do
  match ← policyCandidates ids with
  | .error error => return .error error
  | .ok candidates =>
    let keyed := candidates.map fun candidate =>
      (orderKey (client.orderHash eventId client.npub candidate.id) candidate.id, candidate)
    let selected := selectMeshPeers (keyed.map fun entry => { entry.2 with id := entry.1 }) none
      client.options.fanout client.unknownPeerReserve
    let authenticatedIds := keyed.map fun entry => (entry.1, entry.2.id)
    return .ok (selected.filterMap fun peer => authenticatedIds.lookup peer.id)

/-- The subscriptions of a peer that match an event, by their ids. -/
def matchingIds (set : PeerSubscriptionSet) (event : VerifiedEvent nostr) : List String :=
  (set.intoValues.filter fun subscription =>
    subscription.filters.any fun filter => filter.matchEvent event.event).map
      PubsubPeerSubscription.subscriptionId

/-- The loop of `peer_delivery_targets`. The subscriptions of one peer come one after the other. -/
def matchingTargets (store : PubsubPeerSubscriptionStore) (event : VerifiedEvent nostr)
    (excludedPeer : Option String) : List (String × List String) :=
  (Table.entriesAscending store.peers).filterMap fun entry =>
    if excludedPeer = some entry.1 then none
    else
      match matchingIds entry.2 event with
      | [] => none
      | ids => some (entry.1, ids)

/-- `bounded_delivery_targets`. -/
def boundedDeliveryTargets (targets : List (String × List String)) (eventId : EventId) :
    List (String × List String) :=
  if targets.length ≤ client.options.fanout then targets
  else
    (targets.insertionSort fun left right =>
      toLex (client.targetHash eventId left.1, left.1) ≤
        toLex (client.targetHash eventId right.1, right.1)).take client.options.fanout

/-- `ClientInner::peer_delivery_targets`. -/
def peerDeliveryTargets (event : VerifiedEvent nostr) (excludedPeer : Option String) :
    ClientThread nostr (Except PubsubError (List (String × List String))) := do
  let targets ← Thread.read fun s => matchingTargets s.peerSubscriptions event excludedPeer
  if client.hasPeerPolicy then
    match ← client.selectPolicyPeers (targets.map Prod.fst) event.event.id with
    | .error error => return .error error
    | .ok selected =>
      return .ok (selected.filterMap fun id => (targets.lookup id).map fun ids => (id, ids))
  else return .ok (client.boundedDeliveryTargets targets event.event.id)

end ClientSetup

end NostrPubsub.Fips
