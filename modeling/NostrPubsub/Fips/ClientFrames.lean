import NostrPubsub.Fips.Client

/-!
# Frames from peers

What a client does with a frame that the transport brings: `handle_frame` and the functions that it
calls (`client_inner.rs`, `client_received_event.rs`, `recent_events.rs`, `replay_source.rs`,
`anonymous_publication.rs`).
-/

namespace NostrPubsub.Fips.ClientSetup

open Threads

variable {nostr : NostrCrate} (client : ClientSetup)

/-! ## Requests for history -/

/-- `ClientInner::remember_peer_subscription`. -/
def rememberPeerSubscription (peer subscriptionId : String) (filters : List WireFilter) :
    ClientThread nostr (Except PubsubError Unit) :=
  .atomic fun s =>
    let (result, store) := s.peerSubscriptions.upsertFilters client.subscriptionJson peer
      subscriptionId (client.toFilters filters)
    (result.map fun _ => (), { s with peerSubscriptions := store })

/-- `PubsubPeerSubscriptionStore::peer_filter_count`. -/
def peerFilterCount (store : PubsubPeerSubscriptionStore) (peer : String) : ℕ :=
  (store.peers.lookup peer).elim 0 fun set =>
    (set.intoValues.map fun subscription => subscription.filters.length).sum

/-- `ClientInner::queue_replay`. -/
def queueReplay (peer : String) (query : ReplayQuery) : ClientThread nostr Bool := do
  -- a peer without subscriptions gets no history
  let count ← Thread.read fun s => peerFilterCount s.peerSubscriptions peer
  if count = 0 then return false
  else
    match ← Thread.read ClientInner.replaySource with
    | none => return false
    | some source =>
      Thread.atomic fun s =>
        if s.replays.length < client.replayCapacity then
          (true, { s with replays := s.replays ++ [⟨peer, source, query⟩] })
        else (false, s)

/-- The loop of `handle_req`: the events that were advertised. -/
def advertiseLoop (peer subscriptionId : String) :
    List (CachedEvent nostr) → List EventId → ClientThread nostr (List EventId)
  | [], excluded => pure excluded
  | cached :: rest, excluded => do
    match ← client.inventoryFrame [subscriptionId] cached.event cached.hopLimit with
    | .error _ => advertiseLoop peer subscriptionId rest excluded
    | .ok frame =>
      let _ ← client.sendFrame peer frame
      advertiseLoop peer subscriptionId rest (excluded ++ [cached.id])

/-- `ClientInner::handle_req`. -/
def handleReq (peer subscriptionId : String) (filters : List WireFilter) : ClientThread nostr Unit := do
  match ← client.rememberPeerSubscription peer subscriptionId filters with
  | .error _ => return
  | .ok () =>
    let limit := queryLimit (client.toFilters filters) client.options.maxReplayEvents
    let cached ← Thread.read fun s => s.recentEvents.replayable (client.toFilters filters)
    let excluded ← client.advertiseLoop peer subscriptionId (cached.take limit) []
    if excluded.length < limit then
      let _ ← client.queueReplay peer
        (.subscription subscriptionId (client.toFilters filters) excluded limit)

/-- `ClientInner::handle_close`. -/
def handleClose (peer subscriptionId : String) : ClientThread nostr Unit :=
  .modify fun s =>
    { s with
      peerSubscriptions :=
        (s.peerSubscriptions.remove client.subscriptionJson peer subscriptionId).2 }

/-! ## Local delivery -/

/-- `deliver_local`, for the subscription under a key. -/
def deliverLocal (key : String) (event : VerifiedEvent nostr) (source : EventSource)
    (s : ClientInner nostr) : Bool × ClientInner nostr :=
  match s.deliveries.lookup key with
  | none => (false, s)
  | some delivery =>
    let (delivered, delivery) := delivery.enqueue ⟨event, source, sourcePriorityFipsEndpoint⟩
    (delivered, { s with deliveries := s.deliveries.insert key delivery })

/-- `active.delivery.contains(id)`, for the subscription under a key. -/
def deliveryContains (s : ClientInner nostr) (key eventId : String) : Bool :=
  (s.deliveries.lookup key).any fun delivery => delivery.contains eventId

/-- `active.delivery.status() == Lagged`, for the subscription under a key. -/
def isLagged (s : ClientInner nostr) (key : String) : Bool :=
  (s.deliveries.lookup key).any fun delivery => decide (delivery.state.status = .lagged)

/-- `PubsubPeerInterest::from_filters` is `Subscribed`. -/
def wants (filters : List WireFilter) (event : VerifiedEvent nostr) : Bool :=
  filtersMatch client.criteria filters event.event

/-- The loop of `deliver_local_event`: whether a subscription took the event, and those that lag. -/
def deliverLoop (peer : String) (event : VerifiedEvent nostr) :
    List (String × ActiveSubscription) → Bool × List String → ClientInner nostr →
      (Bool × List String) × ClientInner nostr
  | [], result, s => (result, s)
  | (key, active) :: rest, (delivered, lagged), s =>
    -- a peer that was not asked under the subscription does not reach it
    if peer ∉ active.peers ∨ client.wants active.filters event = false
        ∨ deliveryContains s key event.event.id.toHex then
      deliverLoop peer event rest (delivered, lagged) s
    else
      let (taken, s) := deliverLocal key event (.ofFipsEndpoint peer) s
      let lagged := if isLagged s key then lagged ++ [key] else lagged
      deliverLoop peer event rest (delivered || taken, lagged) s

/-- The subscriptions in the order of the hash map. -/
def activeSubscriptions (s : ClientInner nostr) : List (String × ActiveSubscription) :=
  (client.subscriptionOrder.visit s.subscriptions).map fun entry => (entry.1, entry.2)

/-- `ClientInner::deliver_local_event`. -/
def deliverLocalEvent (peer : String) (event : VerifiedEvent nostr) : ClientThread nostr Bool := do
  let (delivered, lagged) ← Thread.atomic fun s =>
    client.deliverLoop peer event (client.activeSubscriptions s) (false, []) s
  Thread.each lagged client.closeSubscription
  return delivered

/-! ## Events -/

/-- `ClientInner::remember_event`. -/
def rememberEvent (event : VerifiedEvent nostr) (source : EventSource) (hopLimit : UInt8) :
    ClientThread nostr Bool :=
  .atomic fun s =>
    let (isNew, recent) := s.recentEvents.insert event source hopLimit
    (isNew, { s with recentEvents := recent })

/-- A subscription of the application that the peer was told of and that asks for the event. -/
def takesFrom (peer : String) (event : VerifiedEvent nostr) (active : ActiveSubscription) : Bool :=
  decide (peer ∈ active.peers) && client.wants active.filters event

/-- `ClientInner::event_matches_subscription`. -/
def eventMatchesSubscription (peer : String) (subscriptionId : Option String)
    (event : VerifiedEvent nostr) : ClientThread nostr Bool :=
  .read fun s =>
    match subscriptionId with
    | some subscriptionId =>
      (s.subscriptions.lookup subscriptionId).any fun active => client.takesFrom peer event active
    | none => (client.activeSubscriptions s).any fun entry => client.takesFrom peer event entry.2

/-- `ClientInner::fresh_response_subscription`, of the state. -/
def freshSubscription (s : ClientInner nostr) (peer : String) (event : VerifiedEvent nostr) :
    Option String := do
  let id := event.event.id.toHex
  let request ← s.pendingWants.entries.lookup id
  let provider ← request.requestedProvider peer
  let payloadBytes ← (eventPayloadBytes event).toOption
  if request.eventKind ≠ event.event.kind ∨ request.payloadBytes ≠ payloadBytes.toNat then none
  else
    provider.subscriptionIds.find? fun subscriptionId =>
      (s.subscriptions.lookup subscriptionId).any fun active =>
        active.fresh && client.takesFrom peer event active && !deliveryContains s subscriptionId id

/-- `ClientInner::complete_want`: the hop limit that is left of the inventory. -/
def completeWant (peer subscriptionId : String) (event : VerifiedEvent nostr) :
    ClientThread nostr (Except PubsubError (Option UInt8)) := do
  match eventPayloadBytes event with
  | .error error => return .error error
  | .ok payloadBytes =>
    let taken ← Thread.read fun s =>
      (s.subscriptions.lookup subscriptionId).any fun active => client.takesFrom peer event active
    if ¬ taken then return .ok none
    else
      let pending ← Thread.atomic fun s =>
        let (pending, wants) := s.pendingWants.takeMatching event.event.id.toHex peer subscriptionId
          event.event.kind payloadBytes.toNat
        (pending, { s with pendingWants := wants })
      return .ok (pending.map fun pending => .ofNat (pending.hopLimit - 1))

/-- The first part of `handle_event`: the hop limit that the event arrives with. -/
def arrivalHops (peer : String) (subscriptionId : Option String) (event : VerifiedEvent nostr) :
    ClientThread nostr UInt8 := do
  match subscriptionId with
  | none => return client.options.maxHops
  | some subscriptionId =>
    match ← client.completeWant peer subscriptionId event with
    | .ok (some hopLimit) => return hopLimit
    -- it may still be delivered, but goes no further
    | _ => return 0

/-- An event from a peer is advertised to the others. -/
def advertise (event : VerifiedEvent nostr) (peer : String) (hopLimit : UInt8) :
    ClientThread nostr Unit := do
  match ← client.peerDeliveryTargets event (some peer) with
  | .error _ => return
  | .ok targets => let _ ← client.sendInventories targets event hopLimit

/-- An event is cached and, if it is new and has hops left, advertised. -/
def forwardEvent (event : VerifiedEvent nostr) (peer : String) (hopLimit : UInt8) :
    ClientThread nostr Unit := do
  let isNew ← rememberEvent event (.ofFipsEndpoint peer) hopLimit
  if isNew ∧ 0 < hopLimit then client.advertise event peer hopLimit

/-- `ClientInner::handle_event`. -/
def handleEvent (peer : String) (subscriptionId : Option String) (event : VerifiedEvent nostr) :
    ClientThread nostr Unit := do
  let hopLimit ← client.arrivalHops peer subscriptionId event
  let delivered ← client.deliverLocalEvent peer event
  if delivered then client.forwardEvent event peer hopLimit

/-- The part of `accept_publication` for an event that the policy admitted. -/
def takePublication (peer : String) (event : VerifiedEvent nostr) : ClientThread nostr Unit := do
  let _ ← client.deliverLocalEvent peer event
  let isNew ← rememberEvent event (.ofFipsEndpoint peer) client.options.maxHops
  if isNew then client.advertise event peer client.options.maxHops

/-- The receipt of `accept_publication`. -/
def sendReceipt (peer : String) (eventId : EventId) (accepted : Bool) : ClientThread nostr Unit :=
  match @encode nostr client
      (.ok eventId accepted (if accepted then "" else "blocked: event policy")) with
  | .error _ => return
  | .ok frame => do let _ ← client.sendFrame peer frame

/-- `ClientInner::accept_publication`. -/
def acceptPublication (peer : String) (event : VerifiedEvent nostr) : ClientThread nostr Unit := do
  let accepted ← client.eventIsAdmitted event (.ofFipsEndpoint peer)
  if accepted then
    client.takePublication peer event
    client.sendReceipt peer event.event.id true
  else client.sendReceipt peer event.event.id false

/-- `handle_received_event` after its observation: a new event that an open subscription asks for. -/
def admitReceived (peer : String) (responseId : Option String) (event : VerifiedEvent nostr) :
    ClientThread nostr Unit := do
  let admitted ← client.eventIsAdmitted event (.ofFipsEndpoint peer)
  if admitted then client.handleEvent peer responseId event

/-- The subscription that answers a fresh request, for an event that is subscribed to. -/
def freshResponse (peer : String) (subscriptionId : Option String) (event : VerifiedEvent nostr)
    (isSubscribed : Bool) : ClientThread nostr (Option String) :=
  if isSubscribed ∧ subscriptionId ≠ none then .read fun s => client.freshSubscription s peer event
  else pure none

/-- `observed_full_events.observe_response`. -/
def observeResponse (peer : String) (subscriptionId responseId : Option String)
    (event : VerifiedEvent nostr) (isSubscribed : Bool) : ClientThread nostr Observation :=
  .atomic fun s =>
    let (observation, seen) := s.observedFullEvents.observeResponse peer subscriptionId
      (responseId.getD "") event.event.id.toHex isSubscribed
    (observation, { s with observedFullEvents := seen })

/-- `ClientInner::handle_received_event`. -/
def handleReceivedEvent (peer : String) (subscriptionId : Option String)
    (event : VerifiedEvent nostr) : ClientThread nostr Unit := do
  if subscriptionId = none ∧ client.options.acceptAnonymousPublications then
    client.acceptPublication peer event
  else
    let isSubscribed ← client.eventMatchesSubscription peer subscriptionId event
    let freshId ← client.freshResponse peer subscriptionId event isSubscribed
    let responseId := freshId.or subscriptionId
    let observation ← observeResponse peer subscriptionId responseId event isSubscribed
    if ¬ isSubscribed then
      -- the answer to a request that was closed meanwhile is harmless
      if ¬ observation.previouslyMatched then
        client.recordProviderViolation peer (.outOfFilterEvent (!observation.first))
    else if observation.first then client.admitReceived peer responseId event

/-! ## Inventories -/

/-- `InventoryAdvertisement`. -/
structure InventoryAdvertisement where
  subscriptionIds : List String
  eventId : EventId
  eventKind : UInt16
  payloadBytes : UInt32
  hopLimit : UInt8

/-- The request that `accept_inventory` inserts. -/
def InventoryAdvertisement.announcement (inventory : InventoryAdvertisement) (peer : String)
    (subscriptionIds : List String) (requestedAtMs : ℕ) (nonempty : subscriptionIds ≠ [])
    (nodup : subscriptionIds.Nodup) : Announcement where
  eventId := inventory.eventId.toHex
  peerNpub := peer
  subscriptionIds
  eventKind := inventory.eventKind.toNat
  payloadBytes := inventory.payloadBytes.toNat
  hopLimit := inventory.hopLimit.toNat
  requestedAtMs
  nonempty
  nodup

/-- The subscriptions that an inventory may be requested for. -/
def candidateSubscriptions (s : ClientInner nostr) (peer eventId : String) (alreadySeen : Bool)
    (subscriptionIds : List String) : List String :=
  subscriptionIds.filter fun subscriptionId =>
    (s.subscriptions.lookup subscriptionId).any fun active =>
      decide (peer ∈ active.peers) && (!alreadySeen || active.fresh) &&
        !deliveryContains s subscriptionId eventId

/-- The subscriptions under which the inventory is observed for the first time. -/
def observeInventories (peer eventId : String) :
    List String → ScopedSeenIds → List String × ScopedSeenIds
  | [], seen => ([], seen)
  | subscriptionId :: rest, seen =>
    let (isNew, seen) := seen.observe peer subscriptionId eventId
    let (valid, seen) := observeInventories peer eventId rest seen
    (if isNew then subscriptionId :: valid else valid, seen)

/-- `ClientInner::accept_inventory`. A decoded inventory names no subscription twice. -/
def acceptInventory (peer : String) (inventory : InventoryAdvertisement) :
    ClientThread nostr (Except PubsubError (Option Frame)) := do
  if satAdd client.options.maxActiveSubscriptions 1 < inventory.subscriptionIds.length then
    return .ok none
  else
    let alreadySeen ← Thread.read fun s => decide (inventory.eventId ∈ s.recentEvents.eventIds)
    let candidates ← Thread.read fun s =>
      candidateSubscriptions s peer inventory.eventId.toHex alreadySeen inventory.subscriptionIds
    -- another thread may have observed the same inventory since the candidates were read
    let valid ← Thread.atomic fun s =>
      let (valid, seen) :=
        observeInventories peer inventory.eventId.toHex candidates s.observedInventories
      (valid, { s with observedInventories := seen })
    if h : valid ≠ [] ∧ valid.Nodup then
      let requestedAtMs ← nowMs
      let shouldRequest ← Thread.atomic fun s =>
        let (requested, wants) := s.pendingWants.insert
          (inventory.announcement peer valid requestedAtMs h.1 h.2)
        (requested, { s with pendingWants := wants })
      if shouldRequest then
        return (@encode nostr client (.want inventory.eventId)).map some
      else return .ok none
    else return .ok none

/-- The loop of `handle_inv` over the subscriptions that a cached event is fresh for. -/
def deliverFreshLoop (peer : String) (event : VerifiedEvent nostr) :
    List String → List String → ClientInner nostr → List String × ClientInner nostr
  | [], lagged, s => (lagged, s)
  | key :: rest, lagged, s =>
    match s.subscriptions.lookup key with
    | none => deliverFreshLoop peer event rest lagged s
    | some active =>
      if active.fresh && client.takesFrom peer event active
          && !deliveryContains s key event.event.id.toHex then
        let s := (deliverLocal key event (.ofFipsEndpoint peer) s).2
        deliverFreshLoop peer event rest (if isLagged s key then lagged ++ [key] else lagged) s
      else deliverFreshLoop peer event rest lagged s

/-- The part of `handle_inv` for an event with a cached body. -/
def handleCachedInv (peer : String) (inventory : InventoryAdvertisement)
    (event : VerifiedEvent nostr) : ClientThread nostr Unit := do
  if event.event.kind ≠ inventory.eventKind.toNat
      ∨ (eventPayloadBytes event).toOption ≠ some inventory.payloadBytes then return
  else
    let admitted ← client.eventIsAdmitted event (.ofFipsEndpoint peer)
    if admitted then
      let lagged ← Thread.atomic fun s =>
        client.deliverFreshLoop peer event inventory.subscriptionIds [] s
      Thread.each lagged client.closeSubscription

/-- `ClientInner::handle_inv`. -/
def handleInv (peer : String) (inventory : InventoryAdvertisement) : ClientThread nostr Unit := do
  if satAdd client.options.maxActiveSubscriptions 1 < inventory.subscriptionIds.length then return
  else
    match ← Thread.read fun s => s.recentEvents.event inventory.eventId with
    | some event => client.handleCachedInv peer inventory event
    | none =>
      match ← client.acceptInventory peer inventory with
      | .ok (some frame) => let _ ← client.sendFrame peer frame
      -- refused, or requested from another provider
      | _ => return

/-! ## Requests for bodies -/

/-- `ClientInner::event_for_want`. -/
def eventForWant (peer : String) (eventId : EventId) :
    ClientThread nostr (Option (String × VerifiedEvent nostr)) := do
  match ← Thread.read fun s => s.recentEvents.event eventId with
  | none => return none
  | some event =>
    Thread.read fun s =>
      (matchingSubscriptions s.peerSubscriptions peer event).head?.map fun subscription =>
        (subscription.subscriptionId, event)

/-- `ClientInner::handle_want`. -/
def handleWant (peer : String) (eventId : EventId) : ClientThread nostr Unit := do
  match ← eventForWant peer eventId with
  | none => let _ ← client.queueReplay peer (.event eventId)
  | some (subscriptionId, event) =>
    match @encode nostr client (.event (some subscriptionId) event) with
    | .error _ => return
    | .ok frame => let _ ← client.sendFrame peer frame

/-! ## Receipts -/

/-- `ClientInner::handle_publication_receipt`. -/
def handleReceipt (peer : String) (eventId : EventId) (accepted : Bool) (message : String) :
    ClientThread nostr Unit :=
  .modify fun s =>
    let (sent, publications) :=
      handlePublicationReceipt peer eventId accepted message s.publications
    { s with
      publications
      receipts := match sent with
        | some result => s.receipts ++ [(eventId, result)]
        | none => s.receipts }

/-- `ClientInner::handle_frame`. -/
def handleFrame (peer : String) (frame : Frame) : ClientThread nostr Unit :=
  match @decode nostr client frame with
  | .error _ => client.recordProviderViolation peer .malformedFrame
  | .ok (.ok eventId accepted message) => handleReceipt peer eventId accepted message
  | .ok (.req subscriptionId filters) => client.handleReq peer subscriptionId filters
  | .ok (.close subscriptionId) => client.handleClose peer subscriptionId
  | .ok (.event subscriptionId event) => client.handleReceivedEvent peer subscriptionId event
  | .ok (.inv subscriptionIds eventId eventKind payloadBytes hopLimit) =>
    client.handleInv peer { subscriptionIds, eventId, eventKind, payloadBytes, hopLimit }
  | .ok (.want eventId) => client.handleWant peer eventId

end NostrPubsub.Fips.ClientSetup
