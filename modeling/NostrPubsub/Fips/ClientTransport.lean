import NostrPubsub.Fips.ClientFrames

/-!
# The transport, the store and the application

The threads of a client: the turns of `transport_loop` (`client_transport.rs`), the workers that
serve history from a store (`replay_source.rs`), and the calls of the application (`subscribe`,
`publish`, `publish_once`, `close`, `shutdown`). `ClientSetup.program` is the thread that an `Input`
starts.

The turns of the transport come one after the other in the source; here they may overlap as well.
-/

namespace NostrPubsub.Fips

open Threads

variable {nostr : NostrCrate}

/-- `WireTcpReport`, as far as `process_wire_report` hands it to the client. -/
structure ClientReport where
  disconnected : List String
  newlyConnected : List String
  frames : List (String × Frame)

namespace ClientSetup

variable (client : ClientSetup)

/-! ## Peers that come and go -/

/-- `ClientInner::reset_peer_epoch`. -/
def resetPeerEpoch (peer : String) : ClientThread nostr Unit := do
  Thread.modify fun s => { s with observedInventories := s.observedInventories.clearPeer peer }
  Thread.modify fun s => { s with observedFullEvents := s.observedFullEvents.clearPeer peer }
  let nowMs ← nowMsOfEach
  Thread.modify fun s => { s with pendingWants := s.pendingWants.removePeer peer nowMs }

/-- `forget_peer_state`. -/
def forgetPeerState (peer : String) : ClientThread nostr Unit := do
  resetPeerEpoch peer
  Thread.modify fun s =>
    { s with peerSubscriptions := (s.peerSubscriptions.removePeer client.subscriptionJson peer).2 }
  Thread.modify fun s =>
    { s with
      subscriptions := s.subscriptions.filterMapValues fun _ active =>
        some { active with peers := active.peers.erase peer } }

/-- `ClientInner::replay_frames_for_peer`. -/
def replayFramesForPeer (peer : String) : ClientThread nostr (List Frame) :=
  .atomic fun s =>
    let frames := (client.activeSubscriptions s).filterMap fun entry =>
      (@encode nostr client (.req entry.1 entry.2.filters)).toOption
    (frames, { s with
      subscriptions := s.subscriptions.filterMapValues fun _ active =>
        some { active with peers := insert peer active.peers } })

/-- `WireTcpDriver::queue_frame`, for its effect. -/
def queueFrame (peer : String) (frame : Frame) : ClientThread nostr (Except PubsubError Unit) :=
  Thread.request (Request.queueFrame peer frame)

/-- `let _ = driver.queue_frame(..)`. -/
def pushFrame (peer : String) (frame : Frame) : ClientThread nostr Unit := do
  let _ ← queueFrame peer frame

/-- `WireTcpDriver::connect_peer`. -/
def connectPeer (peer : String) : ClientThread nostr Unit := Thread.request (Request.connectPeer peer)

/-- `WireTcpDriver::forget_peer`. -/
def forgetPeer (peer : String) : ClientThread nostr Unit := Thread.request (Request.forgetPeer peer)

/-- The application gets an event. -/
def handOver (key : String) (event : QueryEvent nostr) : ClientThread nostr Unit :=
  Thread.request (Request.handOver key event)

/-- `WireTcpDriver::is_inbound`. -/
def isInbound (peer : String) : ClientThread nostr Bool := Thread.request (Request.isInbound peer)

/-- `WireTcpDriver::select_peers`. -/
def selectPeers (peers : List String) : ClientThread nostr (List String) :=
  Thread.request (Request.selectPeers peers)

/-- `WireTcpDriver::due_service_peers`. -/
def dueServicePeers : ClientThread nostr (List String) := Thread.request Request.dueServicePeers

/-- `EventBus::query` of a store. -/
def queryStore (source : ℕ) (filters : List Filter) (limit : ℕ) :
    ClientThread nostr (QueryReport nostr) :=
  Thread.request (Request.query source filters limit)

/-- The subscriptions are replayed to a peer. -/
def queueReplayFrames (peer : String) : ClientThread nostr Unit := do
  let frames ← client.replayFramesForPeer peer
  Thread.each frames (pushFrame peer)

/-- `forget_cooled_peer`. -/
def forgetCooledPeer (peer : String) : ClientThread nostr Unit := do
  Thread.modify fun s => { s with knownLinks := s.knownLinks.erase peer }
  client.forgetPeerState peer
  forgetPeer peer

/-! ## Requests that are due -/

/-- `query_timeout.as_millis()`. -/
def retryAfterMs : ℕ := min (client.options.queryTimeout / 10 ^ 6) u64Max

/-- The frames of `retry_pending_frames`. -/
def retryFrames (retries : List (String × InventoryProvider)) : List (String × Frame) :=
  retries.filterMap fun retry => do
    let eventId ← (client.json.eventIdFromHex retry.1).toOption
    let frame ← (@encode nostr client (.want eventId)).toOption
    return (retry.2.peerNpub, frame)

/-- `ClientInner::retry_pending_frames`. -/
def retryPendingFrames : ClientThread nostr (List (String × Frame)) := do
  let nowMs ← nowMs
  let due ← Thread.atomic fun s =>
    let (due, wants) := s.pendingWants.retryDue client.wantOrder nowMs client.retryAfterMs
    (due, { s with pendingWants := wants })
  Thread.each due.expiredProviders fun provider =>
    client.recordProviderViolation provider.peerNpub .unansweredInventory
  return @retryFrames nostr client due.retries

/-! ## Turns of the transport -/

/-- The subscriptions are replayed on a stream that this side opened. -/
def greetPeer (peer : String) : ClientThread nostr Unit := do
  let inbound ← isInbound peer
  if ¬ inbound then client.queueReplayFrames peer

/-- The turn of `process_wire_report` for a peer that just connected: the peers that are cooling. -/
def processConnected (disconnected : List String) (peer : String) (cooled : List String) :
    ClientThread nostr (List String) := do
  if peer ∈ disconnected then return cooled
  else
    let cooling ← peerIsInCooldown peer
    if cooling then
      client.forgetPeerState peer
      forgetPeer peer
      return peer :: cooled
    else
      -- a new stream is a new epoch: what the peer sent on the old one counts no more
      resetPeerEpoch peer
      client.greetPeer peer
      return cooled

/-- The loop of `process_wire_report` over the peers that just connected. -/
def connectedLoop (disconnected : List String) :
    List String → List String → ClientThread nostr (List String)
  | [], cooled => pure cooled
  | peer :: rest, cooled => do
    let cooled ← client.processConnected disconnected peer cooled
    connectedLoop disconnected rest cooled

/-- `cooled_peers.contains(npub) || peer_is_in_cooldown(npub)`. -/
def isCooling (cooled : List String) (peer : String) : ClientThread nostr Bool :=
  if peer ∈ cooled then pure true else peerIsInCooldown peer

/-- The turn of `process_wire_report` for a frame. -/
def processFrame (disconnected : List String) (peer : String) (frame : Frame) (cooled : List String) :
    ClientThread nostr (List String) := do
  if peer ∈ disconnected then return cooled
  else
    let cooling ← isCooling cooled peer
    if cooling then
      if peer ∈ cooled then return cooled
      else
        client.forgetPeerState peer
        forgetPeer peer
        return peer :: cooled
    else
      client.handleFrame peer frame
      return cooled

/-- The loop of `process_wire_report` over the frames. -/
def framesLoop (disconnected : List String) :
    List (String × Frame) → List String → ClientThread nostr Unit
  | [], _ => pure ()
  | (peer, frame) :: rest, cooled => do
    let cooled ← client.processFrame disconnected peer frame cooled
    framesLoop disconnected rest cooled

/-- `process_wire_report`. -/
def processWireReport (report : ClientReport) : ClientThread nostr Unit := do
  Thread.each report.disconnected client.forgetPeerState
  let cooled ← client.connectedLoop report.disconnected report.newlyConnected []
  client.framesLoop report.disconnected report.frames cooled
  let retries ← client.retryPendingFrames
  Thread.each retries fun retry => pushFrame retry.1 retry.2

/-- The turn of `finish_ready_turn` for a command. -/
def runCommand : TransportCommand → ClientThread nostr Unit
  | .send peer frame => do
    -- the peer may have been sent into cooldown since the command was queued
    let cooling ← peerIsInCooldown peer
    if ¬ cooling then
      match ← queueFrame peer frame with
      | .error _ => return
      | .ok () => connectPeer peer
  | .cooldown peer => client.forgetCooledPeer peer

/-- The loop of `finish_ready_turn`. -/
def commandLoop : ℕ → ClientThread nostr Unit
  | 0 => pure ()
  | batch + 1 => do
    let command ← Thread.atomic fun s =>
      (s.commands.head?, { s with commands := s.commands.tail })
    match command with
    | none => return
    | some command =>
      client.runCommand command
      commandLoop batch

/-- `finish_ready_turn`. -/
def finishReadyTurn : ClientThread nostr Unit := do
  client.commandLoop client.options.receiveBatchSize
  Thread.request Request.flushQueues

/-- The turn of `retry_due_services` for a peer. -/
def retryService (peer : String) : ClientThread nostr Unit := do
  let cooling ← peerIsInCooldown peer
  if cooling then client.forgetCooledPeer peer else connectPeer peer

/-- `retry_due_services`. -/
def retryDueServices : ClientThread nostr Unit := do
  let peers ← dueServicePeers
  Thread.each peers client.retryService

/-- The links whose peers are not cooling, for the first step of `sync_transport_peers`. -/
def warmLinks : List ConnectedPeerLink → ClientThread nostr (List ConnectedPeerLink)
  | [] => pure []
  | link :: rest => do
    let cooling ← peerIsInCooldown link.npub
    let warm ← warmLinks rest
    return if cooling then warm else link :: warm

/-- The known peers whose link changed or went away. -/
def changedPeers (known next : Table PeerLinkEpoch) : List String :=
  (client.linkOrder.visit known).filterMap fun entry =>
    if (next.lookup entry.1).all fun link => link.requiresReset entry.2 then some entry.1 else none

/-- A peer that the selection newly includes, or drops. -/
def reselectPeer (next : Table PeerLinkEpoch) (peer : String) : ClientThread nostr Unit :=
  if peer ∈ next then client.queueReplayFrames peer else client.forgetPeerState peer

/-- A known peer whose link changed. -/
def relinkPeer (next : Table PeerLinkEpoch) (peer : String) : ClientThread nostr Unit :=
  if peer ∈ next then Thread.request (Request.abortPeer peer) else client.forgetPeerState peer

/-- A local service that was not known under this link. -/
def discoverService (known : Table PeerLinkEpoch) (link : ConnectedPeerLink) :
    ClientThread nostr Unit :=
  if link.linkId.isLocalService ∧ known.lookup link.npub ≠ some link.linkId then
    Thread.request (Request.serviceDiscovered link.npub)
  else pure ()

/-- The last turn of `sync_transport_peers` for a link. -/
def connectLink (known : Table PeerLinkEpoch) (link : ConnectedPeerLink) :
    ClientThread nostr Unit := do
  let cooling ← peerIsInCooldown link.npub
  if ¬ cooling then
    discoverService known link
    connectPeer link.npub

/-- `sync_transport_peers`. -/
def syncTransportPeers : ClientThread nostr Unit := do
  match ← connectedPeerLinks with
  | .error _ => return
  | .ok links =>
    let warm ← warmLinks links
    let next : Table PeerLinkEpoch :=
      warm.foldl (fun table link => table.insert link.npub link.linkId) ∅
    let known ← Thread.read ClientInner.knownLinks
    let changed := client.changedPeers known next
    -- an inbound stream that became an outgoing peer gets our subscriptions as well
    let selected ← selectPeers (warm.map ConnectedPeerLink.npub)
    Thread.each selected (client.reselectPeer next)
    Thread.each changed (client.relinkPeer next)
    Thread.each links (connectLink known)
    Thread.modify fun s => { s with knownLinks := next }

/-! ## History from the store -/

/-- The frame of a turn of `serve`. -/
def serveFrame (peer : String) (query : ReplayQuery) (event : VerifiedEvent nostr) :
    ClientThread nostr (Except PubsubError (Option Frame)) := do
  let found ← Thread.read fun s => matchingSubscriptions s.peerSubscriptions peer event
  match query with
  | .subscription id _ _ _ =>
    if found.any fun subscription => subscription.subscriptionId = id then
      return (← client.inventoryFrame [id] event client.options.maxHops).map some
    else return .ok none
  | .event eventId =>
    match found with
    | [] => return .ok none
    | subscription :: _ =>
      if event.event.id ≠ eventId then return .ok none
      else
        return (@encode nostr client (.event (some subscription.subscriptionId) event)).map some

/-- The loop of `serve`. -/
def serveLoop (request : ReplayRequest) :
    List (VerifiedEvent nostr × EventSource) → ClientThread nostr Unit
  | [] => pure ()
  | (event, source) :: rest => do
    let admitted ← client.eventIsAdmitted event source
    if ¬ admitted then serveLoop request rest
    else
      match ← admitCall with
      | .error _ => return
      | .ok () =>
        -- a store that was replaced meanwhile is served no longer
        let current ← Thread.read ClientInner.replaySource
        if current ≠ some request.source then return
        else
          match ← client.serveFrame request.peer request.query event with
          | .ok (some frame) =>
            let _ ← client.sendFrame request.peer frame
            serveLoop request rest
          | _ => serveLoop request rest

/-- `serve`. -/
def serve (request : ReplayRequest) : ClientThread nostr Unit := do
  let limit := request.query.limit
  if limit = 0 then return
  else
    let report ← queryStore request.source request.query.filters limit
    client.serveLoop request (boundedEvents report request.query.filters request.query limit)

/-- A turn of `worker`. -/
def worker : ClientThread nostr Unit := do
  let request ← Thread.atomic fun s => (s.replays.head?, { s with replays := s.replays.tail })
  match request with
  | none => return
  | some request => client.serve request

/-! ## Calls of the application -/

/-- `filter.limit.unwrap_or(max).min(max)`, of every filter. -/
def limitFilters (filters : List WireFilter) : List WireFilter :=
  filters.map fun filter =>
    { filter with
      limit := some (min (filter.limit.getD client.options.maxReplayEvents)
        client.options.maxReplayEvents) }

/-- The filters that `subscribe` goes on with: those of the caller, or one for every event. -/
def subscribedFilters (filters : List WireFilter) : List WireFilter :=
  if filters.isEmpty then [{}] else filters

/-- The checks of `subscribe` on its filters. -/
def checkFilters (filters : List WireFilter) : Except PubsubError Unit := do
  if client.options.maxFiltersPerSubscription < filters.length then
    throw (.validation s!"FIPS pubsub filter count {filters.length} exceeds limit {client.options.maxFiltersPerSubscription}")
  client.role.validateFilters client.advert filters

/-- The error of `subscribe` for one subscription too many. -/
def subscriptionLimit : PubsubError :=
  .storage s!"application FIPS pubsub subscription limit is {client.options.maxActiveSubscriptions}"

/-- `subscriptions.insert` in `subscribe`. -/
def insertSubscription (key : String) (filters : List WireFilter) (fresh : Bool)
    (peers : List String) : ClientThread nostr (Except PubsubError Unit) :=
  .atomic fun s =>
    -- one more than the application may have, for the client's own peer finding
    if satAdd client.options.maxActiveSubscriptions 1 ≤ s.subscriptions.size then
      (.error client.subscriptionLimit, s)
    else
      (.ok (), { s with
        subscriptions := s.subscriptions.insert key { filters, fresh, peers := peers.toFinset }
        deliveries := s.deliveries.insert key (.new client.options.maxReplayEvents) })

/-- The loop of `replay_local_events`. -/
def replayLocalLoop (key : String) (filters : List WireFilter) :
    List (CachedEvent nostr) → ClientInner nostr → ClientInner nostr
  | [], s => s
  | cached :: rest, s =>
    if client.wants filters cached.event then
      replayLocalLoop key filters rest (deliverLocal key cached.event cached.source s).2
    else replayLocalLoop key filters rest s

/-- `ClientInner::replay_local_events`. -/
def replayLocalEvents (key : String) : ClientThread nostr Unit := do
  let recent ← Thread.read fun s => s.recentEvents.entries
  let lagged ← Thread.atomic fun s =>
    match s.subscriptions.lookup key with
    | none => (false, s)
    | some active =>
      let s := client.replayLocalLoop key active.filters recent s
      (isLagged s key, s)
  if lagged then client.closeSubscription key

/-- The events of the cache, unless the subscription is to be fresh. -/
def replayUnlessFresh (key : String) (replayLocal : Bool) : ClientThread nostr Unit :=
  if replayLocal then client.replayLocalEvents key else pure ()

/-- `no_connected_peers`. -/
def noConnectedPeers : PubsubError :=
  let scope := client.peerTransport.elim "" fun transport => " " ++ transport
  .storage s!"no connected{scope} FIPS pubsub peers"

/-- The loop of `subscribe` over the connected peers: how many requests were queued, and the last
error. -/
def requestLoop (key : String) (frame : Frame) :
    List String → ℕ → Option PubsubError → ClientThread nostr (ℕ × Option PubsubError)
  | [], sent, lastError => pure (sent, lastError)
  | peer :: rest, sent, lastError => do
    match ← client.sendFrame peer frame with
    | .ok () => requestLoop key frame rest (sent + 1) lastError
    | .error error =>
      Thread.modify fun s =>
        match s.subscriptions.lookup key with
        | some active =>
          { s with
            subscriptions := s.subscriptions.insert key
              { active with peers := active.peers.erase peer } }
        | none => s
      requestLoop key frame rest sent (some error)

/-- The part of `subscribe` after its checks. -/
def openSubscription (filters : List WireFilter) (replayLocal : Bool) (peers : List String) :
    ClientThread nostr (Except PubsubError String) := do
  let sequence ← Thread.atomic fun s =>
    -- `fetch_add` of an `AtomicU64` wraps
    (s.nextSubscriptionId, { s with nextSubscriptionId := (s.nextSubscriptionId + 1) % 2 ^ 64 })
  let key := s!"fips-{sequence}"
  match @encode nostr client (.req key filters) with
  | .error error => return .error error
  | .ok frame =>
    match ← client.insertSubscription key filters (!replayLocal) peers with
    | .error error => return .error error
    | .ok () =>
      client.replayUnlessFresh key replayLocal
      let (sent, lastError) ← client.requestLoop key frame peers 0 none
      if peers ≠ [] ∧ sent = 0 then
        client.closeSubscription key
        return .error (lastError.getD client.noConnectedPeers)
      else return .ok key

/-- `ClientInner::subscribe`. -/
def subscribe (filters : List WireFilter) (replayLocal : Bool) :
    ClientThread nostr (Except PubsubError String) := do
  match ← admitCall with
  | .error error => return .error error
  | .ok () =>
    let filters := subscribedFilters filters
    match client.checkFilters filters with
    | .error error => return .error error
    | .ok () =>
      match ← connectedPeerLinks with
      | .error error => return .error error
      | .ok links =>
        match ← admitCall with
        | .error error => return .error error
        | .ok () =>
          client.openSubscription (client.limitFilters filters) replayLocal
            (links.map ConnectedPeerLink.npub)

/-- A critical section on the delivery of a subscription. -/
def onDelivery {α : Type} (key : String) (otherwise : α)
    (f : LocalDelivery nostr → α × LocalDelivery nostr) : ClientThread nostr α :=
  .atomic fun s =>
    match s.deliveries.lookup key with
    | some delivery =>
      let (a, delivery) := f delivery
      (a, { s with deliveries := s.deliveries.insert key delivery })
    | none => (otherwise, s)

/-- `FipsPubsubSubscription::recv` and `try_recv`. -/
def receive (key : String) : ClientThread nostr Unit := do
  onDelivery key () fun delivery => ((), delivery.refill)
  -- where the source waits for an event, the thread ends and may be started again
  let event ← onDelivery key none LocalDelivery.take
  onDelivery key () fun delivery => ((), delivery.refill)
  match event with
  | none => return
  | some event => handOver key event

/-- `decision_report`. -/
def decisionReport : PolicyDecision → Bool × ℤ × Option String
  | .allow priority => (true, priority, none)
  | .throttle priority reason => (true, priority, some reason)
  | .drop reason => (false, 0, some reason)

/-- `publish_report`. -/
def publishReport (sent peerCount : ℕ) (peers : String) : Except PubsubError PublishReport :=
  if sent = 0 then .error (.storage s!"failed to publish to {peerCount} {peers}")
  else
    .ok
      { accepted := true
        priority := sourcePriorityFipsEndpoint
        reason := if sent < peerCount then some s!"sent to {sent} of {peerCount} {peers}" else none }

/-- The part of `publish` after the policy let the event pass. -/
def publishAdmitted (event : VerifiedEvent nostr) (source : EventSource) (priority : ℤ)
    (reason : Option String) : ClientThread nostr (Except PubsubError PublishReport) := do
  match ← client.peerDeliveryTargets event none with
  | .error error => return .error error
  | .ok subscribed =>
    match ← admitCall with
    | .error error => return .error error
    | .ok () =>
      let isNew ← Thread.atomic fun s =>
        let (isNew, recent) :=
          s.recentEvents.insertForPublish event source client.options.maxHops
        (isNew, { s with recentEvents := recent })
      -- of two calls that publish the same event, one announces it
      if ¬ isNew then return .ok ⟨true, priority, some "event was already published"⟩
      else if subscribed = [] then
        return .ok ⟨true, priority, some "cached for live FIPS subscriptions"⟩
      else
        let sent ← client.sendInventories subscribed event client.options.maxHops
        return (publishReport sent subscribed.length "subscribed FIPS peers").map fun report =>
          { report with priority, reason := report.reason.or reason }

/-- `ClientInner::publish`. -/
def publish (event : VerifiedEvent nostr) (source : EventSource) :
    ClientThread nostr (Except PubsubError PublishReport) := do
  match client.role.validatePublication event with
  | .error error => return .error error
  | .ok () =>
    match ← admitCall with
    | .error error => return .error error
    | .ok () =>
      match ← client.eventDecision event source with
      | .error error => return .error error
      | .ok decision =>
        match ← admitCall with
        | .error error => return .error error
        | .ok () =>
          let (accepted, priority, reason) := decisionReport decision
          if ¬ accepted then return .ok ⟨accepted, priority, reason⟩
          else client.publishAdmitted event source priority reason

/-- The loop of `publish_inner` over the selected providers. -/
def publishLoop (frame : Frame) : List String → ClientThread nostr (Except PubsubError Unit)
  | [] => pure (.ok ())
  | peer :: rest => do
    match ← client.sendFrame peer frame with
    | .error error => return .error error
    | .ok () => publishLoop frame rest

/-- `publish_inner` up to the wait for a receipt. -/
def publishInner (event : VerifiedEvent nostr) (timeoutMs : ℕ) :
    ClientThread nostr (Except PubsubError Unit) := do
  match validateEnvelope event.event with
  | .error error => return .error error
  | .ok () =>
    if timeoutMs = 0 then
      return .error (invalidOption "publication timeout must be positive")
    else
      match ← connectedPeerLinks with
      | .error error => return .error error
      | .ok links =>
        if links = [] then
          return .error (invalidOption "anonymous publisher has no selected provider")
        else
          let peers := links.map ConnectedPeerLink.npub
          -- pending before the first frame leaves: `validate_outbound` asks for it
          Thread.modify fun s =>
            { s with
              publications := s.publications.insert event.event.id ⟨peers.toFinset, true⟩ }
          match @encode nostr client (.event none event) with
          | .error error => return .error error
          | .ok frame => client.publishLoop frame peers

/-- The admission of `set_replay_source`. A store may be detached after the shutdown. -/
def admitSource : Option ℕ → ClientThread nostr (Except PubsubError Unit)
  | none => pure (.ok ())
  | some _ => admitCall

/-- `set_replay_source`. -/
def setReplaySource (source : Option ℕ) : ClientThread nostr (Except PubsubError Unit) := do
  match ← admitSource source with
  | .error error => return .error error
  | .ok () =>
    Thread.modify fun s => { s with replaySource := source }
    return .ok ()

/-- The part of `close_all` for a subscription. -/
def shutSubscription (key : String) (active : ActiveSubscription) : ClientThread nostr Unit := do
  closeDelivery key
  client.sendClose key active.peers

/-- `ClientInner::close_all`. -/
def closeAll : ClientThread nostr Unit := do
  Thread.modify fun s => { s with open_ := false }
  Thread.modify fun s => { s with replaySource := none }
  let active ← Thread.atomic fun s =>
    (client.activeSubscriptions s, { s with subscriptions := ∅ })
  Thread.each active fun entry => client.shutSubscription entry.1 entry.2
  Thread.modify fun s => { s with publications := ∅ }
  Thread.modify fun s => { s with pendingWants := s.pendingWants.clear }

end ClientSetup

/-! ## Inputs -/

variable (nostr) in
/-- What starts a thread. -/
inductive Input where
  /-- The application, or the client for itself, subscribes. -/
  | subscribe (filters : List WireFilter) (replayLocal : Bool)
  /-- A subscription is closed or dropped. -/
  | close (key : String)
  /-- The application takes the next event of a subscription. -/
  | receive (key : String)
  /-- The application drops the receiver of a subscription. -/
  | dropReceiver (key : String)
  | publish (event : VerifiedEvent nostr) (source : EventSource)
  | publishAnonymous (event : VerifiedEvent nostr) (timeoutMs : ℕ)
  | setReplaySource (source : Option ℕ)
  /-- The client is shut down or dropped. -/
  | shutdown
  /-- The transport went through a turn with this report. -/
  | wireReport (report : ClientReport)
  /-- The transport is ready to write. -/
  | readyTurn
  /-- Peers are to be synchronised with the endpoint. -/
  | syncPeers
  /-- Services are to be tried again. -/
  | retryServices
  /-- A worker is free. -/
  | serveNext
  /-- `transport_loop` ends. -/
  | stopTransport

/-- The thread that an input starts. -/
def ClientSetup.program (client : ClientSetup) : Input nostr → ClientThread nostr Unit
  | .subscribe filters replayLocal => do let _ ← client.subscribe filters replayLocal
  | .close key => client.closeSubscription key
  | .receive key => ClientSetup.receive key
  | .dropReceiver key => .modify fun s =>
    match s.deliveries.lookup key with
    | some delivery =>
      { s with
        deliveries := s.deliveries.insert key
          { delivery with channel := { delivery.channel with receiverDropped := true } } }
    | none => s
  | .publish event source => do let _ ← client.publish event source
  | .publishAnonymous event timeoutMs => do let _ ← client.publishInner event timeoutMs
  | .setReplaySource source => do let _ ← ClientSetup.setReplaySource source
  | .shutdown => client.closeAll
  | .wireReport report => client.processWireReport report
  | .readyTurn => client.finishReadyTurn
  | .syncPeers => client.syncTransportPeers
  | .retryServices => client.retryDueServices
  | .serveNext => client.worker
  | .stopTransport => .modify fun s => { s with transportStopped := true, commands := [] }

/-- What happened to a client from outside. -/
abbrev History (nostr : NostrCrate) : Type := List (Entry (Input nostr) (@Request.Answer nostr))

variable (nostr) in
/-- A client after some moves. -/
def ClientSetup.run (client : ClientSetup)
    (moves : List (World.Move (Input nostr) (@Request.Answer nostr))) :
    World (ClientInner nostr) (Input nostr) (@Request.Answer nostr) :=
  World.run client.program client.start moves

end NostrPubsub.Fips
