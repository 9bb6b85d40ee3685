import Mathlib.Data.Multiset.Lattice
import NostrPubsub.Mesh.Resources

/-!
# The mesh's operations

The public operations of `InvWantMesh` (`mesh.rs`, `mesh_verified.rs`), as functions from the
mesh before a call to the result and the mesh after it. An error returned half way leaves the
changes made before it, as `&mut self` does.

Every operation with a clock starts by pruning. The operations take that prune as an
argument: `prune order` is the source's, which skips its body until a deadline is due, and
`pruneExpired order` is the body run unconditionally. `order` is the order in which the
iteration over the `upstream_routes` hash map visits the routes; a run may use a different
one at every step.
-/

namespace NostrPubsub

/-- The iteration order of one pass over `upstream_routes`. -/
abbrev RouteOrder := Finmap.Enumeration fun _ : String => UpstreamRoute

/-! ## Validation -/

/-- `validate_event_id`: 64 lowercase hexadecimal digits. -/
def validateEventId (eventId : String) : Except PubsubError Unit :=
  if eventId.utf8ByteSize = 64
      ∧ eventId.toList.all fun c => c.isDigit || ('a' ≤ c && c ≤ 'f') then .ok ()
  else .error (.validation s!"invalid inv/want event id {eventId}")

namespace InvWantMeshOptions

/-- `InvWantMesh::validate_kind`. -/
def validateKind (options : InvWantMeshOptions) (eventKind : ℕ) : Except PubsubError Unit :=
  if options.allowedKinds.any fun allowed => decide (eventKind ∉ allowed) then
    .error (.validation s!"unsupported Nostr event kind {eventKind}")
  else .ok ()

/-- `InvWantMesh::validate_event_len`. -/
def validateEventLen (options : InvWantMeshOptions) (len : ℕ) : Except PubsubError Unit :=
  if options.maxEventBytes < len then
    .error (.validation s!"inv/want event is {len} bytes, maximum is {options.maxEventBytes}")
  else .ok ()

/-- `InvWantMesh::validate_verified_event`: the id and the serialized size of an event whose
kind and size are admitted. -/
def validateVerifiedEvent (options : InvWantMeshOptions) (nostr : NostrCrate) (event : Event) :
    Except PubsubError (String × ℕ) := do
  options.validateKind event.kind
  match nostr.toJson event with
  | .error error => .error (.validation s!"invalid inv/want JSON: {error}")
  | .ok payload =>
    options.validateEventLen payload.length
    if u32Max < payload.length then
      .error (.validation
        s!"inv/want event is {payload.length} bytes, maximum is {options.maxEventBytes}")
    else .ok (event.id.toHex, payload.length)

/-- `InvWantMesh::validate_event`. -/
def validateEvent (options : InvWantMeshOptions) (nostr : NostrCrate) (event : Event) :
    Except PubsubError (String × ℕ) :=
  match nostr.verify event with
  | .error error => .error (.validation s!"invalid signed Nostr event: {error}")
  | .ok () => options.validateVerifiedEvent nostr event

end InvWantMeshOptions

namespace InvWantMesh

/-! ## Pruning -/

/-- `expired_routes` of `prune`: the providers of the unanswered routes that are over, less
those whose transport failed. -/
def expiredProviders (order : RouteOrder) (m : InvWantMesh) (nowMs : ℕ) : List String :=
  ((order.visit m.upstreamRoutes).filter fun entry =>
      !entry.2.fulfilled && decide (entry.2.expiresAtMs ≤ nowMs)).flatMap fun entry =>
    (entry.2.peerId :: entry.2.alternatePeers.ascending).filter fun peer =>
      decide (peer ∉ entry.2.transportDisruptedPeers)

/-- The loop of `prune` over the unserved providers. -/
def recordUnserved (m : InvWantMesh) (peers : List String) : InvWantMesh :=
  peers.foldl
    (fun m peerId => m.recordPeerBehavior peerId unservedInventoryPenalty .unservedInventory) m

/-- The deadlines that `prune` takes the next prune time from. -/
def deadlines (m : InvWantMesh) : Multiset ℕ :=
  m.cachedEvents.entries.map (fun entry => entry.2.expiresAtMs)
    + m.seenInventories.entries.map (fun entry => entry.2)
    + m.deliveredEvents.entries.map (fun entry => entry.2)
    + m.upstreamRoutes.entries.map (fun entry => entry.2.expiresAtMs)

/-- `next_prune_at_ms` as `prune` recomputes it. -/
def nextDeadline (m : InvWantMesh) : WithTop ℕ :=
  (m.deadlines.map fun deadline : ℕ => (deadline : WithTop ℕ)).inf

/-- The retained part of every map, after `prune` recorded the unserved providers. -/
def dropExpired (m : InvWantMesh) (nowMs : ℕ) : InvWantMesh :=
  let m := m.pruneCachedEvents nowMs
  let seenInventories := m.seenInventories.filter fun _ expiry => decide (nowMs < expiry)
  let deliveredEvents := m.deliveredEvents.filter fun _ expiry => decide (nowMs < expiry)
  let upstreamRoutes := m.upstreamRoutes.filter fun _ route => decide (nowMs < route.expiresAtMs)
  let pendingDownstream := m.pendingDownstream.filter fun eventId pending =>
    decide (nowMs < pending.expiresAtMs ∧ eventId ∈ upstreamRoutes)
  { m with
    seenInventories
    seenOrder := m.seenOrder.filter fun eventId => eventId ∈ seenInventories
    deliveredEvents
    deliveredOrder := m.deliveredOrder.filter fun eventId => eventId ∈ deliveredEvents
    upstreamRoutes
    pendingDownstream
    pendingPeerCount := pendingDownstream.total fun _ pending => pending.peers.card
    wantForwarded := m.wantForwarded.filter fun eventId expiry =>
      decide (nowMs < expiry ∧ eventId ∈ upstreamRoutes) }

/-- The body of `InvWantMesh::prune`. -/
def pruneExpired (order : RouteOrder) (nowMs : ℕ) (m : InvWantMesh) : InvWantMesh :=
  let m := (m.recordUnserved (m.expiredProviders order nowMs)).dropExpired nowMs
  { m with nextPruneAtMs := m.nextDeadline }

/-- `InvWantMesh::prune`. -/
def prune (order : RouteOrder) (nowMs : ℕ) (m : InvWantMesh) : InvWantMesh :=
  if (nowMs : WithTop ℕ) < m.nextPruneAtMs then m else m.pruneExpired order nowMs

/-! ## Local evidence -/

/-- Close the route of `eventId`: nothing more is expected from its providers. -/
def closeRoute (m : InvWantMesh) (eventId : String) : InvWantMesh :=
  { m with
    upstreamRoutes :=
      match m.upstreamRoutes.lookup eventId with
      | some route =>
        m.upstreamRoutes.insert eventId
          { route with fulfilled := true, transportDisruptedPeers := ∅ }
      | none => m.upstreamRoutes }

/-- `InvWantMesh::dismiss_frame`. -/
def dismissFrame (m : InvWantMesh) (peerId eventId : String) : InvWantMesh :=
  if (m.upstreamRoutes.lookup eventId).any fun route => route.hasProvider peerId then
    (m.closeRoute eventId).removePendingEvent eventId
  else m

/-- `InvWantMesh::record_transport_disruption`. -/
def recordTransportDisruption (m : InvWantMesh) (peerId eventId : String) : Bool × InvWantMesh :=
  match m.upstreamRoutes.lookup eventId with
  | none => (false, m)
  | some route =>
    if !route.fulfilled && route.hasProvider peerId
        && decide (peerId ∉ route.transportDisruptedPeers) then
      (true, { m with
        upstreamRoutes := m.upstreamRoutes.insert eventId
          { route with
            transportDisruptedPeers := insert peerId route.transportDisruptedPeers } })
    else (false, m)

/-! ## Receiving -/

/-- The inventory of an event that is already seen: another provider for its open route, or
one of its providers once more. -/
def extendRoute (m : InvWantMesh) (sourcePeer eventId : String)
    (eventKind payloadBytes hopLimit nowMs : ℕ) :
    Except PubsubError (List InvWantAction) × InvWantMesh :=
  match m.upstreamRoutes.lookup eventId with
  | none => (.ok [], m)
  | some route =>
    if route.fulfilled then (.ok [], m)
    else if route.eventKind ≠ eventKind ∨ route.payloadBytes ≠ payloadBytes then
      (.error (.validation "retried inv/want inventory changed kind or size"), m)
    else
      let route := { route with hopLimit := max route.hopLimit hopLimit }
      if route.hasProvider sourcePeer then
        (.ok [.send sourcePeer (.want eventId)],
          { m with
            upstreamRoutes := m.upstreamRoutes.insert eventId
              { route with
                transportDisruptedPeers := route.transportDisruptedPeers.erase sourcePeer } })
      else if maxUpstreamProvidersPerEvent ≤ route.alternatePeers.card + 1 then
        (.ok [], { m with upstreamRoutes := m.upstreamRoutes.insert eventId route })
      else
        let extendedExpiry := satAdd nowMs m.options.routeTtlMs
        (.ok [.send sourcePeer (.want eventId)],
          { m with
            upstreamRoutes := m.upstreamRoutes.insert eventId
              { route with
                alternatePeers := insert sourcePeer route.alternatePeers
                expiresAtMs := extendedExpiry
                transportDisruptedPeers := route.transportDisruptedPeers.erase sourcePeer }
            seenInventories := m.seenInventories.insert eventId extendedExpiry
            wantForwarded := m.wantForwarded.insert eventId extendedExpiry })

/-- The inventory of an event seen for the first time: ask its sender for it. -/
def openRoute (m : InvWantMesh) (sourcePeer eventId : String)
    (eventKind payloadBytes hopLimit nowMs : ℕ) : List InvWantAction × InvWantMesh :=
  let routeExpiry := satAdd nowMs m.options.routeTtlMs
  let upstreamRoutes :=
    if eventId ∈ m.upstreamRoutes then m.upstreamRoutes
    else
      m.upstreamRoutes.insert eventId
        { peerId := sourcePeer
          alternatePeers := ∅
          transportDisruptedPeers := ∅
          eventKind, payloadBytes, hopLimit
          expiresAtMs := routeExpiry
          fulfilled := false }
  ([.send sourcePeer (.want eventId)],
    { m with upstreamRoutes, wantForwarded := m.wantForwarded.insert eventId routeExpiry })

/-- `InvWantMesh::receive_inventory`. -/
def receiveInventory (m : InvWantMesh) (sourcePeer eventId : String)
    (eventKind payloadBytes hopLimit nowMs : ℕ) :
    Except PubsubError (List InvWantAction) × InvWantMesh :=
  let checked : Except PubsubError Unit := do
    validateEventId eventId
    m.options.validateKind eventKind
    m.options.validateEventLen payloadBytes
  match checked with
  | .error error => (.error error, m)
  | .ok () =>
    if hopLimit = 0 then (.ok [], m)
    else if m.options.maxHops < hopLimit then
      (.error (.validation
        s!"inv/want hop limit {hopLimit} exceeds local maximum {m.options.maxHops}"), m)
    else if eventId ∈ m.cachedEvents then (.ok [], m)
    else
      match m.rememberInventory eventId nowMs with
      | (false, m) => m.extendRoute sourcePeer eventId eventKind payloadBytes hopLimit nowMs
      | (true, m) =>
        let (actions, m) := m.openRoute sourcePeer eventId eventKind payloadBytes hopLimit nowMs
        (.ok actions, m)

/-- The waiting-peer entry that `receive_want` adds `sourcePeer` to. -/
def addPendingPeer (m : InvWantMesh) (sourcePeer eventId : String) (nowMs : ℕ) : InvWantMesh :=
  let pending := (m.pendingDownstream.lookup eventId).getD
    { peers := ∅, expiresAtMs := satAdd nowMs m.options.routeTtlMs }
  if pending.peers.card < m.options.maxPendingPeersPerEvent ∧ sourcePeer ∉ pending.peers then
    { m with
      pendingDownstream := m.pendingDownstream.insert eventId
        { pending with peers := insert sourcePeer pending.peers }
      pendingPeerCount := m.pendingPeerCount + 1 }
  else { m with pendingDownstream := m.pendingDownstream.insert eventId pending }

/-- The part of `receive_want` that asks the route's first provider again. -/
def forwardWant (m : InvWantMesh) (route : UpstreamRoute) (eventId : String) :
    List InvWantAction × InvWantMesh :=
  ([.send route.peerId (.want eventId)],
    { m with
      upstreamRoutes := m.upstreamRoutes.insert eventId
        { route with
          transportDisruptedPeers := route.transportDisruptedPeers.erase route.peerId }
      wantForwarded := m.wantForwarded.insert eventId route.expiresAtMs })

/-- `InvWantMesh::receive_want`. -/
def receiveWant (m : InvWantMesh) (sourcePeer eventId : String) (nowMs : ℕ) :
    Except PubsubError (List InvWantAction) × InvWantMesh :=
  match validateEventId eventId with
  | .error error => (.error error, m)
  | .ok () =>
    match m.cachedEvents.lookup eventId with
    | some cached => (.ok [.send sourcePeer (.frame eventId cached.event)], m)
    | none =>
      match m.upstreamRoutes.lookup eventId with
      | none => (.ok [], m)
      | some route =>
        if route.fulfilled then (.ok [], m)
        else
          let m := m.addPendingPeer sourcePeer eventId nowMs
          if (m.wantForwarded.lookup eventId).any fun expiry => decide (nowMs < expiry) then
            (.ok [], m)
          else
            let (actions, m) := m.forwardWant route eventId
            (.ok actions, m)

/-- The checks of `receive_frame` before it changes anything: the route that asked
`sourcePeer` for the event, and the serialized size. -/
def admitFrame (m : InvWantMesh) (nostr : NostrCrate) (sourcePeer eventId : String)
    (event : Event) (verifySignature : Bool) : Except PubsubError (UpstreamRoute × ℕ) := do
  validateEventId eventId
  match m.upstreamRoutes.lookup eventId with
  | none => .error (.validation "unsolicited inv/want frame")
  | some route =>
    if eventId ∉ m.wantForwarded ∨ route.hasProvider sourcePeer = false then
      .error (.validation "inv/want frame was not requested from source")
    else
      let validated :=
        if verifySignature then m.options.validateEvent nostr event
        else m.options.validateVerifiedEvent nostr event
      let (verifiedId, payloadBytes) ← validated
      if verifiedId ≠ eventId then
        .error (.validation "inv/want frame id does not match signed event id")
      else if route.eventKind ≠ event.kind ∨ route.payloadBytes ≠ payloadBytes then
        .error (.validation "inv/want frame does not match announced kind or payload size")
      else .ok (route, payloadBytes)

/-- The part of `receive_frame` after its checks, for a route that is still open. -/
def acceptFrame (m : InvWantMesh) (route : UpstreamRoute) (sourcePeer eventId : String)
    (event : Event) (payloadBytes : ℕ) (peers : List MeshPeer) (nowMs : ℕ) :
    List InvWantAction × InvWantMesh :=
  let m := m.recordPeerBehavior sourcePeer validFrameReward .validFrame
  let m := m.storeEvent event payloadBytes nowMs
  let m := m.closeRoute eventId
  let (fresh, m) := m.rememberDelivered eventId nowMs
  let delivery := if fresh then [InvWantAction.deliver sourcePeer event] else []
  let frames := ((m.pendingDownstream.lookup eventId).map fun pending =>
    pending.peers.ascending.map fun peerId =>
      InvWantAction.send peerId (.frame eventId event)).getD []
  let m := m.removePendingEvent eventId
  let inventories :=
    if 1 < route.hopLimit then
      m.sendToSelectedPeers peers (some sourcePeer)
        (.inventory eventId event.kind payloadBytes (route.hopLimit - 1))
    else []
  (delivery ++ frames ++ inventories, m)

/-- `InvWantMesh::receive_frame`. -/
def receiveFrame (m : InvWantMesh) (nostr : NostrCrate) (sourcePeer eventId : String)
    (event : Event) (peers : List MeshPeer) (nowMs : ℕ) (verifySignature : Bool) :
    Except PubsubError (List InvWantAction) × InvWantMesh :=
  match m.admitFrame nostr sourcePeer eventId event verifySignature with
  | .error error => (.error error, m)
  | .ok (route, payloadBytes) =>
    if route.fulfilled then (.ok [], m)
    else
      let (actions, m) := m.acceptFrame route sourcePeer eventId event payloadBytes peers nowMs
      (.ok actions, m)

/-- Record a rejected message against its sender. -/
def recordRejection (sourcePeer : String) :
    Except PubsubError (List InvWantAction) × InvWantMesh →
      Except PubsubError (List InvWantAction) × InvWantMesh
  | (.error error, m) => (.error error, m.recordInvalidMessage sourcePeer)
  | (.ok actions, m) => (.ok actions, m)

/-- The message dispatch of `InvWantMesh::receive`. -/
def dispatch (m : InvWantMesh) (nostr : NostrCrate) (sourcePeer : String)
    (message : InvWantWireMessage) (peers : List MeshPeer) (nowMs : ℕ) :
    Except PubsubError (List InvWantAction) × InvWantMesh :=
  match message with
  | .inventory eventId eventKind payloadBytes hopLimit =>
    m.receiveInventory sourcePeer eventId eventKind payloadBytes hopLimit nowMs
  | .want eventId => m.receiveWant sourcePeer eventId nowMs
  | .frame eventId event => m.receiveFrame nostr sourcePeer eventId event peers nowMs true

/-! ## Public operations -/

section Public

variable (prune : ℕ → InvWantMesh → InvWantMesh) (nostr : NostrCrate)

/-- `InvWantMesh::maintain`. -/
def maintain (nowMs : ℕ) (m : InvWantMesh) : InvWantMesh := prune nowMs m

/-- `publish` and `publish_verified` after their validation. -/
def publishValidated (event : Event) (eventId : String) (payloadBytes : ℕ)
    (peers : List MeshPeer) (nowMs : ℕ) (m : InvWantMesh) :
    List InvWantAction × InvWantMesh :=
  let m := m.storeEvent event payloadBytes nowMs
  match m.rememberInventory eventId nowMs with
  | (false, m) => ([], m)
  | (true, m) =>
    (m.sendToSelectedPeers peers none
      (.inventory eventId event.kind payloadBytes m.options.maxHops), m)

/-- `replay_to_peer` and `replay_verified_to_peer` after their validation. -/
def replayValidated (event : Event) (eventId : String) (payloadBytes : ℕ) (peerId : String)
    (nowMs : ℕ) (m : InvWantMesh) : List InvWantAction × InvWantMesh :=
  let m := m.storeEvent event payloadBytes nowMs
  ([.send peerId (.inventory eventId event.kind payloadBytes m.options.maxHops)], m)

/-- Go on with a validated event, or return the error. -/
def withValidated (validated : Except PubsubError (String × ℕ))
    (continue_ : String → ℕ → InvWantMesh → List InvWantAction × InvWantMesh) (m : InvWantMesh) :
    Except PubsubError (List InvWantAction) × InvWantMesh :=
  match validated with
  | .error error => (.error error, m)
  | .ok (eventId, payloadBytes) =>
    let (actions, m) := continue_ eventId payloadBytes m
    (.ok actions, m)

/-- `InvWantMesh::publish`. -/
def publish (event : Event) (peers : List MeshPeer) (nowMs : ℕ) (m : InvWantMesh) :
    Except PubsubError (List InvWantAction) × InvWantMesh :=
  let m := prune nowMs m
  withValidated (m.options.validateEvent nostr event)
    (fun eventId payloadBytes => publishValidated event eventId payloadBytes peers nowMs) m

/-- `InvWantMesh::publish_verified`. -/
def publishVerified (verified : VerifiedEvent nostr) (peers : List MeshPeer) (nowMs : ℕ)
    (m : InvWantMesh) : Except PubsubError (List InvWantAction) × InvWantMesh :=
  let m := prune nowMs m
  withValidated (m.options.validateVerifiedEvent nostr verified.event)
    (fun eventId payloadBytes =>
      publishValidated verified.event eventId payloadBytes peers nowMs) m

/-- `InvWantMesh::replay_to_peer`. -/
def replayToPeer (event : Event) (peerId : String) (nowMs : ℕ) (m : InvWantMesh) :
    Except PubsubError (List InvWantAction) × InvWantMesh :=
  let m := prune nowMs m
  withValidated (m.options.validateEvent nostr event)
    (fun eventId payloadBytes => replayValidated event eventId payloadBytes peerId nowMs) m

/-- `InvWantMesh::replay_verified_to_peer`. -/
def replayVerifiedToPeer (verified : VerifiedEvent nostr) (peerId : String) (nowMs : ℕ)
    (m : InvWantMesh) : Except PubsubError (List InvWantAction) × InvWantMesh :=
  let m := prune nowMs m
  withValidated (m.options.validateVerifiedEvent nostr verified.event)
    (fun eventId payloadBytes =>
      replayValidated verified.event eventId payloadBytes peerId nowMs) m

/-- `InvWantMesh::replay_cached_to_peer`. -/
def replayCachedToPeer (peerId : String) (nowMs : ℕ) (m : InvWantMesh) :
    List InvWantAction × InvWantMesh :=
  let m := prune nowMs m
  (m.cacheOrder.filterMap fun eventId =>
    (m.cachedEvents.lookup eventId).map fun cached =>
      .send peerId
        (.inventory eventId cached.event.kind cached.payloadBytes m.options.maxHops), m)

/-- `InvWantMesh::seed_verified`. -/
def seedVerified (verified : VerifiedEvent nostr) (nowMs : ℕ) (m : InvWantMesh) :
    Except PubsubError Unit × InvWantMesh :=
  let m := prune nowMs m
  match m.options.validateVerifiedEvent nostr verified.event with
  | .error error => (.error error, m)
  | .ok (_, payloadBytes) => (.ok (), m.storeEvent verified.event payloadBytes nowMs)

/-- `InvWantMesh::receive`. -/
def receive (sourcePeer : String) (message : InvWantWireMessage) (peers : List MeshPeer)
    (nowMs : ℕ) (m : InvWantMesh) : Except PubsubError (List InvWantAction) × InvWantMesh :=
  recordRejection sourcePeer ((prune nowMs m).dispatch nostr sourcePeer message peers nowMs)

/-- `InvWantMesh::receive_verified_frame`. -/
def receiveVerifiedFrame (sourcePeer eventId : String) (verified : VerifiedEvent nostr)
    (peers : List MeshPeer) (nowMs : ℕ) (m : InvWantMesh) :
    Except PubsubError (List InvWantAction) × InvWantMesh :=
  recordRejection sourcePeer
    ((prune nowMs m).receiveFrame nostr sourcePeer eventId verified.event peers nowMs false)

end Public

end InvWantMesh

end NostrPubsub
