import NostrPubsub.Mesh.PeerSelection

/-!
# The mesh's bounded tables

`mesh_resources.rs` and the private helpers of `mesh.rs` that keep the cache, the seen and
delivered windows, the waiting peers and the peer evidence within their bounds. Each loop of
the source that pops a queue recurses on that queue.
-/

namespace NostrPubsub

/-- What one piece of evidence does to a peer's record. -/
def PeerBehavior.observe (behavior : PeerBehavior) (scoreDelta : ℤ)
    (evidence : PeerBehaviorEvidence) : PeerBehavior :=
  let behavior :=
    { behavior with
      samples := min (behavior.samples + 1) u32Max
      score := clampScore (satAddI32 behavior.score scoreDelta) }
  match evidence with
  | .validFrame =>
    { behavior with validFrames := min (behavior.validFrames + 1) u32Max }
  | .invalidMessage =>
    { behavior with invalidMessages := min (behavior.invalidMessages + 1) u32Max }
  | .unservedInventory =>
    { behavior with unservedInventories := min (behavior.unservedInventories + 1) u32Max }

/-! ## The event cache on its own -/

/-- The cached events, their ids in the order of insertion, and their total size. -/
structure EventCache where
  events : Table CachedEvent
  order : List String
  bytes : ℕ

namespace EventCache

/-- The loop of `evict_oldest_cached_event`: pop the queue until a popped id is cached. The
flag says whether one was. -/
def evictOldestFrom (cache : EventCache) : List String → Bool × EventCache
  | [] => (false, { cache with order := [] })
  | oldest :: rest =>
    match cache.events.lookup oldest with
    | some cached =>
      (true,
        { events := cache.events.erase oldest
          order := rest
          bytes := cache.bytes - cached.payloadBytes })
    | none => cache.evictOldestFrom rest

/-- `InvWantMesh::evict_oldest_cached_event`. -/
def evictOldestCachedEvent (cache : EventCache) : Bool × EventCache :=
  cache.evictOldestFrom cache.order

/-- The eviction loop of `store_event`, for at most `fuel` turns. A turn that goes on has
popped the queue, so the length of the queue is enough fuel. -/
def makeRoom (options : InvWantMeshOptions) (payloadBytes : ℕ) : ℕ → EventCache → EventCache
  | 0, cache => cache
  | fuel + 1, cache =>
    if options.maxCachedEvents ≤ cache.events.size
        ∨ options.maxCachedEventBytes < cache.bytes + payloadBytes then
      match cache.evictOldestCachedEvent with
      | (true, cache) => cache.makeRoom options payloadBytes fuel
      | (false, cache) => cache
    else cache

/-- What `store_event` does to the cache. -/
def store (cache : EventCache) (options : InvWantMeshOptions) (eventId : String)
    (entry : CachedEvent) : EventCache :=
  match cache.events.lookup eventId with
  | some cached =>
    { cache with
      bytes := cache.bytes - cached.payloadBytes + entry.payloadBytes
      events := cache.events.insert eventId entry }
  | none =>
    let cache := cache.makeRoom options entry.payloadBytes cache.order.length
    { events := cache.events.insert eventId entry
      order := cache.order ++ [eventId]
      bytes := cache.bytes + entry.payloadBytes }

variable {cache : EventCache} {options : InvWantMeshOptions}

/-- What eviction leaves was cached before. -/
theorem lookup_evictOldestFrom {order : List String} {eventId : String} {cached : CachedEvent}
    (h : (cache.evictOldestFrom order).2.events.lookup eventId = some cached) :
    cache.events.lookup eventId = some cached := by
  induction order with
  | nil => exact h
  | cons oldest rest ih =>
    unfold evictOldestFrom at h
    split at h
    · exact (Finmap.lookup_erase_eq_some.mp h).2
    · exact ih h

theorem lookup_makeRoom {payloadBytes fuel : ℕ} {eventId : String} {cached : CachedEvent}
    (h : (cache.makeRoom options payloadBytes fuel).events.lookup eventId = some cached) :
    cache.events.lookup eventId = some cached := by
  induction fuel generalizing cache with
  | zero => exact h
  | succ fuel ih =>
    unfold EventCache.makeRoom at h
    split at h
    · split at h
      · next next heq =>
        have hevicted : cache.evictOldestCachedEvent.2.events.lookup eventId = some cached := by
          rw [heq]
          exact ih h
        exact lookup_evictOldestFrom hevicted
      · next next heq =>
        have hevicted : cache.evictOldestCachedEvent.2.events.lookup eventId = some cached := by
          rw [heq]
          exact h
        exact lookup_evictOldestFrom hevicted
    · exact h

/-- What is cached after storing is the new entry or was cached before. -/
theorem lookup_store {stored eventId : String} {entry cached : CachedEvent}
    (h : (cache.store options stored entry).events.lookup eventId = some cached) :
    eventId = stored ∧ entry = cached ∨ cache.events.lookup eventId = some cached := by
  unfold EventCache.store at h
  split at h
  · rcases Finmap.lookup_insert_eq_some.mp h with hnew | ⟨_, hold⟩
    · exact Or.inl hnew
    · exact Or.inr hold
  · rcases Finmap.lookup_insert_eq_some.mp h with hnew | ⟨_, hold⟩
    · exact Or.inl hnew
    · exact Or.inr (lookup_makeRoom hold)

end EventCache

namespace InvWantMesh

/-! ## Peer evidence -/

/-- `InvWantMesh::record_peer_behavior`. -/
def recordPeerBehavior (m : InvWantMesh) (peerId : String) (scoreDelta : ℤ)
    (evidence : PeerBehaviorEvidence) : InvWantMesh :=
  let (order, behaviors) :=
    if peerId ∈ m.peerBehaviors then (m.peerBehaviorOrder, m.peerBehaviors)
    else
      let (order, behaviors) :=
        evictOldest maxTrackedPeerBehaviors m.peerBehaviorOrder m.peerBehaviors
      (order ++ [peerId], behaviors)
  let behavior := (behaviors.lookup peerId).getD {}
  { m with
    peerBehaviorOrder := order
    peerBehaviors := behaviors.insert peerId (behavior.observe scoreDelta evidence) }

/-- `InvWantMesh::record_invalid_message`. -/
def recordInvalidMessage (m : InvWantMesh) (peerId : String) : InvWantMesh :=
  m.recordPeerBehavior peerId invalidMessagePenalty .invalidMessage

/-! ## Deadlines -/

/-- `InvWantMesh::track_expiry`. -/
def trackExpiry (m : InvWantMesh) (expiresAtMs : ℕ) : InvWantMesh :=
  { m with nextPruneAtMs := min m.nextPruneAtMs (expiresAtMs : ℕ) }

/-! ## The event cache -/

/-- The three cache fields of the mesh. -/
def eventCache (m : InvWantMesh) : EventCache :=
  { events := m.cachedEvents, order := m.cacheOrder, bytes := m.cachedEventBytes }

/-- `InvWantMesh::store_event`. -/
def storeEvent (m : InvWantMesh) (event : Event) (payloadBytes nowMs : ℕ) : InvWantMesh :=
  let expiresAtMs := satAdd nowMs m.options.eventTtlMs
  let cache := m.eventCache.store m.options event.id.toHex { event, expiresAtMs, payloadBytes }
  trackExpiry
    { m with
      cachedEvents := cache.events
      cacheOrder := cache.order
      cachedEventBytes := cache.bytes }
    expiresAtMs

/-- `InvWantMesh::prune_cached_events`. -/
def pruneCachedEvents (m : InvWantMesh) (nowMs : ℕ) : InvWantMesh :=
  let cachedEvents := m.cachedEvents.filter fun _ cached => decide (nowMs < cached.expiresAtMs)
  { m with
    cachedEvents
    cacheOrder := m.cacheOrder.filter fun eventId => eventId ∈ cachedEvents
    cachedEventBytes := cachedEvents.total fun _ cached => cached.payloadBytes }

/-! ## Waiting peers -/

/-- The mesh after `InvWantMesh::remove_pending_event`; what the source returns is
`m.pendingDownstream.lookup eventId`. -/
def removePendingEvent (m : InvWantMesh) (eventId : String) : InvWantMesh :=
  let removed := m.pendingDownstream.lookup eventId
  { m with
    pendingDownstream := m.pendingDownstream.erase eventId
    pendingPeerCount := m.pendingPeerCount - (removed.map fun pending => pending.peers.card).getD 0 }

/-! ## The seen and delivered windows -/

/-- One turn of the eviction loop of `remember_inventory`: forget the oldest seen id with its
route, its waiting peers and its want. `rest` is the queue behind it. -/
def forgetOldestInventory (m : InvWantMesh) (oldest : String) (rest : List String) :
    InvWantMesh :=
  let m := removePendingEvent
    { m with
      seenOrder := rest
      seenInventories := m.seenInventories.erase oldest
      upstreamRoutes := m.upstreamRoutes.erase oldest }
    oldest
  { m with wantForwarded := m.wantForwarded.erase oldest }

/-- The eviction loop of `remember_inventory`, over the queue `seen_order`. -/
def evictOldestInventories : List String → InvWantMesh → InvWantMesh
  | [], m => m
  | oldest :: rest, m =>
    if m.options.maxSeenEvents ≤ m.seenInventories.size then
      evictOldestInventories rest (m.forgetOldestInventory oldest rest)
    else m

/-- `seen_inventories.get(event_id).is_some_and(|expiry| *expiry > now_ms)`. -/
def isSeen (m : InvWantMesh) (eventId : String) (nowMs : ℕ) : Bool :=
  (m.seenInventories.lookup eventId).any fun expiry => decide (nowMs < expiry)

/-- `InvWantMesh::remember_inventory`. -/
def rememberInventory (m : InvWantMesh) (eventId : String) (nowMs : ℕ) : Bool × InvWantMesh :=
  if m.isSeen eventId nowMs then (false, m)
  else
    let m :=
      if eventId ∈ m.seenInventories then m
      else
        let m := evictOldestInventories m.seenOrder m
        { m with seenOrder := m.seenOrder ++ [eventId] }
    let expiresAtMs := satAdd nowMs m.options.routeTtlMs
    (true, trackExpiry
      { m with seenInventories := m.seenInventories.insert eventId expiresAtMs } expiresAtMs)

/-- `InvWantMesh::remember_delivered`. -/
def rememberDelivered (m : InvWantMesh) (eventId : String) (nowMs : ℕ) : Bool × InvWantMesh :=
  if eventId ∈ m.deliveredEvents then (false, m)
  else
    let (order, delivered) :=
      evictOldest m.options.maxSeenEvents m.deliveredOrder m.deliveredEvents
    let expiresAtMs := satAdd nowMs m.options.eventTtlMs
    (true, trackExpiry
      { m with
        deliveredOrder := order ++ [eventId]
        deliveredEvents := delivered.insert eventId expiresAtMs } expiresAtMs)

end InvWantMesh

end NostrPubsub
