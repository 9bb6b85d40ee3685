import NostrPubsub.Mesh.Updates

/-!
# Resource accounting

Every table of the mesh keeps its bound, its queue and its counters exact, along every run and
for any clock values. The mesh's tables fall into four groups that share no field, each with
an invariant of its own:

- the peer evidence (`BehaviorsAccounted`),
- the event cache (`EventCache.Accounted`, `CacheAccounted`),
- the delivered window (`DeliveredAccounted`),
- the seen window with the routes, wants and waiting peers that hang on it
  (`RoutesAccounted`).

The route group is the one with content: a route never outlives the seen entry of its id, so
the bound on the seen window bounds the routes too.
-/

namespace NostrPubsub

/-! ## Peer evidence -/

/-- The score is clamped, and below saturation the samples are the pieces of evidence. -/
structure PeerBehavior.Accounted (behavior : PeerBehavior) : Prop where
  score_ge : -100 ≤ behavior.score
  score_le : behavior.score ≤ 100
  samples_eq : behavior.samples < u32Max →
    behavior.samples
      = behavior.validFrames + behavior.invalidMessages + behavior.unservedInventories

theorem PeerBehavior.accounted_default : PeerBehavior.Accounted {} :=
  ⟨by decide, by decide, fun _ => rfl⟩

theorem clampScore_mem (score : ℤ) : -100 ≤ clampScore score ∧ clampScore score ≤ 100 := by
  unfold clampScore
  omega

theorem PeerBehavior.Accounted.observe {behavior : PeerBehavior} (h : behavior.Accounted)
    (scoreDelta : ℤ) (evidence : PeerBehaviorEvidence) :
    (behavior.observe scoreDelta evidence).Accounted := by
  have hscore := clampScore_mem (satAddI32 behavior.score scoreDelta)
  have hsamples := h.samples_eq
  cases evidence with
  | validFrame =>
    refine ⟨hscore.1, hscore.2, fun hlt => ?_⟩
    simp only [PeerBehavior.observe] at hlt ⊢
    omega
  | invalidMessage =>
    refine ⟨hscore.1, hscore.2, fun hlt => ?_⟩
    simp only [PeerBehavior.observe] at hlt ⊢
    omega
  | unservedInventory =>
    refine ⟨hscore.1, hscore.2, fun hlt => ?_⟩
    simp only [PeerBehavior.observe] at hlt ⊢
    omega

namespace InvWantMesh

/-- The evidence table agrees with its queue, is bounded, and every record is in range. -/
structure BehaviorsAccounted (m : InvWantMesh) : Prop where
  order : Enumerates m.peerBehaviorOrder m.peerBehaviors
  size_le : m.peerBehaviors.size ≤ maxTrackedPeerBehaviors
  record : ∀ peerId behavior, m.peerBehaviors.lookup peerId = some behavior →
    behavior.Accounted

/-- One more piece of evidence. -/
theorem BehaviorsAccounted.recordPeerBehavior {m : InvWantMesh} (h : m.BehaviorsAccounted)
    (peerId : String) (scoreDelta : ℤ) (evidence : PeerBehaviorEvidence) :
    (m.recordPeerBehavior peerId scoreDelta evidence).BehaviorsAccounted := by
  -- A known peer is updated in place; an unknown one takes the place of the oldest.
  by_cases hknown : peerId ∈ m.peerBehaviors
  · obtain ⟨behavior, hbehavior⟩ := Finmap.mem_iff.mp hknown
    have hmesh : m.recordPeerBehavior peerId scoreDelta evidence =
        { m with
          peerBehaviors :=
            m.peerBehaviors.insert peerId (behavior.observe scoreDelta evidence) } := by
      simp [InvWantMesh.recordPeerBehavior, hknown, hbehavior]
    rw [hmesh]
    refine ⟨h.order.replace hknown _, ?_, fun peer record hrecord => ?_⟩
    · simpa [Finmap.size_insert_of_mem hknown] using h.size_le
    · rcases Finmap.lookup_insert_eq_some.mp hrecord with ⟨_, rfl⟩ | ⟨_, hrecord⟩
      · exact (h.record _ _ hbehavior).observe _ _
      · exact h.record _ _ hrecord
  · have hnone : (evictOldest maxTrackedPeerBehaviors m.peerBehaviorOrder
        m.peerBehaviors).2.lookup peerId = none := by
      by_contra hsome
      obtain ⟨old, hold⟩ := Option.ne_none_iff_exists'.mp hsome
      exact hknown (Finmap.mem_of_lookup_eq_some (lookup_evictOldest hold))
    have hmesh : m.recordPeerBehavior peerId scoreDelta evidence =
        { m with
          peerBehaviorOrder :=
            (evictOldest maxTrackedPeerBehaviors m.peerBehaviorOrder m.peerBehaviors).1 ++ [peerId]
          peerBehaviors :=
            (evictOldest maxTrackedPeerBehaviors m.peerBehaviorOrder m.peerBehaviors).2.insert
              peerId (PeerBehavior.observe {} scoreDelta evidence) } := by
      simp [InvWantMesh.recordPeerBehavior, hknown, hnone]
    obtain ⟨horder, hsize⟩ := h.order.evict_push (by decide : 0 < maxTrackedPeerBehaviors)
      hknown (PeerBehavior.observe {} scoreDelta evidence)
    rw [hmesh]
    refine ⟨horder, hsize, fun peer record hrecord => ?_⟩
    rcases Finmap.lookup_insert_eq_some.mp hrecord with ⟨_, rfl⟩ | ⟨_, hrecord⟩
    · exact PeerBehavior.accounted_default.observe _ _
    · exact h.record _ _ (lookup_evictOldest hrecord)

end InvWantMesh

/-! ## The event cache -/

namespace EventCache

variable {cache : EventCache} {options : InvWantMeshOptions}

/-- The queue and the byte total agree with the cached events. -/
structure Balanced (cache : EventCache) : Prop where
  order : Enumerates cache.order cache.events
  bytes_eq : cache.bytes = cache.events.total fun _ cached => cached.payloadBytes

/-- The cache is balanced and within its two bounds. -/
structure Accounted (options : InvWantMeshOptions) (cache : EventCache) : Prop
    extends cache.Balanced where
  bytes_le : cache.bytes ≤ options.maxCachedEventBytes
  size_le : cache.events.size ≤ options.maxCachedEvents

/-- Evicting from a balanced cache drops the front of the queue with its bytes. -/
theorem Balanced.evictOldestCachedEvent (h : cache.Balanced) :
    (cache.order = [] ∧ cache.evictOldestCachedEvent = (false, cache)) ∨
      ∃ oldest rest next, cache.order = oldest :: rest ∧
        cache.evictOldestCachedEvent = (true, next) ∧ next.order = rest ∧
        next.events = cache.events.erase oldest ∧ next.Balanced := by
  obtain ⟨events, order, bytes⟩ := cache
  cases order with
  | nil => exact Or.inl ⟨rfl, rfl⟩
  | cons oldest rest =>
    right
    obtain ⟨cached, hcached⟩ := Finmap.mem_iff.mp h.order.head_mem
    refine ⟨oldest, rest, ⟨events.erase oldest, rest, bytes - cached.payloadBytes⟩, rfl, ?_, rfl,
      rfl, h.order.pop, ?_⟩
    · simp [EventCache.evictOldestCachedEvent, evictOldestFrom, hcached]
    · have htotal := Finmap.total_eq_add_erase (fun _ cached => cached.payloadBytes) hcached
      have hbytes : bytes = events.total fun _ cached => cached.payloadBytes := h.bytes_eq
      change bytes - cached.payloadBytes
        = (events.erase oldest).total fun _ cached => cached.payloadBytes
      rw [hbytes, htotal, Nat.add_sub_cancel_left]

/-- The eviction loop of `store_event` keeps the cache balanced. -/
theorem Balanced.makeRoom (h : cache.Balanced) (payloadBytes fuel : ℕ) :
    (cache.makeRoom options payloadBytes fuel).Balanced := by
  induction fuel generalizing cache with
  | zero => exact h
  | succ fuel ih =>
    unfold EventCache.makeRoom
    split
    · rcases h.evictOldestCachedEvent with ⟨_, heq⟩ | ⟨_, _, next, _, heq, _, _, hnext⟩
      · rw [heq]
        exact h
      · rw [heq]
        exact ih hnext
    · exact h

/-- It ends with room for the new event. -/
theorem Balanced.makeRoom_room {payloadBytes fuel : ℕ} (h : cache.Balanced)
    (hfuel : cache.order.length ≤ fuel) (hbytes : payloadBytes ≤ options.maxCachedEventBytes)
    (hevents : 0 < options.maxCachedEvents) :
    (cache.makeRoom options payloadBytes fuel).events.size < options.maxCachedEvents ∧
      (cache.makeRoom options payloadBytes fuel).bytes + payloadBytes
        ≤ options.maxCachedEventBytes := by
  induction fuel generalizing cache with
  | zero =>
    -- No fuel is needed only for an empty queue, and then the cache is empty.
    have hnil : cache.order = [] := List.eq_nil_of_length_eq_zero (Nat.le_zero.mp hfuel)
    have hempty : cache.events = ∅ := (hnil ▸ h.order).eq_empty
    refine ⟨?_, ?_⟩
    · rw [EventCache.makeRoom, hempty]
      exact hevents
    · rw [EventCache.makeRoom, h.bytes_eq, hempty, Finmap.total_empty]
      omega
  | succ fuel ih =>
    unfold EventCache.makeRoom
    split
    · next hfull =>
      rcases h.evictOldestCachedEvent with
        ⟨hnil, _⟩ | ⟨oldest, rest, next, horder, heq, hrest, _, hnext⟩
      · have hempty : cache.events = ∅ := (hnil ▸ h.order).eq_empty
        rw [h.bytes_eq, hempty, Finmap.total_empty, Finmap.size_empty] at hfull
        omega
      · rw [heq]
        refine ih hnext ?_
        rw [horder, List.length_cons] at hfuel
        rw [hrest]
        omega
    · next hroom =>
      rw [not_or, Nat.not_le, Nat.not_lt] at hroom
      exact hroom

/-- A fresh id is still fresh after the eviction loop. -/
theorem notMem_makeRoom {eventId : String} (h : cache.events.lookup eventId = none)
    (options : InvWantMeshOptions) (payloadBytes fuel : ℕ) : eventId ∉ (cache.makeRoom options payloadBytes fuel).events := by
  intro hmem
  obtain ⟨cached, hfound⟩ := Finmap.mem_iff.mp hmem
  rw [lookup_makeRoom hfound] at h
  cases h

/-- Storing keeps the queue and the byte total exact. -/
theorem Balanced.store (h : cache.Balanced) (eventId : String) (entry : CachedEvent) :
    (cache.store options eventId entry).Balanced := by
  unfold EventCache.store
  cases hcached : cache.events.lookup eventId with
  | some cached =>
    have htotal := Finmap.total_eq_add_erase (fun _ cached => cached.payloadBytes) hcached
    refine ⟨h.order.replace (Finmap.mem_of_lookup_eq_some hcached) entry, ?_⟩
    change cache.bytes - cached.payloadBytes + entry.payloadBytes
      = (cache.events.insert eventId entry).total fun _ cached => cached.payloadBytes
    rw [h.bytes_eq, htotal, Nat.add_sub_cancel_left, Finmap.total_insert, Nat.add_comm]
  | none =>
    have hbalanced : (cache.makeRoom options entry.payloadBytes cache.order.length).Balanced :=
      h.makeRoom _ _
    have hfresh := notMem_makeRoom hcached options entry.payloadBytes cache.order.length
    refine ⟨hbalanced.order.push hfresh entry, ?_⟩
    simp only [Finmap.total_insert, hbalanced.bytes_eq]
    rw [Finmap.erase_eq_self (Finmap.lookup_eq_none.mpr hfresh), Nat.add_comm]

/-- Storing keeps the accounts, when an event already cached under the id has the same
size. -/
theorem Accounted.store {eventId : String} {entry : CachedEvent} (h : Accounted options cache)
    (hsame : ∀ cached, cache.events.lookup eventId = some cached →
      cached.payloadBytes = entry.payloadBytes)
    (hbytes : entry.payloadBytes ≤ options.maxCachedEventBytes)
    (hevents : 0 < options.maxCachedEvents) :
    Accounted options (cache.store options eventId entry) := by
  refine ⟨h.toBalanced.store eventId entry, ?_, ?_⟩
  all_goals
    unfold EventCache.store
    cases hcached : cache.events.lookup eventId with
    | some cached => ?_
    | none => ?_
  · have htotal := Finmap.total_eq_add_erase (fun _ cached => cached.payloadBytes) hcached
    have heq := h.bytes_eq
    have hle := h.bytes_le
    rw [htotal, hsame cached hcached] at heq
    change cache.bytes - cached.payloadBytes + entry.payloadBytes ≤ options.maxCachedEventBytes
    rw [hsame cached hcached]
    omega
  · exact (h.toBalanced.makeRoom_room (Nat.le_refl _) hbytes hevents).2
  · change (cache.events.insert eventId entry).size ≤ _
    rw [Finmap.size_insert_of_mem (Finmap.mem_of_lookup_eq_some hcached)]
    exact h.size_le
  · have hroom := (h.toBalanced.makeRoom_room (Nat.le_refl _) hbytes hevents).1
    change Finmap.size (Finmap.insert _ _ _) ≤ _
    rw [Finmap.size_insert_of_notMem (notMem_makeRoom hcached _ _ _)]
    omega

end EventCache

namespace InvWantMesh

/-- The cache is accounted for, and holds admissible events under their own ids. -/
structure CacheAccounted (nostr : NostrCrate) (m : InvWantMesh) : Prop where
  cache : m.eventCache.Accounted m.options
  entry : ∀ eventId cached, m.cachedEvents.lookup eventId = some cached →
    eventId = cached.event.id.toHex ∧ Admissible nostr m.options cached.event cached.payloadBytes

/-- Two verified events with one id are serialized to the same number of bytes. -/
def SizeDeterminedById (nostr : NostrCrate) : Prop :=
  ∀ event event' payload payload', nostr.verify event = .ok () → nostr.verify event' = .ok () →
    event.id = event'.id →
    nostr.toJson event = .ok payload → nostr.toJson event' = .ok payload' →
    payload.length = payload'.length

theorem CacheAccounted.storeEvent {nostr : NostrCrate} {m : InvWantMesh} {event : Event}
    {payloadBytes nowMs : ℕ} (h : m.CacheAccounted nostr) (hsize : SizeDeterminedById nostr)
    (hbytes : m.options.maxEventBytes ≤ m.options.maxCachedEventBytes)
    (hevents : 0 < m.options.maxCachedEvents)
    (hevent : Admissible nostr m.options event payloadBytes) :
    (m.storeEvent event payloadBytes nowMs).CacheAccounted nostr := by
  obtain ⟨_, _, payload, hjson, hlen, hle⟩ := validateVerifiedEvent_eq_ok hevent.2
  refine ⟨h.cache.store ?_ (hle.trans hbytes) hevents, fun eventId cached hcached => ?_⟩
  · intro cached hcached
    obtain ⟨hid, hadmissible⟩ := h.entry _ _ hcached
    obtain ⟨_, _, payload', hjson', hlen', _⟩ := validateVerifiedEvent_eq_ok hadmissible.2
    rw [← hlen', ← hlen]
    exact hsize _ _ _ _ hadmissible.1 hevent.1 (EventId.toHex_injective hid.symm) hjson' hjson
  · rcases EventCache.lookup_store hcached with ⟨hid, rfl⟩ | hold
    · exact ⟨hid, hevent⟩
    · exact h.entry _ _ hold

theorem CacheAccounted.pruneCachedEvents {nostr : NostrCrate} {m : InvWantMesh}
    (h : m.CacheAccounted nostr) (nowMs : ℕ) :
    (m.pruneCachedEvents nowMs).CacheAccounted nostr := by
  refine ⟨⟨⟨h.cache.order.retain _, rfl⟩, ?_, ?_⟩, fun eventId cached hcached => ?_⟩
  · refine Nat.le_trans ?_ h.cache.bytes_le
    rw [h.cache.bytes_eq]
    exact Finmap.total_filter_le (fun _ cached => cached.payloadBytes)
      (fun _ cached => decide (nowMs < cached.expiresAtMs)) m.cachedEvents
  · exact (Finmap.size_filter_le _ _).trans h.cache.size_le
  · exact h.entry _ _ (Finmap.lookup_filter_eq_some.mp hcached).1

/-! ## The delivered window -/

/-- The delivered window agrees with its queue and is bounded. -/
structure DeliveredAccounted (m : InvWantMesh) : Prop where
  order : Enumerates m.deliveredOrder m.deliveredEvents
  size_le : m.deliveredEvents.size ≤ m.options.maxSeenEvents

theorem DeliveredAccounted.rememberDelivered {m : InvWantMesh} (h : m.DeliveredAccounted)
    (hseen : 0 < m.options.maxSeenEvents) (eventId : String) (nowMs : ℕ) :
    (m.rememberDelivered eventId nowMs).2.DeliveredAccounted := by
  unfold InvWantMesh.rememberDelivered
  split
  · exact h
  · next hfresh =>
    obtain ⟨horder, hsize⟩ :=
      h.order.evict_push hseen hfresh (satAdd nowMs m.options.eventTtlMs)
    exact ⟨horder, hsize⟩

/-! ## Seen ids, routes, wants and waiting peers -/

/-- The seen window agrees with its queue and is bounded; every route belongs to a seen id and
does not outlive it, and wants and waiting peers belong to routes; the waiting peers are
bounded and counted. -/
structure RoutesAccounted (m : InvWantMesh) : Prop where
  order : Enumerates m.seenOrder m.seenInventories
  size_le : m.seenInventories.size ≤ m.options.maxSeenEvents
  seen_le : ∀ eventId expiry, m.seenInventories.lookup eventId = some expiry → expiry ≤ u64Max
  route_seen : ∀ eventId route, m.upstreamRoutes.lookup eventId = some route →
    ∃ expiry, m.seenInventories.lookup eventId = some expiry ∧ route.expiresAtMs ≤ expiry
  want_route : ∀ eventId, eventId ∈ m.wantForwarded → eventId ∈ m.upstreamRoutes
  pending_route : ∀ eventId, eventId ∈ m.pendingDownstream → eventId ∈ m.upstreamRoutes
  pending_card : ∀ eventId pending, m.pendingDownstream.lookup eventId = some pending →
    pending.peers.card ≤ m.options.maxPendingPeersPerEvent
  pending_count : m.pendingPeerCount
    = m.pendingDownstream.total fun _ pending => pending.peers.card

namespace RoutesAccounted

variable {m : InvWantMesh}

theorem route_mem_seen (h : m.RoutesAccounted) {eventId : String}
    (hroute : eventId ∈ m.upstreamRoutes) : eventId ∈ m.seenInventories := by
  obtain ⟨route, hroute⟩ := Finmap.mem_iff.mp hroute
  obtain ⟨expiry, hexpiry, _⟩ := h.route_seen _ _ hroute
  exact Finmap.mem_of_lookup_eq_some hexpiry

/-- Setting a route that does not outlive the seen entry of its id. -/
theorem insertRoute (h : m.RoutesAccounted) {eventId : String} {route : UpstreamRoute}
    {expiry : ℕ} (hseen : m.seenInventories.lookup eventId = some expiry)
    (hexpiry : route.expiresAtMs ≤ expiry) :
    RoutesAccounted { m with upstreamRoutes := m.upstreamRoutes.insert eventId route } := by
  refine { h with
    route_seen := fun id r hr => ?_
    want_route := fun id hid => Finmap.mem_insert.mpr (Or.inr (h.want_route id hid))
    pending_route := fun id hid => Finmap.mem_insert.mpr (Or.inr (h.pending_route id hid)) }
  rcases Finmap.lookup_insert_eq_some.mp hr with ⟨rfl, rfl⟩ | ⟨_, hold⟩
  · exact ⟨expiry, hseen, hexpiry⟩
  · exact h.route_seen id r hold

/-- Changing a route without extending it. -/
theorem updateRoute (h : m.RoutesAccounted) {eventId : String} {route : UpstreamRoute}
    (route' : UpstreamRoute) (hroute : m.upstreamRoutes.lookup eventId = some route)
    (hexpiry : route'.expiresAtMs = route.expiresAtMs) :
    RoutesAccounted { m with upstreamRoutes := m.upstreamRoutes.insert eventId route' } := by
  obtain ⟨expiry, hseen, hle⟩ := h.route_seen _ _ hroute
  exact h.insertRoute hseen (hexpiry.trans_le hle)

/-- Remembering a want for an event that has a route. -/
theorem insertWant (h : m.RoutesAccounted) {eventId : String} (expiry : ℕ)
    (hroute : eventId ∈ m.upstreamRoutes) :
    RoutesAccounted { m with wantForwarded := m.wantForwarded.insert eventId expiry } := by
  refine { h with want_route := fun id hid => ?_ }
  rcases Finmap.mem_insert.mp hid with rfl | hold
  · exact hroute
  · exact h.want_route id hold

/-- Moving the deadline of a seen id to `expiry`, not before that of its route. -/
theorem insertSeen (h : m.RoutesAccounted) {eventId : String} {expiry : ℕ}
    (hseen : eventId ∈ m.seenInventories) (hmax : expiry ≤ u64Max)
    (hroute : ∀ route, m.upstreamRoutes.lookup eventId = some route →
      route.expiresAtMs ≤ expiry) :
    RoutesAccounted { m with seenInventories := m.seenInventories.insert eventId expiry } := by
  refine { h with
    order := h.order.replace hseen expiry
    size_le := (Finmap.size_insert_of_mem hseen expiry).trans_le h.size_le
    seen_le := fun id e he => ?_
    route_seen := fun id route hr => ?_ }
  · rcases Finmap.lookup_insert_eq_some.mp he with ⟨_, rfl⟩ | ⟨_, hold⟩
    · exact hmax
    · exact h.seen_le id e hold
  · by_cases hid : id = eventId
    · subst hid
      exact ⟨expiry, Finmap.lookup_insert _, hroute route hr⟩
    · obtain ⟨e, he, hle⟩ := h.route_seen id route hr
      exact ⟨e, (Finmap.lookup_insert_of_ne _ hid).trans he, hle⟩

/-- Dropping the waiting peers of an event. -/
theorem removePendingEvent (h : m.RoutesAccounted) (eventId : String) :
    (m.removePendingEvent eventId).RoutesAccounted := by
  refine { h with
    pending_route := fun id hid => h.pending_route id (Finmap.mem_erase.mp hid).2
    pending_card := fun id pending hp =>
      h.pending_card id pending (Finmap.lookup_erase_eq_some.mp hp).2
    pending_count := ?_ }
  have hcount := h.pending_count
  cases hp : m.pendingDownstream.lookup eventId with
  | none =>
    simp only [InvWantMesh.removePendingEvent, hp, Option.map_none, Option.getD_none,
      Nat.sub_zero]
    rw [Finmap.erase_eq_self hp, hcount]
  | some pending =>
    have htotal := Finmap.total_eq_add_erase (fun _ pending => pending.peers.card) hp
    simp only [InvWantMesh.removePendingEvent, hp, Option.map_some, Option.getD_some]
    rw [hcount, htotal, Nat.add_sub_cancel_left]

/-- Forgetting the oldest seen id with everything that hangs on it. -/
theorem forgetOldestInventory (h : m.RoutesAccounted) {oldest : String} {rest : List String}
    (horder : m.seenOrder = oldest :: rest) :
    (m.forgetOldestInventory oldest rest).RoutesAccounted := by
  have hpending := h.removePendingEvent oldest
  refine
    { order := (horder ▸ h.order).pop
      size_le := (Finmap.size_le_size fun id hid => (Finmap.mem_erase.mp hid).2).trans h.size_le
      seen_le := fun id expiry hid => h.seen_le id expiry (Finmap.lookup_erase_eq_some.mp hid).2
      route_seen := fun id route hroute => ?_
      want_route := fun id hid => ?_
      pending_route := fun id hid => ?_
      pending_card := hpending.pending_card
      pending_count := hpending.pending_count }
  · obtain ⟨hne, hroute⟩ := Finmap.lookup_erase_eq_some.mp hroute
    obtain ⟨expiry, hseen, hle⟩ := h.route_seen id route hroute
    exact ⟨expiry, Finmap.lookup_erase_eq_some.mpr ⟨hne, hseen⟩, hle⟩
  · obtain ⟨hne, hid⟩ := Finmap.mem_erase.mp hid
    exact Finmap.mem_erase.mpr ⟨hne, h.want_route id hid⟩
  · obtain ⟨hne, hid⟩ := Finmap.mem_erase.mp hid
    exact Finmap.mem_erase.mpr ⟨hne, h.pending_route id hid⟩

/-- A seen entry that is over does not outlive one made now. -/
theorem le_satAdd_of_not_seen (h : m.RoutesAccounted) {eventId : String} {expiry nowMs ttl : ℕ}
    (hunseen : m.isSeen eventId nowMs = false)
    (hlookup : m.seenInventories.lookup eventId = some expiry) : expiry ≤ satAdd nowMs ttl := by
  have hmax := h.seen_le _ _ hlookup
  have hover : expiry ≤ nowMs := by
    simpa [isSeen, hlookup] using hunseen
  unfold satAdd
  omega

/-- The eviction loop keeps the accounts and makes room for one more id. -/
theorem evictOldestInventories (h : m.RoutesAccounted) (hseen : 0 < m.options.maxSeenEvents) :
    (evictOldestInventories m.seenOrder m).RoutesAccounted ∧
      (evictOldestInventories m.seenOrder m).seenInventories.size < m.options.maxSeenEvents := by
  generalize horder : m.seenOrder = order
  induction order generalizing m with
  | nil =>
    refine ⟨h, ?_⟩
    rw [InvWantMesh.evictOldestInventories, ← h.order.length_eq, horder]
    exact hseen
  | cons oldest rest ih =>
    rw [InvWantMesh.evictOldestInventories]
    split
    · exact ih (h.forgetOldestInventory horder) hseen rfl
    · next hroom => exact ⟨h, Nat.lt_of_not_ge hroom⟩

/-- A fresh id joins the seen window. -/
theorem pushSeen (h : m.RoutesAccounted) {eventId : String} {expiry : ℕ}
    (hfresh : eventId ∉ m.seenInventories) (hmax : expiry ≤ u64Max)
    (hroom : m.seenInventories.size < m.options.maxSeenEvents) :
    RoutesAccounted
      { m with
        seenOrder := m.seenOrder ++ [eventId]
        seenInventories := m.seenInventories.insert eventId expiry } := by
  refine { h with
    order := h.order.push hfresh expiry
    size_le := ?_
    seen_le := fun id e he => ?_
    route_seen := fun id route hroute => ?_ }
  · exact (Finmap.size_insert_of_notMem hfresh expiry).trans_le hroom
  · rcases Finmap.lookup_insert_eq_some.mp he with ⟨_, rfl⟩ | ⟨_, hold⟩
    · exact hmax
    · exact h.seen_le id e hold
  · obtain ⟨e, he, hle⟩ := h.route_seen id route hroute
    have hne : id ≠ eventId := by
      rintro rfl
      exact hfresh (Finmap.mem_of_lookup_eq_some he)
    exact ⟨e, (Finmap.lookup_insert_of_ne _ hne).trans he, hle⟩

theorem rememberInventory (h : m.RoutesAccounted) (hseen : 0 < m.options.maxSeenEvents)
    {eventId : String} {nowMs : ℕ} (hunseen : m.isSeen eventId nowMs = false) :
    (m.rememberInventory eventId nowMs).2.RoutesAccounted := by
  have hmax : satAdd nowMs m.options.routeTtlMs ≤ u64Max := Nat.min_le_right _ _
  rcases rememberInventory_snd hunseen with ⟨hmem, heq⟩ | ⟨hfresh, heq⟩ <;> rw [heq]
  · refine { h.insertSeen hmem hmax fun route hroute => ?_ with }
    obtain ⟨expiry, hexpiry, hle⟩ := h.route_seen _ _ hroute
    exact hle.trans (h.le_satAdd_of_not_seen hunseen hexpiry)
  · obtain ⟨hevicted, hroom⟩ := h.evictOldestInventories hseen
    have hstill : eventId ∉
        (InvWantMesh.evictOldestInventories m.seenOrder m).seenInventories := by
      have hkeep := @evictOldestInventories_preserves
        (fun m' => eventId ∉ m'.seenInventories)
        (fun m' oldest rest _ hno hmem => hno (Finmap.mem_erase.mp hmem).2) m hfresh
      exact hkeep
    rw [← (RoutesOnly.evictOldestInventories m).options_eq] at hroom
    exact { hevicted.pushSeen hstill hmax hroom with }

/-- Moving a route and the seen entry of its id to a common deadline. -/
theorem moveDeadline (h : m.RoutesAccounted) {eventId : String} (route : UpstreamRoute)
    (hseen : eventId ∈ m.seenInventories) (hmax : route.expiresAtMs ≤ u64Max) :
    RoutesAccounted
      { m with
        upstreamRoutes := m.upstreamRoutes.insert eventId route
        seenInventories := m.seenInventories.insert eventId route.expiresAtMs } := by
  refine { h with
    order := h.order.replace hseen route.expiresAtMs
    size_le := (Finmap.size_insert_of_mem hseen route.expiresAtMs).trans_le h.size_le
    seen_le := fun id e he => ?_
    route_seen := fun id r hr => ?_
    want_route := fun id hid => Finmap.mem_insert.mpr (Or.inr (h.want_route id hid))
    pending_route := fun id hid => Finmap.mem_insert.mpr (Or.inr (h.pending_route id hid)) }
  · rcases Finmap.lookup_insert_eq_some.mp he with ⟨_, rfl⟩ | ⟨_, hold⟩
    · exact hmax
    · exact h.seen_le id e hold
  · rcases Finmap.lookup_insert_eq_some.mp hr with ⟨rfl, rfl⟩ | ⟨hne, hold⟩
    · exact ⟨_, Finmap.lookup_insert _, Nat.le_refl _⟩
    · obtain ⟨e, he, hle⟩ := h.route_seen id r hold
      exact ⟨e, (Finmap.lookup_insert_of_ne _ hne).trans he, hle⟩

theorem openRoute (h : m.RoutesAccounted) {sourcePeer eventId : String}
    {eventKind payloadBytes hopLimit nowMs : ℕ}
    (hseen : m.seenInventories.lookup eventId = some (satAdd nowMs m.options.routeTtlMs)) :
    (m.openRoute sourcePeer eventId eventKind payloadBytes hopLimit nowMs).2.RoutesAccounted := by
  by_cases hroute : eventId ∈ m.upstreamRoutes
  · simp only [InvWantMesh.openRoute, hroute, if_true]
    exact h.insertWant _ hroute
  · simp only [InvWantMesh.openRoute, hroute, if_false]
    exact (h.insertRoute hseen (Nat.le_refl _)).insertWant _
      (Finmap.mem_insert.mpr (Or.inl rfl))

theorem extendRoute (h : m.RoutesAccounted) {sourcePeer eventId : String}
    {eventKind payloadBytes hopLimit nowMs : ℕ} :
    (m.extendRoute sourcePeer eventId eventKind payloadBytes hopLimit nowMs).2.RoutesAccounted := by
  rcases m.extendRoute_cases sourcePeer eventId eventKind payloadBytes hopLimit nowMs with
    ⟨heq, _⟩ | ⟨route, hroute, _, ⟨_, heq⟩ | ⟨_, heq⟩ | ⟨_, _, heq⟩⟩ <;> rw [heq]
  · exact h
  · exact h.updateRoute _ hroute rfl
  · exact h.updateRoute _ hroute rfl
  · have hseen := h.route_mem_seen (Finmap.mem_of_lookup_eq_some hroute)
    have hmoved := h.moveDeadline
      { route with
        hopLimit := max route.hopLimit hopLimit
        alternatePeers := insert sourcePeer route.alternatePeers
        expiresAtMs := satAdd nowMs m.options.routeTtlMs
        transportDisruptedPeers := route.transportDisruptedPeers.erase sourcePeer }
      hseen (Nat.min_le_right _ _)
    exact hmoved.insertWant _ (Finmap.mem_insert.mpr (Or.inl rfl))

/-- One more waiting peer, within the bound for its event. -/
theorem addPendingPeer (h : m.RoutesAccounted) {sourcePeer eventId : String} {nowMs : ℕ}
    (hroute : eventId ∈ m.upstreamRoutes) :
    (m.addPendingPeer sourcePeer eventId nowMs).RoutesAccounted := by
  have hroutes : ∀ pending id, id ∈ m.pendingDownstream.insert eventId pending →
      id ∈ m.upstreamRoutes := by
    intro pending id hid
    rcases Finmap.mem_insert.mp hid with rfl | hold
    · exact hroute
    · exact h.pending_route id hold
  have hcount := h.pending_count
  -- The entry before: none counts like an empty one.
  obtain ⟨pending, hpending, hcard, htotal⟩ : ∃ pending,
      (m.pendingDownstream.lookup eventId).getD
        { peers := ∅, expiresAtMs := satAdd nowMs m.options.routeTtlMs } = pending ∧
      pending.peers.card ≤ m.options.maxPendingPeersPerEvent ∧
      m.pendingPeerCount = pending.peers.card
        + (m.pendingDownstream.erase eventId).total fun _ pending => pending.peers.card := by
    cases hp : m.pendingDownstream.lookup eventId with
    | none => exact ⟨_, rfl, Nat.zero_le _, by simpa [Finmap.erase_eq_self hp] using hcount⟩
    | some pending =>
      refine ⟨pending, rfl, h.pending_card _ _ hp, ?_⟩
      rw [hcount, Finmap.total_eq_add_erase (fun _ pending => pending.peers.card) hp]
  simp only [InvWantMesh.addPendingPeer, hpending]
  split
  · next hroom =>
    refine { h with
      pending_route := hroutes _
      pending_card := fun id p hp => ?_
      pending_count := ?_ }
    · rcases Finmap.lookup_insert_eq_some.mp hp with ⟨_, rfl⟩ | ⟨_, hold⟩
      · rw [Finset.card_insert_of_notMem hroom.2]
        exact hroom.1
      · exact h.pending_card id p hold
    · rw [Finmap.total_insert, Finset.card_insert_of_notMem hroom.2]
      change m.pendingPeerCount + 1 = _
      omega
  · refine { h with
      pending_route := hroutes _
      pending_card := fun id p hp => ?_
      pending_count := ?_ }
    · rcases Finmap.lookup_insert_eq_some.mp hp with ⟨_, rfl⟩ | ⟨_, hold⟩
      · exact hcard
      · exact h.pending_card id p hold
    · rw [Finmap.total_insert]
      exact htotal

theorem forwardWant (h : m.RoutesAccounted) {eventId : String} {route : UpstreamRoute}
    (hroute : m.upstreamRoutes.lookup eventId = some route) :
    (m.forwardWant route eventId).2.RoutesAccounted :=
  (h.updateRoute
    { route with transportDisruptedPeers := route.transportDisruptedPeers.erase route.peerId }
    hroute rfl).insertWant _ (Finmap.mem_insert.mpr (Or.inl rfl))

theorem closeRoute (h : m.RoutesAccounted) (eventId : String) :
    (m.closeRoute eventId).RoutesAccounted := by
  unfold InvWantMesh.closeRoute
  cases hroute : m.upstreamRoutes.lookup eventId with
  | none => exact h
  | some route => exact h.updateRoute _ hroute rfl

theorem dismissFrame (h : m.RoutesAccounted) (peerId eventId : String) :
    (m.dismissFrame peerId eventId).RoutesAccounted := by
  unfold InvWantMesh.dismissFrame
  split
  · exact (h.closeRoute eventId).removePendingEvent eventId
  · exact h

theorem recordTransportDisruption (h : m.RoutesAccounted) (peerId eventId : String) :
    (m.recordTransportDisruption peerId eventId).2.RoutesAccounted := by
  unfold InvWantMesh.recordTransportDisruption
  split
  · exact h
  next route hroute =>
  split
  · exact h.updateRoute _ hroute rfl
  · exact h

/-- Dropping what is over: a seen entry goes only with its route, and a route with its want
and its waiting peers. -/
theorem dropExpired (h : m.RoutesAccounted) (nowMs : ℕ) :
    (m.dropExpired nowMs).RoutesAccounted where
  order := h.order.retain _
  size_le := (Finmap.size_filter_le _ _).trans h.size_le
  seen_le id expiry hid := h.seen_le id expiry (Finmap.lookup_filter_eq_some.mp hid).1
  route_seen id route hid := by
    obtain ⟨hroute, hlater⟩ := Finmap.lookup_filter_eq_some.mp hid
    obtain ⟨expiry, hseen, hle⟩ := h.route_seen id route hroute
    rw [decide_eq_true_iff] at hlater
    refine ⟨expiry, Finmap.lookup_filter_eq_some.mpr ⟨hseen, ?_⟩, hle⟩
    exact decide_eq_true (hlater.trans_le hle)
  want_route id hid := by
    obtain ⟨expiry, _, hkept⟩ := Finmap.mem_filter.mp hid
    exact (of_decide_eq_true hkept).2
  pending_route id hid := by
    obtain ⟨pending, _, hkept⟩ := Finmap.mem_filter.mp hid
    exact (of_decide_eq_true hkept).2
  pending_card id pending hid :=
    h.pending_card id pending (Finmap.lookup_filter_eq_some.mp hid).1
  pending_count := rfl

end RoutesAccounted

/-! ## Elementary changes and pruning -/

section Preservation

variable {nostr : NostrCrate} {nowMs : ℕ} {m m' : InvWantMesh}

/-- Only evidence changes the evidence table. -/
theorem BehaviorsAccounted.update (h : m.BehaviorsAccounted) (hupdate : Update nostr nowMs m m') :
    m'.BehaviorsAccounted := by
  rcases hupdate.touches with
    ⟨_, _, _, rfl⟩ | ⟨_, _, _, rfl⟩ | ⟨_, _, _, _, _, _, _, rfl⟩ | ⟨eventId, _, _, _, rfl⟩
  · exact h.recordPeerBehavior _ _ _
  · exact ⟨h.order, h.size_le, h.record⟩
  · exact ⟨h.order, h.size_le, h.record⟩
  · obtain ⟨_, _, _, _, _, _, heq⟩ := m.settleRoute_frame eventId nowMs
    rw [heq]
    exact ⟨h.order, h.size_le, h.record⟩

/-- Only storing an event changes the cache. -/
theorem CacheAccounted.update (h : m.CacheAccounted nostr) (hsize : SizeDeterminedById nostr)
    (hbytes : m.options.maxEventBytes ≤ m.options.maxCachedEventBytes)
    (hevents : 0 < m.options.maxCachedEvents) (hupdate : Update nostr nowMs m m') :
    m'.CacheAccounted nostr := by
  rcases hupdate.touches with
    ⟨_, _, _, rfl⟩ | ⟨_, _, hevent, rfl⟩ | ⟨_, _, _, _, _, _, _, rfl⟩ | ⟨eventId, _, _, _, rfl⟩
  · exact ⟨h.cache, h.entry⟩
  · exact h.storeEvent hsize hbytes hevents hevent
  · exact ⟨h.cache, h.entry⟩
  · obtain ⟨_, _, _, _, _, _, heq⟩ := m.settleRoute_frame eventId nowMs
    rw [heq]
    exact ⟨h.cache, h.entry⟩

/-- Only the arrival of a frame changes the delivered window. -/
theorem DeliveredAccounted.update (h : m.DeliveredAccounted)
    (hseen : 0 < m.options.maxSeenEvents) (hupdate : Update nostr nowMs m m') :
    m'.DeliveredAccounted := by
  rcases hupdate.touches with
    ⟨_, _, _, rfl⟩ | ⟨_, _, _, rfl⟩ | ⟨_, _, _, _, _, _, _, rfl⟩ | ⟨eventId, _, _, _, rfl⟩
  · exact ⟨h.order, h.size_le⟩
  · exact ⟨h.order, h.size_le⟩
  · exact ⟨h.order, h.size_le⟩
  · have hclosed : (m.closeRoute eventId).DeliveredAccounted := ⟨h.order, h.size_le⟩
    have hdelivered := hclosed.rememberDelivered hseen eventId nowMs
    exact ⟨hdelivered.order, hdelivered.size_le⟩

theorem RoutesAccounted.rememberDelivered (h : m.RoutesAccounted) (eventId : String) :
    (m.rememberDelivered eventId nowMs).2.RoutesAccounted := by
  obtain ⟨_, _, _, heq⟩ := m.rememberDelivered_frame eventId nowMs
  rw [heq]
  exact { h with }

theorem RoutesAccounted.update (h : m.RoutesAccounted) (hseen : 0 < m.options.maxSeenEvents)
    (hupdate : Update nostr nowMs m m') : m'.RoutesAccounted := by
  cases hupdate with
  | behavior peerId delta evidence => exact { h with }
  | stored _ => exact { h with }
  | seen hunseen => exact h.rememberInventory hseen hunseen
  | opened hlookup => exact h.openRoute hlookup
  | extended _ => exact h.extendRoute
  | waiting hroute _ => exact h.addPendingPeer (Finmap.mem_of_lookup_eq_some hroute)
  | forwarded hroute _ => exact h.forwardWant hroute
  | settled _ _ =>
    exact ((h.closeRoute _).rememberDelivered _).removePendingEvent _
  | dismissed peerId eventId => exact h.dismissFrame peerId eventId
  | disrupted peerId eventId => exact h.recordTransportDisruption peerId eventId

theorem BehaviorsAccounted.pruneExpired (h : m.BehaviorsAccounted) (order : RouteOrder)
    (nowMs : ℕ) : (m.pruneExpired order nowMs).BehaviorsAccounted := by
  have hrecorded : (m.recordUnserved (m.expiredProviders order nowMs)).BehaviorsAccounted :=
    recordUnserved_preserves (fun _ peerId delta evidence h =>
      h.recordPeerBehavior peerId delta evidence) h _
  exact ⟨hrecorded.order, hrecorded.size_le, hrecorded.record⟩

theorem CacheAccounted.pruneExpired (h : m.CacheAccounted nostr) (order : RouteOrder)
    (nowMs : ℕ) : (m.pruneExpired order nowMs).CacheAccounted nostr := by
  have hrecorded : (m.recordUnserved (m.expiredProviders order nowMs)).CacheAccounted nostr :=
    recordUnserved_preserves (fun _ _ _ _ h => ⟨h.cache, h.entry⟩) h _
  have hpruned := hrecorded.pruneCachedEvents nowMs
  exact ⟨hpruned.cache, hpruned.entry⟩

theorem DeliveredAccounted.pruneExpired (h : m.DeliveredAccounted) (order : RouteOrder)
    (nowMs : ℕ) : (m.pruneExpired order nowMs).DeliveredAccounted := by
  have hrecorded : (m.recordUnserved (m.expiredProviders order nowMs)).DeliveredAccounted :=
    recordUnserved_preserves (fun _ _ _ _ h => ⟨h.order, h.size_le⟩) h _
  exact ⟨hrecorded.order.retain _, (Finmap.size_filter_le _ _).trans hrecorded.size_le⟩

theorem RoutesAccounted.pruneExpired (h : m.RoutesAccounted) (order : RouteOrder) (nowMs : ℕ) :
    (m.pruneExpired order nowMs).RoutesAccounted := by
  have hrecorded : (m.recordUnserved (m.expiredProviders order nowMs)).RoutesAccounted :=
    recordUnserved_preserves (fun _ _ _ _ h => { h with }) h _
  exact { hrecorded.dropExpired nowMs with }

end Preservation

/-! ## Runs -/

/-- The queues and totals that are exact along every run, whatever the events: those of the
cache, the delivered window and the routes. -/
structure Consistent (options : InvWantMeshOptions) (m : InvWantMesh) : Prop where
  options_eq : m.options = options.normalize
  cache : m.eventCache.Balanced
  delivered : m.DeliveredAccounted
  routes : m.RoutesAccounted

namespace Consistent

variable {nostr : NostrCrate} {options : InvWantMeshOptions} {m m' : InvWantMesh}

theorem new (options : InvWantMeshOptions) : Consistent options (InvWantMesh.new options) where
  options_eq := rfl
  cache := ⟨.empty, rfl⟩
  delivered := ⟨.empty, Nat.zero_le _⟩
  routes :=
    { order := .empty
      size_le := Nat.zero_le _
      seen_le := by simp [InvWantMesh.new]
      route_seen := by simp [InvWantMesh.new]
      want_route := by simp [InvWantMesh.new, Finmap.notMem_empty]
      pending_route := by simp [InvWantMesh.new, Finmap.notMem_empty]
      pending_card := by simp [InvWantMesh.new]
      pending_count := rfl }

theorem maxSeenEvents_pos (h : Consistent options m) : 0 < m.options.maxSeenEvents := by
  rw [h.options_eq]
  exact Nat.le_max_right _ _

theorem update {nowMs : ℕ} (h : Consistent options m) (hupdate : Update nostr nowMs m m') :
    Consistent options m' where
  options_eq := hupdate.options_eq.trans h.options_eq
  cache := by
    rcases hupdate.touches with
      ⟨_, _, _, rfl⟩ | ⟨_, _, _, rfl⟩ | ⟨_, _, _, _, _, _, _, rfl⟩ | ⟨eventId, _, _, _, rfl⟩
    · exact h.cache
    · exact h.cache.store _ _
    · exact h.cache
    · obtain ⟨_, _, _, _, _, _, heq⟩ := m.settleRoute_frame eventId nowMs
      rw [heq]
      exact h.cache
  delivered := h.delivered.update h.maxSeenEvents_pos hupdate
  routes := h.routes.update h.maxSeenEvents_pos hupdate

theorem pruneExpired (h : Consistent options m) (order : RouteOrder) (nowMs : ℕ) :
    Consistent options (m.pruneExpired order nowMs) where
  options_eq := (m.pruneExpired_options order nowMs).trans h.options_eq
  cache := by
    have hrecorded : (m.recordUnserved (m.expiredProviders order nowMs)).eventCache.Balanced :=
      @recordUnserved_preserves (fun m' => m'.eventCache.Balanced) (fun _ _ _ _ h => h) m h.cache _
    exact ⟨hrecorded.order.retain _, rfl⟩
  delivered := h.delivered.pruneExpired order nowMs
  routes := h.routes.pruneExpired order nowMs

theorem meshAfter (options : InvWantMeshOptions) (steps : List (Step nostr)) :
    Consistent options (NostrPubsub.meshAfter options steps) :=
  Mealy.invariant
    (Step.preserves (fun order nowMs _ h => h.pruneExpired order nowMs)
      fun _ _ _ hupdate h => h.update hupdate)
    (new options) steps

end Consistent

/-- The invariant behind the accounts: the mesh is consistent, and the peer evidence and the
bounds of the cache hold too. -/
structure GroupsAccounted (nostr : NostrCrate) (options : InvWantMeshOptions) (m : InvWantMesh) :
    Prop extends Consistent options m where
  behaviors : m.BehaviorsAccounted
  cacheBounds : m.CacheAccounted nostr

namespace GroupsAccounted

variable {nostr : NostrCrate} {options : InvWantMeshOptions} {m m' : InvWantMesh}

theorem new (nostr : NostrCrate) (options : InvWantMeshOptions) :
    GroupsAccounted nostr options (InvWantMesh.new options) where
  toConsistent := .new options
  behaviors := ⟨.empty, Nat.zero_le _, by simp [InvWantMesh.new]⟩
  cacheBounds := ⟨⟨⟨.empty, rfl⟩, Nat.zero_le _, Nat.zero_le _⟩, by simp [InvWantMesh.new]⟩

theorem maxCachedEvents_pos (h : GroupsAccounted nostr options m) :
    0 < m.options.maxCachedEvents := by
  rw [h.options_eq]
  exact Nat.le_max_right _ _

theorem maxEventBytes_le (h : GroupsAccounted nostr options m) :
    m.options.maxEventBytes ≤ m.options.maxCachedEventBytes := by
  rw [h.options_eq]
  exact Nat.le_max_right _ _

theorem update {nowMs : ℕ} (h : GroupsAccounted nostr options m)
    (hsize : SizeDeterminedById nostr) (hupdate : Update nostr nowMs m m') :
    GroupsAccounted nostr options m' where
  toConsistent := h.toConsistent.update hupdate
  behaviors := h.behaviors.update hupdate
  cacheBounds := h.cacheBounds.update hsize h.maxEventBytes_le h.maxCachedEvents_pos hupdate

theorem pruneExpired (h : GroupsAccounted nostr options m) (order : RouteOrder) (nowMs : ℕ) :
    GroupsAccounted nostr options (m.pruneExpired order nowMs) where
  toConsistent := h.toConsistent.pruneExpired order nowMs
  behaviors := h.behaviors.pruneExpired order nowMs
  cacheBounds := h.cacheBounds.pruneExpired order nowMs

/-- The accounts hold after every run. -/
theorem meshAfter (hsize : SizeDeterminedById nostr) (options : InvWantMeshOptions)
    (steps : List (Step nostr)) :
    GroupsAccounted nostr options (NostrPubsub.meshAfter options steps) :=
  Mealy.invariant
    (Step.preserves (fun order nowMs _ h => h.pruneExpired order nowMs)
      fun _ _ _ hupdate h => h.update hsize hupdate)
    (new nostr options) steps

end GroupsAccounted

/-- The accounts of the mesh: queues, bounds, byte and peer counts, and the peer evidence. -/
structure ResourcesAccounted (m : InvWantMesh) : Prop where
  cacheOrder : Enumerates m.cacheOrder m.cachedEvents
  seenOrder : Enumerates m.seenOrder m.seenInventories
  deliveredOrder : Enumerates m.deliveredOrder m.deliveredEvents
  peerBehaviorOrder : Enumerates m.peerBehaviorOrder m.peerBehaviors
  cachedEventBytes_eq : m.cachedEventBytes
    = m.cachedEvents.total fun _ cached => cached.payloadBytes
  cachedEventBytes_le : m.cachedEventBytes ≤ m.options.maxCachedEventBytes
  cachedEvents_le : m.cachedEvents.size ≤ m.options.maxCachedEvents
  seenInventories_le : m.seenInventories.size ≤ m.options.maxSeenEvents
  deliveredEvents_le : m.deliveredEvents.size ≤ m.options.maxSeenEvents
  peerBehaviors_le : m.peerBehaviors.size ≤ maxTrackedPeerBehaviors
  upstreamRoutes_le : m.upstreamRoutes.size ≤ m.options.maxSeenEvents
  wantForwarded_le : m.wantForwarded.size ≤ m.options.maxSeenEvents
  pendingDownstream_le : m.pendingDownstream.size ≤ m.options.maxSeenEvents
  pendingPeers_le : ∀ eventId pending, m.pendingDownstream.lookup eventId = some pending →
    pending.peers.card ≤ m.options.maxPendingPeersPerEvent
  pendingPeerCount_eq : m.pendingPeerCount
    = m.pendingDownstream.total fun _ pending => pending.peers.card
  peerBehavior : ∀ peerId behavior, m.peerBehaviors.lookup peerId = some behavior →
    behavior.Accounted

theorem GroupsAccounted.resourcesAccounted {nostr : NostrCrate} {options : InvWantMeshOptions}
    {m : InvWantMesh} (h : GroupsAccounted nostr options m) : m.ResourcesAccounted := by
  -- A route belongs to a seen id, and a want or a waiting peer to a route.
  have hroutes : m.upstreamRoutes.size ≤ m.options.maxSeenEvents :=
    (Finmap.size_le_size fun id hid => h.routes.route_mem_seen hid).trans h.routes.size_le
  exact
    { cacheOrder := h.cache.order
      seenOrder := h.routes.order
      deliveredOrder := h.delivered.order
      peerBehaviorOrder := h.behaviors.order
      cachedEventBytes_eq := h.cache.bytes_eq
      cachedEventBytes_le := h.cacheBounds.cache.bytes_le
      cachedEvents_le := h.cacheBounds.cache.size_le
      seenInventories_le := h.routes.size_le
      deliveredEvents_le := h.delivered.size_le
      peerBehaviors_le := h.behaviors.size_le
      upstreamRoutes_le := hroutes
      wantForwarded_le := (Finmap.size_le_size h.routes.want_route).trans hroutes
      pendingDownstream_le := (Finmap.size_le_size h.routes.pending_route).trans hroutes
      pendingPeers_le := h.routes.pending_card
      pendingPeerCount_eq := h.routes.pending_count
      peerBehavior := h.behaviors.record }

end InvWantMesh

/-- After every run, whatever the messages and the clock values, the mesh's resources are
accounted for, under the options clamped by `InvWantMesh::new`. -/
theorem meshAfter_resourcesAccounted {nostr : NostrCrate}
    (hsize : InvWantMesh.SizeDeterminedById nostr) (options : InvWantMeshOptions)
    (steps : List (Step nostr)) :
    (meshAfter options steps).options = options.normalize ∧
      (meshAfter options steps).ResourcesAccounted := by
  have h := InvWantMesh.GroupsAccounted.meshAfter hsize options steps
  exact ⟨h.options_eq, h.resourcesAccounted⟩

theorem noteCrate_sizeDeterminedById : InvWantMesh.SizeDeterminedById noteCrate := by
  intro event event' payload payload' hverify hverify' hid hjson hjson'
  have hne : noteA.id ≠ noteB.id := by decide +kernel
  have heq : event = event' := by
    rcases noteCrate_verify hverify with rfl | rfl <;>
      rcases noteCrate_verify hverify' with rfl | rfl
    · rfl
    · exact absurd hid hne
    · exact absurd hid.symm hne
    · rfl
  subst heq
  rw [hjson] at hjson'
  cases hjson'
  rfl

/-- The accounts hold after a run that caches and delivers a note. -/
theorem meshAfter_resourcesAccounted_noteRun :
    InvWantMesh.SizeDeterminedById noteCrate ∧
      (meshAfter {} noteRun).cachedEventBytes = 334 ∧
      (meshAfter {} noteRun).options = InvWantMeshOptions.normalize {} ∧
      (meshAfter {} noteRun).ResourcesAccounted :=
  ⟨noteCrate_sizeDeterminedById, by decide +kernel,
    meshAfter_resourcesAccounted noteCrate_sizeDeterminedById {} noteRun⟩

end NostrPubsub
