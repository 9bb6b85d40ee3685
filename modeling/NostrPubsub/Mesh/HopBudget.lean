import NostrPubsub.Mesh.Provenance

/-!
# Hop limits at one node

What one mesh of a network knows about the distance of an event. A `Reach` says which hop
limits may have been announced to the node, whether the node and which of its peers are near
enough to have to do with an event, which peers are its neighbours, and which events it
published. `WithinReach` ties the mesh's routes, cache and waiting peers to it, and every
call that the network makes keeps it and emits only what it accounts for (`Action.WithinReach`).

The hop limit of a route is the largest of several announcements, and an announcement may
raise it without its sender becoming a provider; so the hop limit and the providers of a route
are accounted for separately.
-/

namespace NostrPubsub

/-- What a node may have to do with. -/
structure Reach where
  /-- An inventory of the event with this hop limit may have come to the node. -/
  hop : String → ℕ → Prop
  /-- The node is near enough to the event. -/
  near : String → Prop
  /-- The peer is near enough to the event, and a neighbour. -/
  nearPeer : String → String → Prop
  /-- The peer is a neighbour. -/
  neighbour : String → Prop
  /-- The node published the event. -/
  published : String → Prop
  near_of_hop : ∀ eventId hopLimit, hop eventId hopLimit → near eventId
  near_of_published : ∀ eventId, published eventId → near eventId

namespace InvWantMesh

/-- `peer` waits for the event. -/
def Waits (m : InvWantMesh) (eventId peer : String) : Prop :=
  ∃ pending, m.pendingDownstream.lookup eventId = some pending ∧ peer ∈ pending.peers

/-- The node's state is within reach. -/
structure WithinReach (reach : Reach) (m : InvWantMesh) : Prop where
  hop : ∀ eventId route, m.upstreamRoutes.lookup eventId = some route →
    reach.hop eventId route.hopLimit
  provider : ∀ eventId peer, m.Provides peer eventId → reach.nearPeer eventId peer
  cached : ∀ eventId, eventId ∈ m.cachedEvents → reach.near eventId
  waiting : ∀ eventId peer, m.Waits eventId peer → reach.nearPeer eventId peer

/-! ## Changes that add nothing -/

/-- `m'` has no route with another hop limit or provider than `m`, and no other cached event or
waiting peer. -/
structure Shrinks (m m' : InvWantMesh) : Prop where
  hop : ∀ hopLimit, NoNewRoute (fun route => route.hopLimit = hopLimit) m m'
  provider : NoNewProviders m m'
  cached : ∀ eventId, eventId ∈ m'.cachedEvents → eventId ∈ m.cachedEvents
  waiting : ∀ eventId peer, m'.Waits eventId peer → m.Waits eventId peer

namespace Shrinks

variable {m m' m'' : InvWantMesh}

theorem refl (m : InvWantMesh) : Shrinks m m :=
  ⟨fun _ => .refl m, .refl m, fun _ h => h, fun _ _ h => h⟩

theorem trans (h : Shrinks m m') (h' : Shrinks m' m'') : Shrinks m m'' where
  hop hopLimit := (h.hop hopLimit).trans (h'.hop hopLimit)
  provider := h.provider.trans h'.provider
  cached eventId hmem := h.cached eventId (h'.cached eventId hmem)
  waiting eventId peer hwaits := h.waiting eventId peer (h'.waiting eventId peer hwaits)

/-- Changes outside of the routes, the cache and the waiting peers, or that only drop entries
of these. -/
theorem of_lookup
    (hroute : ∀ eventId route, m'.upstreamRoutes.lookup eventId = some route →
      m.upstreamRoutes.lookup eventId = some route)
    (hcached : ∀ eventId, eventId ∈ m'.cachedEvents → eventId ∈ m.cachedEvents)
    (hpending : ∀ eventId pending, m'.pendingDownstream.lookup eventId = some pending →
      m.pendingDownstream.lookup eventId = some pending) : Shrinks m m' where
  hop _ := .of_lookup hroute
  provider := .of_lookup hroute
  cached := hcached
  waiting eventId peer := by
    rintro ⟨pending, hlookup, hpeer⟩
    exact ⟨pending, hpending eventId pending hlookup, hpeer⟩

theorem recordPeerBehavior (m : InvWantMesh) (peerId : String) (delta : ℤ)
    (evidence : PeerBehaviorEvidence) :
    Shrinks m (m.recordPeerBehavior peerId delta evidence) :=
  of_lookup (fun _ _ h => h) (fun _ h => h) fun _ _ h => h

theorem removePendingEvent (m : InvWantMesh) (eventId : String) :
    Shrinks m (m.removePendingEvent eventId) :=
  of_lookup (fun _ _ h => h) (fun _ h => h) fun _ _ h => (Finmap.lookup_erase_eq_some.mp h).2

theorem closeRoute (m : InvWantMesh) (eventId : String) : Shrinks m (m.closeRoute eventId) where
  hop _ := .closeRoute (fun _ h => h) m eventId
  provider := .closeRoute m eventId
  cached _ h := h
  waiting _ _ h := h

theorem rememberDelivered (m : InvWantMesh) (eventId : String) (nowMs : ℕ) :
    Shrinks m (m.rememberDelivered eventId nowMs).2 := by
  obtain ⟨_, _, _, heq⟩ := m.rememberDelivered_frame eventId nowMs
  rw [heq]
  exact of_lookup (fun _ _ h => h) (fun _ h => h) fun _ _ h => h

theorem settleRoute (m : InvWantMesh) (eventId : String) (nowMs : ℕ) :
    Shrinks m (m.settleRoute eventId nowMs) :=
  (closeRoute m eventId).trans ((rememberDelivered _ eventId nowMs).trans
    (removePendingEvent _ eventId))

/-- Eviction of seen ids drops their routes and waiting peers. -/
theorem rememberInventory (m : InvWantMesh) (eventId : String) (nowMs : ℕ) :
    Shrinks m (m.rememberInventory eventId nowMs).2 := by
  cases hseen : m.isSeen eventId nowMs with
  | true =>
    rw [rememberInventory_of_seen hseen]
    exact refl m
  | false =>
    have hforget : ∀ (m' : InvWantMesh) (oldest : String) (rest : List String),
        Shrinks m' (m'.forgetOldestInventory oldest rest) := by
      intro m' oldest rest
      refine of_lookup (fun _ _ h => (Finmap.lookup_erase_eq_some.mp h).2) (fun _ h => h)
        fun _ _ h => (Finmap.lookup_erase_eq_some.mp h).2
    have hevict : Shrinks m (evictOldestInventories m.seenOrder m) :=
      evictOldestInventories_preserves (fun m' oldest rest _ h => h.trans (hforget m' oldest rest))
        (refl m)
    rcases rememberInventory_snd hseen with ⟨_, heq⟩ | ⟨_, heq⟩ <;> rw [heq]
    · exact of_lookup (fun _ _ h => h) (fun _ h => h) fun _ _ h => h
    · exact hevict.trans (of_lookup (fun _ _ h => h) (fun _ h => h) fun _ _ h => h)

theorem pruneExpired (m : InvWantMesh) (order : RouteOrder) (nowMs : ℕ) :
    Shrinks m (m.pruneExpired order nowMs) := by
  have hrecorded : Shrinks m (m.recordUnserved (m.expiredProviders order nowMs)) :=
    recordUnserved_preserves (fun _ _ _ _ h => h.trans (recordPeerBehavior _ _ _ _)) (refl m) _
  refine hrecorded.trans (of_lookup ?_ ?_ ?_)
  · exact fun _ _ h => (Finmap.lookup_filter_eq_some.mp h).1
  · intro eventId hmem
    obtain ⟨cached, hlookup⟩ := Finmap.mem_iff.mp hmem
    exact Finmap.mem_of_lookup_eq_some (Finmap.lookup_filter_eq_some.mp hlookup).1
  · exact fun _ _ h => (Finmap.lookup_filter_eq_some.mp h).1

theorem prune (m : InvWantMesh) (order : RouteOrder) (nowMs : ℕ) :
    Shrinks m (m.prune order nowMs) := by
  unfold InvWantMesh.prune
  split
  · exact refl m
  · exact pruneExpired m order nowMs

end Shrinks

namespace WithinReach

variable {reach : Reach} {m m' : InvWantMesh}

theorem shrinks (h : WithinReach reach m) (hm : Shrinks m m') : WithinReach reach m' where
  hop eventId route hroute := by
    obtain ⟨old, hold, hhop⟩ := hm.hop route.hopLimit eventId ⟨route, hroute, rfl⟩
    rw [← hhop]
    exact h.hop eventId old hold
  provider eventId peer hp := h.provider eventId peer (hm.provider peer eventId hp)
  cached eventId hmem := h.cached eventId (hm.cached eventId hmem)
  waiting eventId peer hwaits := h.waiting eventId peer (hm.waiting eventId peer hwaits)

theorem new (options : InvWantMeshOptions) : WithinReach reach (InvWantMesh.new options) where
  hop := by simp [InvWantMesh.new]
  provider := by
    rintro eventId peer ⟨route, hroute, _⟩
    simp [InvWantMesh.new] at hroute
  cached := by
    intro eventId hmem
    exact absurd hmem Finmap.notMem_empty
  waiting := by
    rintro eventId peer ⟨pending, hpending, _⟩
    simp [InvWantMesh.new] at hpending

/-- A node that comes to know more. -/
theorem mono {reach' : Reach} (h : WithinReach reach m)
    (hhop : ∀ eventId hopLimit, reach.hop eventId hopLimit → reach'.hop eventId hopLimit)
    (hnear : ∀ eventId, reach.near eventId → reach'.near eventId)
    (hpeer : ∀ eventId peer, reach.nearPeer eventId peer → reach'.nearPeer eventId peer) :
    WithinReach reach' m where
  hop eventId route hroute := hhop _ _ (h.hop eventId route hroute)
  provider eventId peer hp := hpeer _ _ (h.provider eventId peer hp)
  cached eventId hmem := hnear _ (h.cached eventId hmem)
  waiting eventId peer hwaits := hpeer _ _ (h.waiting eventId peer hwaits)

theorem storeEvent (h : WithinReach reach m) {event : Event}
    (hnear : reach.near event.id.toHex) (payloadBytes nowMs : ℕ) :
    WithinReach reach (m.storeEvent event payloadBytes nowMs) where
  hop := h.hop
  provider := h.provider
  cached eventId hmem := by
    obtain ⟨cached, hcached⟩ := Finmap.mem_iff.mp hmem
    rcases EventCache.lookup_store hcached with ⟨rfl, _⟩ | hold
    · exact hnear
    · exact h.cached eventId (Finmap.mem_of_lookup_eq_some hold)
  waiting := h.waiting

/-- Replacing the route of an event by one whose hop limit and providers are accounted for. -/
theorem insertRoute (h : WithinReach reach m) {eventId : String} {route : UpstreamRoute}
    (hhop : reach.hop eventId route.hopLimit)
    (hproviders : ∀ peer ∈ route.providers, reach.nearPeer eventId peer)
    (seenInventories wantForwarded : Table ℕ) :
    WithinReach reach
      { m with
        upstreamRoutes := m.upstreamRoutes.insert eventId route
        seenInventories, wantForwarded } where
  hop id found hfound := by
    rcases Finmap.lookup_insert_eq_some.mp hfound with ⟨rfl, rfl⟩ | ⟨_, hold⟩
    · exact hhop
    · exact h.hop id found hold
  provider id peer := by
    rintro ⟨found, hfound, hpeer⟩
    rcases Finmap.lookup_insert_eq_some.mp hfound with ⟨rfl, rfl⟩ | ⟨_, hold⟩
    · exact hproviders peer hpeer
    · exact h.provider id peer ⟨found, hold, hpeer⟩
  cached := h.cached
  waiting := h.waiting

/-- A peer that asked for the event waits for it. -/
theorem addPendingPeer (h : WithinReach reach m) {sourcePeer eventId : String}
    (hsource : reach.nearPeer eventId sourcePeer) (nowMs : ℕ) :
    WithinReach reach (m.addPendingPeer sourcePeer eventId nowMs) := by
  -- whoever waits in the entry that is written waited before, or is the sender
  have hpending : ∀ peer,
      peer ∈ ((m.pendingDownstream.lookup eventId).getD
        { peers := ∅, expiresAtMs := satAdd nowMs m.options.routeTtlMs }).peers →
      reach.nearPeer eventId peer := by
    intro peer hpeer
    cases hlookup : m.pendingDownstream.lookup eventId with
    | none =>
      rw [hlookup] at hpeer
      exact absurd hpeer (Finset.notMem_empty peer)
    | some pending =>
      rw [hlookup] at hpeer
      exact h.waiting eventId peer ⟨pending, hlookup, hpeer⟩
  unfold InvWantMesh.addPendingPeer
  dsimp only
  split
  all_goals
    refine ⟨h.hop, h.provider, h.cached, ?_⟩
    rintro id peer ⟨pending, hlookup, hpeer⟩
    rcases Finmap.lookup_insert_eq_some.mp hlookup with ⟨rfl, rfl⟩ | ⟨_, hold⟩
  · rcases Finset.mem_insert.mp hpeer with rfl | hold
    · exact hsource
    · exact hpending peer hold
  · exact h.waiting id peer ⟨pending, hold, hpeer⟩
  · exact hpending peer hpeer
  · exact h.waiting id peer ⟨pending, hold, hpeer⟩

end WithinReach

end InvWantMesh

/-! ## Calls -/

/-- What a node with the hop limit `maxHops` may emit: deliveries of events it is near to, wants
and frames to peers that are near as well, and inventories to its neighbours, with the full
limit for an event of its own and else with one less than was announced to it. -/
def InvWantAction.WithinReach (reach : Reach) (maxHops : ℕ) : InvWantAction → Prop
  | .deliver _ event => reach.near event.id.toHex
  | .send peer (.want eventId) => reach.near eventId ∧ reach.nearPeer eventId peer
  | .send peer (.frame eventId _) => reach.near eventId ∧ reach.nearPeer eventId peer
  | .send peer (.inventory eventId _ _ hopLimit) =>
    reach.neighbour peer ∧
      (hopLimit = maxHops ∧ reach.published eventId ∨
        1 ≤ hopLimit ∧ reach.hop eventId (hopLimit + 1))

namespace InvWantMesh

/-- A call ends within reach and emits only what is within reach. -/
structure StaysWithin (reach : Reach) (maxHops : ℕ) (actions : List InvWantAction)
    (m : InvWantMesh) : Prop where
  state : WithinReach reach m
  actions : ∀ action ∈ actions, action.WithinReach reach maxHops

namespace StaysWithin

variable {reach : Reach} {maxHops : ℕ} {m : InvWantMesh} {nowMs : ℕ}

theorem silent (h : WithinReach reach m) : StaysWithin reach maxHops [] m :=
  ⟨h, fun _ h => absurd h List.not_mem_nil⟩

/-- Asking a near peer for an event. -/
theorem ask {peer eventId : String} (h : WithinReach reach m) (hnear : reach.near eventId)
    (hpeer : reach.nearPeer eventId peer) :
    StaysWithin reach maxHops [.send peer (.want eventId)] m := by
  refine ⟨h, fun action haction => ?_⟩
  obtain rfl := List.mem_singleton.mp haction
  exact ⟨hnear, hpeer⟩

theorem extendRoute (h : WithinReach reach m) {sourcePeer eventId : String}
    {eventKind payloadBytes hopLimit : ℕ} (hhop : reach.hop eventId hopLimit)
    (hsource : reach.nearPeer eventId sourcePeer) :
    StaysWithin reach maxHops
      (OpResult.returned
        (m.extendRoute sourcePeer eventId eventKind payloadBytes hopLimit nowMs).1).emitted
      (m.extendRoute sourcePeer eventId eventKind payloadBytes hopLimit nowMs).2 := by
  rcases m.extendRoute_cases sourcePeer eventId eventKind payloadBytes hopLimit nowMs with
    ⟨hsame, hnone⟩ | ⟨route, hroute, _, hcase⟩
  · rw [hnone, hsame]
    exact silent h
  have hmax : reach.hop eventId (max route.hopLimit hopLimit) := by
    rcases max_choice route.hopLimit hopLimit with hmax | hmax
    · rw [hmax]
      exact h.hop eventId route hroute
    · rw [hmax]
      exact hhop
  have hproviders : ∀ peer ∈ route.providers, reach.nearPeer eventId peer :=
    fun peer hpeer => h.provider eventId peer ⟨route, hroute, hpeer⟩
  have hnear := reach.near_of_hop _ _ hhop
  rcases hcase with ⟨_, heq⟩ | ⟨_, heq⟩ | ⟨_, _, heq⟩ <;> rw [heq]
  · refine ask (h.insertRoute hmax ?_ _ _) hnear hsource
    exact hproviders
  · refine silent (h.insertRoute hmax ?_ _ _)
    exact hproviders
  · refine ask (h.insertRoute hmax (fun peer hpeer => ?_) _ _) hnear hsource
    have hcases : peer = sourcePeer ∨ peer ∈ route.providers := by
      simp only [UpstreamRoute.providers, Finset.mem_insert] at hpeer ⊢
      tauto
    rcases hcases with rfl | hold
    · exact hsource
    · exact hproviders peer hold

theorem openRoute (h : WithinReach reach m) {sourcePeer eventId : String}
    {eventKind payloadBytes hopLimit : ℕ} (hhop : reach.hop eventId hopLimit)
    (hsource : reach.nearPeer eventId sourcePeer) :
    WithinReach reach
      (m.openRoute sourcePeer eventId eventKind payloadBytes hopLimit nowMs).2 := by
  unfold InvWantMesh.openRoute
  dsimp only
  split
  · exact ⟨h.hop, h.provider, h.cached, h.waiting⟩
  · refine h.insertRoute hhop (fun peer hpeer => ?_) _ _
    obtain rfl : peer = sourcePeer := by simpa [UpstreamRoute.providers] using hpeer
    exact hsource

/-- An inventory that was announced to the node. -/
theorem receiveInventory (h : WithinReach reach m) {sourcePeer eventId : String}
    {eventKind payloadBytes hopLimit : ℕ} (hhop : reach.hop eventId hopLimit)
    (hsource : reach.nearPeer eventId sourcePeer) :
    StaysWithin reach maxHops
      (OpResult.returned
        (m.receiveInventory sourcePeer eventId eventKind payloadBytes hopLimit nowMs).1).emitted
      (m.receiveInventory sourcePeer eventId eventKind payloadBytes hopLimit nowMs).2 := by
  rcases m.receiveInventory_cases sourcePeer eventId eventKind payloadBytes hopLimit nowMs with
    ⟨hsame, hnone⟩ | ⟨_, heq⟩ | ⟨_, heq⟩
  · rw [hnone, hsame]
    exact silent h
  · rw [heq]
    exact extendRoute h hhop hsource
  · rw [heq]
    exact ask (openRoute (h.shrinks (.rememberInventory m eventId nowMs)) hhop hsource)
      (reach.near_of_hop _ _ hhop) hsource

/-- A want of a near peer. -/
theorem receiveWant (h : WithinReach reach m) {sourcePeer eventId : String}
    (hsource : reach.nearPeer eventId sourcePeer) :
    StaysWithin reach maxHops
      (OpResult.returned (m.receiveWant sourcePeer eventId nowMs).1).emitted
      (m.receiveWant sourcePeer eventId nowMs).2 := by
  unfold InvWantMesh.receiveWant
  split
  · exact silent h
  split
  · next cached hcached =>
    refine ⟨h, fun action haction => ?_⟩
    obtain rfl := List.mem_singleton.mp haction
    exact ⟨h.cached _ (Finmap.mem_of_lookup_eq_some hcached), hsource⟩
  split
  · exact silent h
  next route hroute =>
  split
  · exact silent h
  have hwait := h.addPendingPeer hsource nowMs
  dsimp only
  split
  · exact silent hwait
  · have hproviders : ∀ peer ∈ route.providers, reach.nearPeer eventId peer :=
      fun peer hpeer => h.provider eventId peer ⟨route, hroute, hpeer⟩
    have hhop := h.hop eventId route hroute
    refine ask (hwait.insertRoute ?_ ?_ _ _) (reach.near_of_hop _ _ hhop)
      (hproviders route.peerId (Finset.mem_insert_self _ _))
    · exact hhop
    · exact hproviders

/-- A frame for a route of the node. -/
theorem acceptFrame (h : WithinReach reach m) {route : UpstreamRoute} {sourcePeer : String}
    {event : Event} {payloadBytes : ℕ} {peers : List MeshPeer}
    (hhop : reach.hop event.id.toHex route.hopLimit)
    (hpeers : ∀ peer ∈ peers, reach.neighbour peer.id) :
    StaysWithin reach maxHops
      (m.acceptFrame route sourcePeer event.id.toHex event payloadBytes peers nowMs).1
      (m.acceptFrame route sourcePeer event.id.toHex event payloadBytes peers nowMs).2 := by
  have hnear := reach.near_of_hop _ _ hhop
  have hstored := (h.shrinks (.recordPeerBehavior m sourcePeer validFrameReward
    .validFrame)).storeEvent hnear payloadBytes nowMs
  have hclosed := hstored.shrinks (.closeRoute _ event.id.toHex)
  have hremembered := hclosed.shrinks (.rememberDelivered _ event.id.toHex nowMs)
  refine ⟨hremembered.shrinks (.removePendingEvent _ event.id.toHex), fun action haction => ?_⟩
  simp only [InvWantMesh.acceptFrame, List.mem_append] at haction
  rcases haction with (hdeliver | hframe) | hinventory
  · split at hdeliver
    · obtain rfl := List.mem_singleton.mp hdeliver
      exact hnear
    · exact absurd hdeliver List.not_mem_nil
  · rcases hpending : Finmap.lookup event.id.toHex _ with _ | pending
    · rw [hpending] at hframe
      exact absurd hframe List.not_mem_nil
    · rw [hpending] at hframe
      obtain ⟨peerId, hpeer, rfl⟩ := List.mem_map.mp hframe
      exact ⟨hnear, hremembered.waiting _ _ ⟨pending, hpending, Finset.mem_ascending.mp hpeer⟩⟩
  · split at hinventory
    · next hmore =>
      obtain ⟨peer, hpeer, rfl, _⟩ := mem_of_mem_sendToSelectedPeers hinventory
      refine ⟨hpeers peer hpeer, Or.inr ⟨by omega, ?_⟩⟩
      rw [Nat.sub_add_cancel (Nat.le_of_lt hmore)]
      exact hhop
    · exact absurd hinventory List.not_mem_nil

theorem receiveFrame {nostr : NostrCrate} (h : WithinReach reach m)
    {sourcePeer eventId : String} {event : Event} {peers : List MeshPeer}
    (hpeers : ∀ peer ∈ peers, reach.neighbour peer.id) :
    StaysWithin reach maxHops
      (OpResult.returned
        (m.receiveFrame nostr sourcePeer eventId event peers nowMs true).1).emitted
      (m.receiveFrame nostr sourcePeer eventId event peers nowMs true).2 := by
  unfold InvWantMesh.receiveFrame
  split
  · exact silent h
  next route payloadBytes hadmitted =>
  have hsigned : true = false → nostr.verify event = .ok () := fun h => nomatch h
  obtain ⟨hroute, _, _, rfl, _⟩ := admitFrame_eq_ok hsigned hadmitted
  split
  · exact silent h
  · exact acceptFrame h (h.hop _ route hroute) hpeers

theorem recordRejection {sourcePeer : String}
    {result : Except PubsubError (List InvWantAction) × InvWantMesh}
    (h : StaysWithin reach maxHops (OpResult.returned result.1).emitted result.2) :
    StaysWithin reach maxHops
      (OpResult.returned (InvWantMesh.recordRejection sourcePeer result).1).emitted
      (InvWantMesh.recordRejection sourcePeer result).2 := by
  obtain ⟨error | actions, m'⟩ := result
  · exact silent (h.state.shrinks (.recordPeerBehavior _ _ _ _))
  · exact h

/-- Publishing an event of the node's own. -/
theorem publishValidated (h : WithinReach reach m) {event : Event} {payloadBytes : ℕ}
    {peers : List MeshPeer} (hpublished : reach.published event.id.toHex)
    (hpeers : ∀ peer ∈ peers, reach.neighbour peer.id) (hhops : m.options.maxHops = maxHops) :
    StaysWithin reach maxHops
      (publishValidated event event.id.toHex payloadBytes peers nowMs m).1
      (publishValidated event event.id.toHex payloadBytes peers nowMs m).2 := by
  have hstored := h.storeEvent (reach.near_of_published _ hpublished) payloadBytes nowMs
  refine ⟨?_, fun action haction => ?_⟩
  · rw [publishValidated_snd]
    exact hstored.shrinks (.rememberInventory _ _ _)
  · unfold InvWantMesh.publishValidated at haction
    simp only at haction
    split at haction
    · exact absurd haction List.not_mem_nil
    · next m' hremember =>
      have hoptions : m'.options = m.options := by
        have hkept := (RoutesOnly.rememberInventory (m.storeEvent event payloadBytes nowMs)
          event.id.toHex nowMs).options_eq
        rw [hremember] at hkept
        exact hkept
      obtain ⟨peer, hpeer, rfl, _⟩ := mem_of_mem_sendToSelectedPeers haction
      exact ⟨hpeers peer hpeer, Or.inl ⟨by rw [hoptions, hhops], hpublished⟩⟩

end StaysWithin

end InvWantMesh

end NostrPubsub
