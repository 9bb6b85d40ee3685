import NostrPubsub.Mesh.Updates

/-!
# The life cycle of a route

A route, its want and the seen entry of its id are opened together, extended together and
dropped together: while the clock does not go back, the three tables agree on keys and
deadlines. Waiting peers hang on open routes only, and the next prune time is a lower bound of
every deadline it stands for.

Two facts about time carry the induction: no seen entry reaches further than the route time to
live from the last clock reading, and none that is over outlives a prune. At the end of the
clock's range an entry is over as soon as it is made; then its deadline is exactly that of a
new one, so making it again changes nothing.
-/

namespace NostrPubsub

/-- The providers of a route are bounded, the disrupted ones are among them, and there is none
once the route is fulfilled. -/
structure UpstreamRoute.WellFormed (route : UpstreamRoute) : Prop where
  alternates_le : route.alternatePeers.card + 1 ≤ maxUpstreamProvidersPerEvent
  disrupted_subset : route.transportDisruptedPeers ⊆ route.providers
  disrupted_eq_empty : route.fulfilled = true → route.transportDisruptedPeers = ∅

theorem UpstreamRoute.WellFormed.providers_card_le {route : UpstreamRoute}
    (h : route.WellFormed) : route.providers.card ≤ maxUpstreamProvidersPerEvent :=
  (Finset.card_insert_le _ _).trans h.alternates_le

/-- Closing a route leaves no disrupted peer. -/
theorem UpstreamRoute.WellFormed.close {route : UpstreamRoute} (h : route.WellFormed) :
    UpstreamRoute.WellFormed { route with fulfilled := true, transportDisruptedPeers := ∅ } :=
  ⟨h.alternates_le, Finset.empty_subset _, fun _ => rfl⟩

/-- A provider whose transport recovers is not disrupted any more. -/
theorem UpstreamRoute.WellFormed.recover {route : UpstreamRoute} (h : route.WellFormed)
    (hopLimit : ℕ) (peer : String) :
    UpstreamRoute.WellFormed
      { route with hopLimit, transportDisruptedPeers := route.transportDisruptedPeers.erase peer } :=
  ⟨h.alternates_le, (Finset.erase_subset _ _).trans h.disrupted_subset, fun hclosed => by
    simp [h.disrupted_eq_empty hclosed]⟩

namespace InvWantMesh

/-! ## Routes, wants and seen ids -/

/-- At clock reading `c`: every route has a want and a seen entry with its deadline, and only
routes have wants; waiting peers belong to open routes; seen entries lie within the route time
to live, and are not over unless made at `c` itself. -/
structure RoutesLockstep (c : ℕ) (m : InvWantMesh) : Prop where
  want_eq : ∀ eventId, m.wantForwarded.lookup eventId
    = (m.upstreamRoutes.lookup eventId).map UpstreamRoute.expiresAtMs
  seen_eq : ∀ eventId route, m.upstreamRoutes.lookup eventId = some route →
    m.seenInventories.lookup eventId = some route.expiresAtMs
  pending_open : ∀ eventId, eventId ∈ m.pendingDownstream →
    ∃ route, m.upstreamRoutes.lookup eventId = some route ∧ route.fulfilled = false
  route_wf : ∀ eventId route, m.upstreamRoutes.lookup eventId = some route → route.WellFormed
  seen_le : ∀ eventId expiry, m.seenInventories.lookup eventId = some expiry →
    expiry ≤ satAdd c m.options.routeTtlMs
  seen_fresh : ∀ eventId expiry, m.seenInventories.lookup eventId = some expiry →
    c < expiry ∨ expiry = satAdd c m.options.routeTtlMs

namespace RoutesLockstep

variable {c : ℕ} {m : InvWantMesh}

/-- Replacing a route by one with the same deadline. A fulfilled one must have no waiting
peers. -/
theorem updateRoute (h : RoutesLockstep c m) {eventId : String} {route : UpstreamRoute}
    (route' : UpstreamRoute) (hroute : m.upstreamRoutes.lookup eventId = some route)
    (hexpiry : route'.expiresAtMs = route.expiresAtMs) (hwf : route'.WellFormed)
    (hopen : eventId ∈ m.pendingDownstream → route'.fulfilled = false) :
    RoutesLockstep c { m with upstreamRoutes := m.upstreamRoutes.insert eventId route' } := by
  refine { h with
    want_eq := fun id => ?_
    seen_eq := fun id r hr => ?_
    pending_open := fun id hid => ?_
    route_wf := fun id r hr => ?_ }
  · by_cases hid : id = eventId
    · subst hid
      rw [Finmap.lookup_insert, h.want_eq, hroute, Option.map_some, Option.map_some, hexpiry]
    · rw [Finmap.lookup_insert_of_ne _ hid]
      exact h.want_eq id
  · rcases Finmap.lookup_insert_eq_some.mp hr with ⟨rfl, rfl⟩ | ⟨_, hold⟩
    · rw [hexpiry]
      exact h.seen_eq _ _ hroute
    · exact h.seen_eq id r hold
  · by_cases heq : id = eventId
    · subst heq
      exact ⟨route', Finmap.lookup_insert _, hopen hid⟩
    · obtain ⟨r, hr, hunfulfilled⟩ := h.pending_open id hid
      exact ⟨r, (Finmap.lookup_insert_of_ne _ heq).trans hr, hunfulfilled⟩
  · rcases Finmap.lookup_insert_eq_some.mp hr with ⟨_, rfl⟩ | ⟨_, hold⟩
    · exact hwf
    · exact h.route_wf id r hold

/-- Setting a route with its want and its seen entry to one deadline: a new route, or an
extended one. -/
theorem setRoute (h : RoutesLockstep c m) (eventId : String) (route : UpstreamRoute)
    (hexpiry : route.expiresAtMs = satAdd c m.options.routeTtlMs) (hwf : route.WellFormed)
    (hopen : eventId ∈ m.pendingDownstream → route.fulfilled = false) :
    RoutesLockstep c
      { m with
        upstreamRoutes := m.upstreamRoutes.insert eventId route
        seenInventories := m.seenInventories.insert eventId (satAdd c m.options.routeTtlMs)
        wantForwarded := m.wantForwarded.insert eventId (satAdd c m.options.routeTtlMs) } where
  want_eq id := by
    by_cases hid : id = eventId
    · subst hid
      rw [Finmap.lookup_insert, Finmap.lookup_insert, Option.map_some, hexpiry]
    · rw [Finmap.lookup_insert_of_ne _ hid, Finmap.lookup_insert_of_ne _ hid]
      exact h.want_eq id
  seen_eq id r hr := by
    rcases Finmap.lookup_insert_eq_some.mp hr with ⟨rfl, rfl⟩ | ⟨hne, hold⟩
    · rw [Finmap.lookup_insert, hexpiry]
    · rw [Finmap.lookup_insert_of_ne _ hne]
      exact h.seen_eq id r hold
  pending_open id hid := by
    by_cases heq : id = eventId
    · subst heq
      exact ⟨route, Finmap.lookup_insert _, hopen hid⟩
    · obtain ⟨r, hr, hunfulfilled⟩ := h.pending_open id hid
      exact ⟨r, (Finmap.lookup_insert_of_ne _ heq).trans hr, hunfulfilled⟩
  route_wf id r hr := by
    rcases Finmap.lookup_insert_eq_some.mp hr with ⟨_, rfl⟩ | ⟨_, hold⟩
    · exact hwf
    · exact h.route_wf id r hold
  seen_le id e he := by
    rcases Finmap.lookup_insert_eq_some.mp he with ⟨_, rfl⟩ | ⟨_, hold⟩
    · exact Nat.le_refl _
    · exact h.seen_le id e hold
  seen_fresh id e he := by
    rcases Finmap.lookup_insert_eq_some.mp he with ⟨_, rfl⟩ | ⟨_, hold⟩
    · exact Or.inr rfl
    · exact h.seen_fresh id e hold

theorem removePendingEvent (h : RoutesLockstep c m) (eventId : String) :
    RoutesLockstep c (m.removePendingEvent eventId) :=
  { h with pending_open := fun id hid => h.pending_open id (Finmap.mem_erase.mp hid).2 }

/-- Forgetting an id drops it from all the tables. -/
theorem forgetOldestInventory (h : RoutesLockstep c m) (oldest : String) (rest : List String) :
    RoutesLockstep c (m.forgetOldestInventory oldest rest) where
  want_eq id := by
    by_cases hid : id = oldest
    · subst hid
      exact (Finmap.lookup_erase _ _).trans (by simp [InvWantMesh.forgetOldestInventory,
        InvWantMesh.removePendingEvent])
    · have hwant := h.want_eq id
      rw [← Finmap.lookup_erase_ne hid, ← Finmap.lookup_erase_ne (s := m.upstreamRoutes) hid]
        at hwant
      exact hwant
  seen_eq id route hroute := by
    obtain ⟨hne, hroute⟩ := Finmap.lookup_erase_eq_some.mp hroute
    exact Finmap.lookup_erase_eq_some.mpr ⟨hne, h.seen_eq id route hroute⟩
  pending_open id hid := by
    obtain ⟨hne, hid⟩ := Finmap.mem_erase.mp hid
    obtain ⟨route, hroute, hopen⟩ := h.pending_open id hid
    exact ⟨route, Finmap.lookup_erase_eq_some.mpr ⟨hne, hroute⟩, hopen⟩
  route_wf id route hroute := h.route_wf id route (Finmap.lookup_erase_eq_some.mp hroute).2
  seen_le id expiry hid := h.seen_le id expiry (Finmap.lookup_erase_eq_some.mp hid).2
  seen_fresh id expiry hid := h.seen_fresh id expiry (Finmap.lookup_erase_eq_some.mp hid).2

/-- An id that is not seen now and yet has an entry was made seen at `c` itself. -/
theorem seen_eq_of_over (h : RoutesLockstep c m) {eventId : String}
    (hunseen : m.isSeen eventId c = false) (hmem : eventId ∈ m.seenInventories) :
    m.seenInventories.lookup eventId = some (satAdd c m.options.routeTtlMs) := by
  obtain ⟨expiry, hlookup⟩ := Finmap.mem_iff.mp hmem
  have hover : expiry ≤ c := by
    simpa [isSeen, hlookup] using hunseen
  rcases h.seen_fresh _ _ hlookup with hlater | rfl
  · omega
  · exact hlookup

theorem rememberInventory (h : RoutesLockstep c m) {eventId : String}
    (hunseen : m.isSeen eventId c = false) :
    RoutesLockstep c (m.rememberInventory eventId c).2 := by
  rcases rememberInventory_snd hunseen with ⟨hmem, heq⟩ | ⟨hfresh, heq⟩ <;> rw [heq]
  · -- The entry is written again as it is.
    rw [Finmap.insert_eq_self (h.seen_eq_of_over hunseen hmem)]
    exact { h with }
  · have hevicted : RoutesLockstep c (evictOldestInventories m.seenOrder m) :=
      evictOldestInventories_preserves
        (fun _ oldest rest _ h => h.forgetOldestInventory oldest rest) h
    have hoptions := (RoutesOnly.evictOldestInventories m).options_eq
    have hstill : eventId ∉ (evictOldestInventories m.seenOrder m).seenInventories :=
      @evictOldestInventories_preserves (fun m' => eventId ∉ m'.seenInventories)
        (fun _ _ _ _ hno hmem => hno (Finmap.mem_erase.mp hmem).2) m hfresh
    refine { hevicted with
      seen_eq := fun id route hroute => ?_
      seen_le := fun id expiry hid => ?_
      seen_fresh := fun id expiry hid => ?_ }
    · have hold := hevicted.seen_eq id route hroute
      have hne : id ≠ eventId := by
        rintro rfl
        exact hstill (Finmap.mem_of_lookup_eq_some hold)
      exact (Finmap.lookup_insert_of_ne _ hne).trans hold
    · rcases Finmap.lookup_insert_eq_some.mp hid with ⟨_, rfl⟩ | ⟨_, hold⟩
      · change _ ≤ satAdd c (evictOldestInventories m.seenOrder m).options.routeTtlMs
        rw [hoptions]
      · exact hevicted.seen_le id expiry hold
    · rcases Finmap.lookup_insert_eq_some.mp hid with ⟨_, rfl⟩ | ⟨_, hold⟩
      · right
        change _ = satAdd c (evictOldestInventories m.seenOrder m).options.routeTtlMs
        rw [hoptions]
      · exact hevicted.seen_fresh id expiry hold

theorem openRoute (h : RoutesLockstep c m) {sourcePeer eventId : String}
    {eventKind payloadBytes hopLimit : ℕ}
    (hseen : m.seenInventories.lookup eventId = some (satAdd c m.options.routeTtlMs)) :
    RoutesLockstep c
      (m.openRoute sourcePeer eventId eventKind payloadBytes hopLimit c).2 := by
  by_cases hroute : eventId ∈ m.upstreamRoutes
  · -- The route that is there has the deadline of a new one.
    obtain ⟨route, hlookup⟩ := Finmap.mem_iff.mp hroute
    have hwant : m.wantForwarded.lookup eventId = some (satAdd c m.options.routeTtlMs) := by
      rw [h.want_eq, hlookup, ← hseen, h.seen_eq _ _ hlookup, Option.map_some]
    simp only [InvWantMesh.openRoute, hroute, if_true]
    rw [Finmap.insert_eq_self hwant]
    exact h
  · simp only [InvWantMesh.openRoute, hroute, if_false]
    have hset := h.setRoute eventId
      { peerId := sourcePeer, alternatePeers := ∅, transportDisruptedPeers := ∅, eventKind,
        payloadBytes, hopLimit, expiresAtMs := satAdd c m.options.routeTtlMs, fulfilled := false }
      rfl ⟨by simp [maxUpstreamProvidersPerEvent], Finset.empty_subset _, fun _ => rfl⟩ fun _ => rfl
    rw [Finmap.insert_eq_self hseen] at hset
    exact hset

theorem extendRoute (h : RoutesLockstep c m) {sourcePeer eventId : String}
    {eventKind payloadBytes hopLimit : ℕ} :
    RoutesLockstep c
      (m.extendRoute sourcePeer eventId eventKind payloadBytes hopLimit c).2 := by
  rcases m.extendRoute_cases sourcePeer eventId eventKind payloadBytes hopLimit c with
    ⟨heq, _⟩ | ⟨route, hroute, hopen, ⟨_, heq⟩ | ⟨_, heq⟩ | ⟨_, hroom, heq⟩⟩ <;> rw [heq]
  · exact h
  · exact h.updateRoute _ hroute rfl ((h.route_wf _ _ hroute).recover _ _) fun _ => hopen
  · have hwf := h.route_wf _ _ hroute
    exact h.updateRoute _ hroute rfl
      ⟨hwf.alternates_le, hwf.disrupted_subset, hwf.disrupted_eq_empty⟩ fun _ => hopen
  · have hwf := h.route_wf _ _ hroute
    refine h.setRoute eventId _ rfl ⟨?_, ?_, ?_⟩ fun _ => hopen
    · have hcard := Finset.card_insert_le sourcePeer route.alternatePeers
      change (insert sourcePeer route.alternatePeers).card + 1 ≤ _
      omega
    · intro peer hpeer
      have hold := hwf.disrupted_subset (Finset.mem_of_mem_erase hpeer)
      simp only [UpstreamRoute.providers, Finset.mem_insert] at hold ⊢
      tauto
    · intro hclosed
      exact absurd hclosed (by simp [hopen])

theorem addPendingPeer (h : RoutesLockstep c m) {sourcePeer eventId : String} {nowMs : ℕ}
    {route : UpstreamRoute} (hroute : m.upstreamRoutes.lookup eventId = some route)
    (hopen : route.fulfilled = false) :
    RoutesLockstep c (m.addPendingPeer sourcePeer eventId nowMs) := by
  have hpending : ∀ pending id, id ∈ m.pendingDownstream.insert eventId pending →
      ∃ route, m.upstreamRoutes.lookup id = some route ∧ route.fulfilled = false := by
    intro pending id hid
    rcases Finmap.mem_insert.mp hid with rfl | hold
    · exact ⟨route, hroute, hopen⟩
    · exact h.pending_open id hold
  unfold InvWantMesh.addPendingPeer
  simp only
  split
  · exact { h with pending_open := hpending _ }
  · exact { h with pending_open := hpending _ }

theorem forwardWant (h : RoutesLockstep c m) {eventId : String} {route : UpstreamRoute}
    (hroute : m.upstreamRoutes.lookup eventId = some route) (hopen : route.fulfilled = false) :
    RoutesLockstep c (m.forwardWant route eventId).2 := by
  have hwant : m.wantForwarded.lookup eventId = some route.expiresAtMs := by
    rw [h.want_eq, hroute, Option.map_some]
  have hupdated := h.updateRoute
    { route with transportDisruptedPeers := route.transportDisruptedPeers.erase route.peerId }
    hroute rfl ((h.route_wf _ _ hroute).recover route.hopLimit route.peerId) fun _ => hopen
  unfold InvWantMesh.forwardWant
  rw [Finmap.insert_eq_self hwant]
  exact hupdated

/-- Closing a route together with dropping its waiting peers. -/
theorem closeRoute_removePendingEvent (h : RoutesLockstep c m) (eventId : String) :
    RoutesLockstep c ((m.closeRoute eventId).removePendingEvent eventId) := by
  have hremoved := h.removePendingEvent eventId
  unfold InvWantMesh.closeRoute
  cases hroute : m.upstreamRoutes.lookup eventId with
  | none => exact hremoved
  | some route =>
    refine hremoved.updateRoute _ hroute rfl (h.route_wf _ _ hroute).close fun hpending => ?_
    exact absurd rfl (Finmap.mem_erase.mp hpending).1

theorem dismissFrame (h : RoutesLockstep c m) (peerId eventId : String) :
    RoutesLockstep c (m.dismissFrame peerId eventId) := by
  unfold InvWantMesh.dismissFrame
  split
  · exact h.closeRoute_removePendingEvent eventId
  · exact h

theorem settleRoute (h : RoutesLockstep c m) (eventId : String) (nowMs : ℕ) :
    RoutesLockstep c (m.settleRoute eventId nowMs) := by
  have hclosed := h.closeRoute_removePendingEvent eventId
  obtain ⟨_, _, _, heq⟩ := (m.closeRoute eventId).rememberDelivered_frame eventId nowMs
  rw [InvWantMesh.settleRoute, heq]
  exact { hclosed with }

theorem recordTransportDisruption (h : RoutesLockstep c m) (peerId eventId : String) :
    RoutesLockstep c (m.recordTransportDisruption peerId eventId).2 := by
  unfold InvWantMesh.recordTransportDisruption
  split
  · exact h
  next route hroute =>
  split
  · next hmark =>
    simp only [Bool.and_eq_true, Bool.not_eq_true', decide_eq_true_eq] at hmark
    have hwf := h.route_wf _ _ hroute
    refine h.updateRoute _ hroute rfl ⟨hwf.alternates_le, ?_, ?_⟩ fun _ => hmark.1.1
    · exact Finset.insert_subset (UpstreamRoute.hasProvider_iff.mp hmark.1.2) hwf.disrupted_subset
    · intro hclosed
      exact absurd hclosed (by simp [hmark.1.1])
  · exact h

/-- A prune keeps a route exactly when it keeps its want and its seen entry. -/
theorem dropExpired (h : RoutesLockstep c m) {nowMs : ℕ} (hclock : c ≤ nowMs) :
    RoutesLockstep nowMs (m.dropExpired nowMs) where
  want_eq id := by
    change ((m.wantForwarded.filter _).lookup id) = ((m.upstreamRoutes.filter _).lookup id).map _
    rw [Finmap.lookup_filter, Finmap.lookup_filter, h.want_eq]
    cases hroute : m.upstreamRoutes.lookup id with
    | none => rfl
    | some route =>
      by_cases hlater : nowMs < route.expiresAtMs
      · have hmem : id ∈ (m.pruneCachedEvents nowMs).upstreamRoutes.filter fun _ route =>
            decide (nowMs < route.expiresAtMs) :=
          Finmap.mem_filter.mpr ⟨route, hroute, decide_eq_true hlater⟩
        simpa [Option.filter, hlater] using hmem
      · simp [Option.filter, hlater]
  seen_eq id route hid := by
    obtain ⟨hroute, hlater⟩ := Finmap.lookup_filter_eq_some.mp hid
    exact Finmap.lookup_filter_eq_some.mpr ⟨h.seen_eq id route hroute, hlater⟩
  pending_open id hid := by
    obtain ⟨pending, hpending, hkept⟩ := Finmap.mem_filter.mp hid
    obtain ⟨route, hroute, hopen⟩ := h.pending_open id (Finmap.mem_of_lookup_eq_some hpending)
    obtain ⟨kept, hlookup, hlater⟩ := Finmap.mem_filter.mp (of_decide_eq_true hkept).2
    have hsame : kept = route := Option.some.inj (hlookup.symm.trans hroute)
    subst hsame
    exact ⟨kept, Finmap.lookup_filter_eq_some.mpr ⟨hlookup, hlater⟩, hopen⟩
  route_wf id route hid := h.route_wf id route (Finmap.lookup_filter_eq_some.mp hid).1
  seen_le id expiry hid :=
    (h.seen_le id expiry (Finmap.lookup_filter_eq_some.mp hid).1).trans
      (satAdd_le_satAdd hclock _)
  seen_fresh id expiry hid :=
    Or.inl (of_decide_eq_true (Finmap.lookup_filter_eq_some.mp hid).2)

theorem pruneExpired (h : RoutesLockstep c m) (order : RouteOrder) {nowMs : ℕ}
    (hclock : c ≤ nowMs) : RoutesLockstep nowMs (m.pruneExpired order nowMs) := by
  have hrecorded : RoutesLockstep c (m.recordUnserved (m.expiredProviders order nowMs)) :=
    recordUnserved_preserves (fun _ _ _ _ h => { h with }) h _
  exact { hrecorded.dropExpired hclock with }

theorem update {nostr : NostrCrate} {m' : InvWantMesh} (h : RoutesLockstep c m)
    (hupdate : Update nostr c m m') : RoutesLockstep c m' := by
  cases hupdate with
  | behavior peerId delta evidence => exact { h with }
  | stored _ => exact { h with }
  | seen hunseen => exact h.rememberInventory hunseen
  | opened hlookup => exact h.openRoute hlookup
  | extended _ => exact h.extendRoute
  | waiting hroute hopen => exact h.addPendingPeer hroute hopen
  | forwarded hroute hopen => exact h.forwardWant hroute hopen
  | settled _ _ => exact h.settleRoute _ _
  | dismissed peerId eventId => exact h.dismissFrame peerId eventId
  | disrupted peerId eventId => exact h.recordTransportDisruption peerId eventId

end RoutesLockstep

/-! ## The next prune time -/

/-- The next prune time is not after any deadline of the cache, the seen or the delivered
window. Those of the routes are seen deadlines. -/
structure DeadlinesTracked (m : InvWantMesh) : Prop where
  cached : ∀ eventId cached, m.cachedEvents.lookup eventId = some cached →
    m.nextPruneAtMs ≤ (cached.expiresAtMs : ℕ)
  seen : ∀ eventId expiry, m.seenInventories.lookup eventId = some expiry →
    m.nextPruneAtMs ≤ (expiry : ℕ)
  delivered : ∀ eventId expiry, m.deliveredEvents.lookup eventId = some expiry →
    m.nextPruneAtMs ≤ (expiry : ℕ)

namespace DeadlinesTracked

variable {c : ℕ} {m m' : InvWantMesh}

theorem storeEvent (h : m.DeadlinesTracked) (event : Event) (payloadBytes nowMs : ℕ) :
    (m.storeEvent event payloadBytes nowMs).DeadlinesTracked where
  cached id cached hid := by
    rcases EventCache.lookup_store hid with ⟨_, rfl⟩ | hold
    · exact min_le_right _ _
    · exact (min_le_left _ _).trans (h.cached id cached hold)
  seen id expiry hid := (min_le_left _ _).trans (h.seen id expiry hid)
  delivered id expiry hid := (min_le_left _ _).trans (h.delivered id expiry hid)

theorem rememberInventory (h : m.DeadlinesTracked) {eventId : String} {nowMs : ℕ}
    (hunseen : m.isSeen eventId nowMs = false) :
    (m.rememberInventory eventId nowMs).2.DeadlinesTracked := by
  have hevicted : (evictOldestInventories m.seenOrder m).DeadlinesTracked :=
    evictOldestInventories_preserves
      (fun _ _ _ _ h => ⟨h.cached, fun id expiry hid =>
        h.seen id expiry (Finmap.lookup_erase_eq_some.mp hid).2, h.delivered⟩) h
  have hinsert : ∀ {m' : InvWantMesh}, m'.DeadlinesTracked → ∀ seenOrder expiry,
      (trackExpiry { m' with
        seenOrder, seenInventories := m'.seenInventories.insert eventId expiry }
        expiry).DeadlinesTracked := by
    intro m' h seenOrder expiry
    refine ⟨fun id cached hid => (min_le_left _ _).trans (h.cached id cached hid),
      fun id e hid => ?_, fun id e hid => (min_le_left _ _).trans (h.delivered id e hid)⟩
    rcases Finmap.lookup_insert_eq_some.mp hid with ⟨_, rfl⟩ | ⟨_, hold⟩
    · exact min_le_right _ _
    · exact (min_le_left _ _).trans (h.seen id e hold)
  rcases rememberInventory_snd hunseen with ⟨_, heq⟩ | ⟨_, heq⟩ <;> rw [heq]
  · exact hinsert h m.seenOrder _
  · exact hinsert hevicted _ _

/-- Extending a route moves the deadline of its id to a later time. -/
theorem extendRoute (h : m.DeadlinesTracked) (hlockstep : RoutesLockstep c m)
    {sourcePeer eventId : String} {eventKind payloadBytes hopLimit : ℕ} :
    (m.extendRoute sourcePeer eventId eventKind payloadBytes hopLimit c).2.DeadlinesTracked := by
  rcases m.extendRoute_cases sourcePeer eventId eventKind payloadBytes hopLimit c with
    ⟨heq, _⟩ | ⟨route, hroute, _, ⟨_, heq⟩ | ⟨_, heq⟩ | ⟨_, _, heq⟩⟩ <;> rw [heq]
  · exact h
  · exact ⟨h.cached, h.seen, h.delivered⟩
  · exact ⟨h.cached, h.seen, h.delivered⟩
  · have hseen := hlockstep.seen_eq _ _ hroute
    refine ⟨h.cached, fun id expiry hid => ?_, h.delivered⟩
    rcases Finmap.lookup_insert_eq_some.mp hid with ⟨rfl, rfl⟩ | ⟨_, hold⟩
    · exact (h.seen _ _ hseen).trans (WithTop.coe_le_coe.mpr (hlockstep.seen_le _ _ hseen))
    · exact h.seen id expiry hold

theorem rememberDelivered (h : m.DeadlinesTracked) (eventId : String) (nowMs : ℕ) :
    (m.rememberDelivered eventId nowMs).2.DeadlinesTracked := by
  unfold InvWantMesh.rememberDelivered
  split
  · exact h
  · refine ⟨fun id cached hid => (min_le_left _ _).trans (h.cached id cached hid),
      fun id expiry hid => (min_le_left _ _).trans (h.seen id expiry hid),
      fun id expiry hid => ?_⟩
    rcases Finmap.lookup_insert_eq_some.mp hid with ⟨_, rfl⟩ | ⟨_, hold⟩
    · exact min_le_right _ _
    · exact (min_le_left _ _).trans (h.delivered id expiry (lookup_evictOldest hold))

theorem settleRoute (h : m.DeadlinesTracked) (eventId : String) (nowMs : ℕ) :
    (m.settleRoute eventId nowMs).DeadlinesTracked := by
  have hclosed : (m.closeRoute eventId).DeadlinesTracked := ⟨h.cached, h.seen, h.delivered⟩
  have hdelivered := hclosed.rememberDelivered eventId nowMs
  exact ⟨hdelivered.cached, hdelivered.seen, hdelivered.delivered⟩

/-- The next deadline is one that `prune` takes it from. -/
theorem nextDeadline_le {deadline : ℕ} (h : deadline ∈ m.deadlines) :
    m.nextDeadline ≤ (deadline : ℕ) :=
  Multiset.inf_le (Multiset.mem_map_of_mem _ h)

/-- `prune` recomputes the next prune time from the deadlines that are left. -/
theorem pruneExpired (order : RouteOrder) (nowMs : ℕ) :
    (m.pruneExpired order nowMs).DeadlinesTracked := by
  have hmem : ∀ deadline, deadline ∈ (m.pruneExpired order nowMs).deadlines →
      (m.pruneExpired order nowMs).nextPruneAtMs ≤ (deadline : ℕ) :=
    fun _ h => nextDeadline_le h
  refine ⟨fun id cached hid => hmem _ ?_, fun id expiry hid => hmem _ ?_,
    fun id expiry hid => hmem _ ?_⟩
  · have hentry := Multiset.mem_map_of_mem (fun entry : Sigma fun _ : String => CachedEvent =>
      entry.2.expiresAtMs) (Finmap.lookup_eq_some_iff.mp hid)
    simp only [deadlines, Multiset.mem_add]
    exact Or.inl (Or.inl (Or.inl hentry))
  · have hentry := Multiset.mem_map_of_mem (fun entry : Sigma fun _ : String => ℕ => entry.2)
      (Finmap.lookup_eq_some_iff.mp hid)
    simp only [deadlines, Multiset.mem_add]
    exact Or.inl (Or.inl (Or.inr hentry))
  · have hentry := Multiset.mem_map_of_mem (fun entry : Sigma fun _ : String => ℕ => entry.2)
      (Finmap.lookup_eq_some_iff.mp hid)
    simp only [deadlines, Multiset.mem_add]
    exact Or.inl (Or.inr hentry)

theorem update {nostr : NostrCrate} (h : m.DeadlinesTracked) (hlockstep : RoutesLockstep c m)
    (hupdate : Update nostr c m m') : m'.DeadlinesTracked := by
  cases hupdate with
  | behavior peerId delta evidence => exact ⟨h.cached, h.seen, h.delivered⟩
  | stored _ => exact h.storeEvent _ _ _
  | seen hunseen => exact h.rememberInventory hunseen
  | opened _ => exact ⟨h.cached, h.seen, h.delivered⟩
  | extended _ => exact h.extendRoute hlockstep
  | waiting _ _ =>
    unfold InvWantMesh.addPendingPeer
    simp only
    split <;> exact ⟨h.cached, h.seen, h.delivered⟩
  | forwarded _ _ => exact ⟨h.cached, h.seen, h.delivered⟩
  | settled _ _ => exact h.settleRoute _ _
  | dismissed peerId eventId =>
    unfold InvWantMesh.dismissFrame
    split <;> exact ⟨h.cached, h.seen, h.delivered⟩
  | disrupted peerId eventId =>
    unfold InvWantMesh.recordTransportDisruption
    split
    · exact h
    · split <;> exact ⟨h.cached, h.seen, h.delivered⟩

end DeadlinesTracked

/-! ## Runs -/

/-- The invariant of a run whose clock does not go back, at its last reading `c`. -/
structure Timely (c : ℕ) (m : InvWantMesh) : Prop where
  lockstep : RoutesLockstep c m
  tracked : m.DeadlinesTracked

namespace Timely

variable {c nowMs : ℕ} {m m' : InvWantMesh}

theorem new (options : InvWantMeshOptions) : Timely 0 (InvWantMesh.new options) where
  lockstep :=
    { want_eq := by simp [InvWantMesh.new]
      seen_eq := by simp [InvWantMesh.new]
      pending_open := by simp [InvWantMesh.new, Finmap.notMem_empty]
      route_wf := by simp [InvWantMesh.new]
      seen_le := by simp [InvWantMesh.new]
      seen_fresh := by simp [InvWantMesh.new] }
  tracked := ⟨by simp [InvWantMesh.new], by simp [InvWantMesh.new], by simp [InvWantMesh.new]⟩

/-- After a prune nothing seen is over, whether the prune ran or was skipped. -/
theorem lt_of_seen_prune (h : Timely c m) (order : RouteOrder) {eventId : String} {expiry : ℕ}
    (hseen : (m.prune order nowMs).seenInventories.lookup eventId = some expiry) :
    nowMs < expiry := by
  unfold InvWantMesh.prune at hseen
  split at hseen
  · next hskip => exact WithTop.coe_lt_coe.mp (hskip.trans_le (h.tracked.seen _ _ hseen))
  · exact of_decide_eq_true (Finmap.lookup_filter_eq_some.mp hseen).2

theorem prune (h : Timely c m) (order : RouteOrder) (hclock : c ≤ nowMs) :
    Timely nowMs (m.prune order nowMs) := by
  have hfresh := @lt_of_seen_prune c nowMs m h order
  unfold InvWantMesh.prune at hfresh ⊢
  split at hfresh
  · next hskip =>
    rw [if_pos hskip]
    refine ⟨{ h.lockstep with
      seen_le := fun id expiry hid => ?_
      seen_fresh := fun id expiry hid => Or.inl (hfresh hid) }, h.tracked⟩
    exact (h.lockstep.seen_le id expiry hid).trans (satAdd_le_satAdd hclock _)
  · next hrun =>
    rw [if_neg hrun]
    exact ⟨h.lockstep.pruneExpired order hclock, .pruneExpired order nowMs⟩

theorem update {nostr : NostrCrate} (h : Timely c m) (hupdate : Update nostr c m m') :
    Timely c m' :=
  ⟨h.lockstep.update hupdate, h.tracked.update h.lockstep hupdate⟩

/-- The invariant holds after every run whose clock does not go back. -/
theorem meshAfter {nostr : NostrCrate} (options : InvWantMeshOptions) {steps : List (Step nostr)}
    (hclock : Mealy.ClockedFrom Step.clock 0 steps) :
    Timely (Mealy.lastClock Step.clock 0 steps) (NostrPubsub.meshAfter options steps) :=
  Mealy.clocked_invariant
    (Step.preserves_clocked (fun order _ _ _ hle h => h.prune order hle)
      fun _ _ _ hupdate h => h.update hupdate)
    (new options) hclock

end Timely

/-- What the maps of the mesh have in common between calls: routes and wants have the same
keys and deadlines, and these keys are seen with the same deadline; waiting peers have an
unfulfilled route; the providers are bounded, the disrupted ones are among them, and there is
none once the route is fulfilled; the next prune time is not after any deadline. -/
structure InLockstep (m : InvWantMesh) : Prop where
  want_eq : ∀ eventId, m.wantForwarded.lookup eventId
    = (m.upstreamRoutes.lookup eventId).map UpstreamRoute.expiresAtMs
  seen_eq : ∀ eventId route, m.upstreamRoutes.lookup eventId = some route →
    m.seenInventories.lookup eventId = some route.expiresAtMs
  pending_open : ∀ eventId, eventId ∈ m.pendingDownstream →
    ∃ route, m.upstreamRoutes.lookup eventId = some route ∧ route.fulfilled = false
  providers_le : ∀ eventId route, m.upstreamRoutes.lookup eventId = some route →
    route.providers.card ≤ maxUpstreamProvidersPerEvent
  disrupted_subset : ∀ eventId route, m.upstreamRoutes.lookup eventId = some route →
    route.transportDisruptedPeers ⊆ route.providers
  disrupted_eq_empty : ∀ eventId route, m.upstreamRoutes.lookup eventId = some route →
    route.fulfilled = true → route.transportDisruptedPeers = ∅
  next_le_cached : ∀ eventId cached, m.cachedEvents.lookup eventId = some cached →
    m.nextPruneAtMs ≤ (cached.expiresAtMs : ℕ)
  next_le_seen : ∀ eventId expiry, m.seenInventories.lookup eventId = some expiry →
    m.nextPruneAtMs ≤ (expiry : ℕ)
  next_le_delivered : ∀ eventId expiry, m.deliveredEvents.lookup eventId = some expiry →
    m.nextPruneAtMs ≤ (expiry : ℕ)
  next_le_route : ∀ eventId route, m.upstreamRoutes.lookup eventId = some route →
    m.nextPruneAtMs ≤ (route.expiresAtMs : ℕ)

theorem Timely.inLockstep {c : ℕ} {m : InvWantMesh} (h : Timely c m) : m.InLockstep where
  want_eq := h.lockstep.want_eq
  seen_eq := h.lockstep.seen_eq
  pending_open := h.lockstep.pending_open
  providers_le id route hid := (h.lockstep.route_wf id route hid).providers_card_le
  disrupted_subset id route hid := (h.lockstep.route_wf id route hid).disrupted_subset
  disrupted_eq_empty id route hid := (h.lockstep.route_wf id route hid).disrupted_eq_empty
  next_le_cached := h.tracked.cached
  next_le_seen := h.tracked.seen
  next_le_delivered := h.tracked.delivered
  next_le_route id route hid := h.tracked.seen id _ (h.lockstep.seen_eq id route hid)

/-- The branch of `remember_inventory` for an entry that is there but over. -/
def ReusesExpiredEntry (m : InvWantMesh) (eventId : String) (nowMs : ℕ) : Prop :=
  eventId ∈ m.seenInventories ∧ m.isSeen eventId nowMs = false

theorem Timely.not_reusesExpiredEntry {c nowMs : ℕ} {m : InvWantMesh} (h : Timely c m)
    (order : RouteOrder) (eventId : String) :
    ¬(m.prune order nowMs).ReusesExpiredEntry eventId nowMs := by
  rintro ⟨hmem, hunseen⟩
  obtain ⟨expiry, hlookup⟩ := Finmap.mem_iff.mp hmem
  have hlater := h.lt_of_seen_prune order hlookup
  simp [isSeen, hlookup, hlater] at hunseen

/-- A want is never passed on: the route's own want is not over before the route. -/
theorem Timely.receiveWant_emitted {c nowMs : ℕ} {m : InvWantMesh} (h : Timely c m)
    (order : RouteOrder) (hclock : c ≤ nowMs) {sourcePeer eventId peer id : String} :
    .send peer (.want id) ∉
      (OpResult.returned ((m.prune order nowMs).receiveWant sourcePeer eventId nowMs).1).emitted := by
  intro hsent
  have hpruned := h.prune order hclock
  unfold receiveWant at hsent
  split at hsent
  · exact absurd hsent List.not_mem_nil
  split at hsent
  · cases List.mem_singleton.mp hsent
  split at hsent
  · exact absurd hsent List.not_mem_nil
  next route hroute =>
  split at hsent
  · exact absurd hsent List.not_mem_nil
  have hwant : ((m.prune order nowMs).addPendingPeer sourcePeer eventId nowMs).wantForwarded.lookup
      eventId = some route.expiresAtMs := by
    rw [addPendingPeer_wantForwarded, hpruned.lockstep.want_eq, hroute, Option.map_some]
  have hlater := h.lt_of_seen_prune order (hpruned.lockstep.seen_eq _ _ hroute)
  simp only [hwant, Option.any_some, hlater, decide_true, if_true] at hsent
  exact absurd hsent List.not_mem_nil

/-- The route of an inventory seen for the first time is not there yet. -/
theorem Timely.notMem_upstreamRoutes {c nowMs : ℕ} {m : InvWantMesh} (h : Timely c m)
    (order : RouteOrder) (hclock : c ≤ nowMs) {eventId : String}
    (hnew : ((m.prune order nowMs).rememberInventory eventId nowMs).1 = true) :
    eventId ∉ ((m.prune order nowMs).rememberInventory eventId nowMs).2.upstreamRoutes := by
  have hpruned := h.prune order hclock
  have hunseen : (m.prune order nowMs).isSeen eventId nowMs = false := by
    by_contra hseen
    rw [Bool.not_eq_false] at hseen
    rw [rememberInventory_of_seen hseen] at hnew
    cases hnew
  have hfresh : eventId ∉ (m.prune order nowMs).seenInventories :=
    fun hmem => h.not_reusesExpiredEntry order eventId ⟨hmem, hunseen⟩
  rcases rememberInventory_snd hunseen with ⟨hmem, _⟩ | ⟨_, heq⟩
  · exact absurd hmem hfresh
  · rw [heq]
    intro hroute
    have hevicted : RoutesLockstep nowMs
        (evictOldestInventories (m.prune order nowMs).seenOrder (m.prune order nowMs)) :=
      evictOldestInventories_preserves
        (fun _ oldest rest _ h => h.forgetOldestInventory oldest rest) hpruned.lockstep
    have hstill : eventId ∉ (evictOldestInventories (m.prune order nowMs).seenOrder
        (m.prune order nowMs)).seenInventories :=
      @evictOldestInventories_preserves (fun m' => eventId ∉ m'.seenInventories)
        (fun _ _ _ _ hno hmem => hno (Finmap.mem_erase.mp hmem).2) (m.prune order nowMs) hfresh
    obtain ⟨route, hlookup⟩ := Finmap.mem_iff.mp hroute
    exact hstill (Finmap.mem_of_lookup_eq_some (hevicted.seen_eq _ _ hlookup))

end InvWantMesh

/-- Routes, wants, seen ids and waiting peers stay in lockstep along every run whose clock does
not go back. On the mesh that a call at a later time works on, pruned, `receive_want` passes no
want on, `remember_inventory` finds no entry that is over (in `publish` it runs after
`store_event`), and an id that it reports as new has no route yet. -/
theorem meshAfter_inLockstep {nostr : NostrCrate} (options : InvWantMeshOptions)
    (steps : List (Step nostr)) (hclock : (steps.filterMap Step.clock).Pairwise (· ≤ ·)) :
    (meshAfter options steps).InLockstep ∧
      ∀ (order : RouteOrder) (nowMs : ℕ), (∀ t ∈ steps.filterMap Step.clock, t ≤ nowMs) →
        (∀ sourcePeer eventId peer id, .send peer (.want id) ∉
          (OpResult.returned (((meshAfter options steps).prune order nowMs).receiveWant sourcePeer
            eventId nowMs).1).emitted) ∧
        (∀ eventId, ¬((meshAfter options steps).prune order nowMs).ReusesExpiredEntry eventId
          nowMs) ∧
        (∀ event payloadBytes eventId, ¬(((meshAfter options steps).prune order nowMs).storeEvent
          event payloadBytes nowMs).ReusesExpiredEntry eventId nowMs) ∧
        (∀ eventId,
          (((meshAfter options steps).prune order nowMs).rememberInventory eventId nowMs).1
              = true →
            eventId ∉ (((meshAfter options steps).prune order nowMs).rememberInventory eventId
              nowMs).2.upstreamRoutes) := by
  have htimely := InvWantMesh.Timely.meshAfter options
    (Mealy.clockedFrom_of_pairwise hclock fun t _ => Nat.zero_le t)
  refine ⟨htimely.inLockstep, fun order nowMs hlater => ?_⟩
  have hle := Mealy.lastClock_le (Nat.zero_le nowMs) hlater
  refine ⟨fun _ _ _ _ => htimely.receiveWant_emitted order hle,
    fun eventId => htimely.not_reusesExpiredEntry order eventId,
    fun _ _ eventId => ?_, fun eventId => htimely.notMem_upstreamRoutes order hle⟩
  -- Storing an event leaves the seen window alone.
  exact htimely.not_reusesExpiredEntry order eventId

/-- The run of a note: its clock does not go back, and its route is there to be in lockstep. -/
theorem meshAfter_inLockstep_noteRun :
    (noteRun.filterMap Step.clock).Pairwise (· ≤ ·) ∧
      (meshAfter {} noteRun).upstreamRoutes.size = 1 ∧ (meshAfter {} noteRun).InLockstep :=
  ⟨by decide, by decide +kernel, (meshAfter_inLockstep {} noteRun (by decide)).1⟩

end NostrPubsub
