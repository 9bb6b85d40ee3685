import NostrPubsub.Mesh.Updates

/-!
# Where routes come from

`NoNewRoute Q m m'` says that every route of `m'` with the property `Q` was there in `m`, with
the property. The helpers that only drop routes, or change a route in fields that `Q` does not
look at, satisfy it; two questions about routes use it, who their providers are and when they
are closed.
-/

namespace NostrPubsub

namespace InvWantMesh

/-- The route of `eventId` is there and satisfies `Q`. -/
def HasRoute (Q : UpstreamRoute → Prop) (m : InvWantMesh) (eventId : String) : Prop :=
  ∃ route, m.upstreamRoutes.lookup eventId = some route ∧ Q route

/-- No route of `m'` satisfies `Q` that does not in `m`. -/
def NoNewRoute (Q : UpstreamRoute → Prop) (m m' : InvWantMesh) : Prop :=
  ∀ eventId, m'.HasRoute Q eventId → m.HasRoute Q eventId

namespace NoNewRoute

variable {Q : UpstreamRoute → Prop} {m m' m'' : InvWantMesh}

theorem refl (m : InvWantMesh) : NoNewRoute Q m m := fun _ h => h

theorem trans (h : NoNewRoute Q m m') (h' : NoNewRoute Q m' m'') : NoNewRoute Q m m'' :=
  fun eventId hroute => h eventId (h' eventId hroute)

/-- Routes that were there before are not new. -/
theorem of_lookup (h : ∀ eventId route, m'.upstreamRoutes.lookup eventId = some route →
    m.upstreamRoutes.lookup eventId = some route) : NoNewRoute Q m m' := by
  rintro eventId ⟨route, hroute, hQ⟩
  exact ⟨route, h eventId route hroute, hQ⟩

/-- Changing one route in a way that does not establish `Q`. -/
theorem of_insert {eventId : String} {route route' : UpstreamRoute}
    (hroute : m.upstreamRoutes.lookup eventId = some route)
    (hinsert : m'.upstreamRoutes = m.upstreamRoutes.insert eventId route')
    (hQ : Q route' → Q route) : NoNewRoute Q m m' := by
  rintro id ⟨found, hfound, hfoundQ⟩
  rw [hinsert] at hfound
  rcases Finmap.lookup_insert_eq_some.mp hfound with ⟨rfl, rfl⟩ | ⟨_, hold⟩
  · exact ⟨route, hroute, hQ hfoundQ⟩
  · exact ⟨found, hold, hfoundQ⟩

/-- Eviction of seen ids only drops routes. -/
theorem rememberInventory (m : InvWantMesh) (eventId : String) (nowMs : ℕ) :
    NoNewRoute Q m (m.rememberInventory eventId nowMs).2 := by
  cases hseen : m.isSeen eventId nowMs with
  | true =>
    rw [rememberInventory_of_seen hseen]
    exact refl m
  | false =>
    have hevict : NoNewRoute Q m (evictOldestInventories m.seenOrder m) :=
      evictOldestInventories_preserves
        (fun _ _ _ _ h => h.trans
          (of_lookup fun _ _ hroute => (Finmap.lookup_erase_eq_some.mp hroute).2))
        (refl m)
    rcases rememberInventory_snd hseen with ⟨_, heq⟩ | ⟨_, heq⟩ <;> rw [heq]
    · exact of_lookup fun _ _ h => h
    · exact hevict.trans (of_lookup fun _ _ h => h)

theorem pruneExpired (m : InvWantMesh) (order : RouteOrder) (nowMs : ℕ) :
    NoNewRoute Q m (m.pruneExpired order nowMs) := by
  have hrecorded : NoNewRoute Q m (m.recordUnserved (m.expiredProviders order nowMs)) :=
    recordUnserved_preserves (fun _ _ _ _ h => h.trans (of_lookup fun _ _ h => h)) (refl m) _
  exact hrecorded.trans (of_lookup fun _ _ h => (Finmap.lookup_filter_eq_some.mp h).1)

theorem prune (m : InvWantMesh) (order : RouteOrder) (nowMs : ℕ) :
    NoNewRoute Q m (m.prune order nowMs) := by
  unfold InvWantMesh.prune
  split
  · exact refl m
  · exact pruneExpired m order nowMs

/-- Publishing keeps the routes, but for the eviction of seen ids. -/
theorem publishValidated (m : InvWantMesh) (event : Event) (eventId : String)
    (payloadBytes : ℕ) (peers : List MeshPeer) (nowMs : ℕ) :
    NoNewRoute Q m
      (InvWantMesh.publishValidated event eventId payloadBytes peers nowMs m).2 := by
  rw [publishValidated_snd]
  exact (of_lookup fun _ _ h => h).trans
    (rememberInventory (m.storeEvent event payloadBytes nowMs) eventId nowMs)

theorem replayValidated (m : InvWantMesh) (event : Event) (eventId : String)
    (payloadBytes : ℕ) (peerId : String) (nowMs : ℕ) :
    NoNewRoute Q m
      (InvWantMesh.replayValidated event eventId payloadBytes peerId nowMs m).2 :=
  of_lookup fun _ _ h => h

/-- Recording evidence leaves the routes alone. -/
theorem recordRejection {sourcePeer : String}
    {result : Except PubsubError (List InvWantAction) × InvWantMesh}
    (h : NoNewRoute Q m result.2) :
    NoNewRoute Q m (InvWantMesh.recordRejection sourcePeer result).2 := by
  obtain ⟨_ | _, m'⟩ := result
  · exact h.trans (of_lookup fun _ _ hroute => hroute)
  · exact h

theorem withValidated (validated : Except PubsubError (String × ℕ))
    (continue_ : String → ℕ → InvWantMesh → List InvWantAction × InvWantMesh)
    (h : ∀ eventId payloadBytes, NoNewRoute Q m (continue_ eventId payloadBytes m).2) :
    NoNewRoute Q m (InvWantMesh.withValidated validated continue_ m).2 := by
  rcases validated with error | ⟨eventId, payloadBytes⟩
  · exact refl m
  · exact h eventId payloadBytes

/-- Closing a route does not establish what does not depend on its being open. -/
theorem closeRoute
    (hclosed : ∀ route : UpstreamRoute,
      Q { route with fulfilled := true, transportDisruptedPeers := ∅ } → Q route)
    (m : InvWantMesh) (eventId : String) : NoNewRoute Q m (m.closeRoute eventId) := by
  cases hroute : m.upstreamRoutes.lookup eventId with
  | none =>
    refine .of_lookup fun id route h => ?_
    simpa [InvWantMesh.closeRoute, hroute] using h
  | some route =>
    have hinsert : (m.closeRoute eventId).upstreamRoutes = m.upstreamRoutes.insert eventId
        { route with fulfilled := true, transportDisruptedPeers := ∅ } := by
      simp [InvWantMesh.closeRoute, hroute]
    exact .of_insert hroute hinsert (hclosed route)

/-- Another inventory for a seen id neither opens nor closes its route. -/
theorem extendRoute
    (hsame : ∀ route route' : UpstreamRoute, route'.fulfilled = route.fulfilled →
      Q route' → Q route)
    (m : InvWantMesh) (sourcePeer eventId : String) (eventKind payloadBytes hopLimit nowMs : ℕ) :
    NoNewRoute Q m
      (m.extendRoute sourcePeer eventId eventKind payloadBytes hopLimit nowMs).2 := by
  rcases m.extendRoute_cases sourcePeer eventId eventKind payloadBytes hopLimit nowMs with
    ⟨heq, _⟩ | ⟨route, hroute, _, ⟨_, heq⟩ | ⟨_, heq⟩ | ⟨_, _, heq⟩⟩ <;> rw [heq]
  · exact refl m
  · exact of_insert hroute rfl (hsame _ _ rfl)
  · exact of_insert hroute rfl (hsame _ _ rfl)
  · exact of_insert hroute rfl (hsame _ _ rfl)

section Undisrupted

variable (hdisrupted : ∀ (route : UpstreamRoute) (peers : Finset String),
  Q { route with transportDisruptedPeers := peers } → Q route)

include hdisrupted

theorem recordTransportDisruption (m : InvWantMesh) (peerId eventId : String) :
    NoNewRoute Q m (m.recordTransportDisruption peerId eventId).2 := by
  unfold InvWantMesh.recordTransportDisruption
  split
  · exact refl m
  next route hroute =>
  split
  · exact of_insert hroute rfl (hdisrupted route _)
  · exact refl m

theorem forwardWant {eventId : String} {route : UpstreamRoute}
    (hroute : m.upstreamRoutes.lookup eventId = some route) :
    NoNewRoute Q m (m.forwardWant route eventId).2 :=
  of_insert hroute rfl (hdisrupted route _)

/-- A want changes no route but in its disrupted peers. -/
theorem receiveWant (m : InvWantMesh) (sourcePeer eventId : String) (nowMs : ℕ) :
    NoNewRoute Q m (m.receiveWant sourcePeer eventId nowMs).2 := by
  unfold InvWantMesh.receiveWant
  split
  · exact refl m
  split
  · exact refl m
  split
  · exact refl m
  next route hroute =>
  split
  · exact refl m
  have hwaiting : NoNewRoute Q m (m.addPendingPeer sourcePeer eventId nowMs) :=
    of_lookup fun id route h => by rwa [addPendingPeer_upstreamRoutes] at h
  simp only
  split
  · exact hwaiting
  · exact hwaiting.trans (forwardWant hdisrupted (by rwa [addPendingPeer_upstreamRoutes]))

end Undisrupted

end NoNewRoute

end InvWantMesh

end NostrPubsub
