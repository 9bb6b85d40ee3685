import NostrPubsub.Mesh.Provenance

/-!
# How routes are closed

A route is closed by one of two calls: a frame that passes every check of `receive_frame`, or
`dismiss_frame`, which only looks at the sender and the id it is given.
-/

namespace NostrPubsub

namespace InvWantMesh

/-- The route of `eventId` is fulfilled: inventories, wants and frames for it are ignored. -/
def isFulfilled (m : InvWantMesh) (eventId : String) : Bool :=
  (m.upstreamRoutes.lookup eventId).any UpstreamRoute.fulfilled

/-- No route is fulfilled in `m'` that is not in `m`. -/
abbrev NoneClosed : InvWantMesh → InvWantMesh → Prop :=
  NoNewRoute fun route => route.fulfilled = true

theorem isFulfilled_iff {m : InvWantMesh} {eventId : String} :
    m.isFulfilled eventId = true ↔ m.HasRoute (fun route => route.fulfilled = true) eventId := by
  unfold isFulfilled HasRoute
  cases m.upstreamRoutes.lookup eventId with
  | none => simp
  | some route => simp

/-- An inventory opens a route or extends an open one. -/
theorem NoNewRoute.receiveInventory_closed (m : InvWantMesh) (sourcePeer eventId : String)
    (eventKind payloadBytes hopLimit nowMs : ℕ) :
    NoneClosed m
      (m.receiveInventory sourcePeer eventId eventKind payloadBytes hopLimit nowMs).2 := by
  rcases m.receiveInventory_cases sourcePeer eventId eventKind payloadBytes hopLimit nowMs with
    ⟨heq, _⟩ | ⟨_, heq⟩ | ⟨_, heq⟩ <;> rw [heq]
  · exact .refl m
  · exact .extendRoute (fun _ _ hsame hclosed => hsame ▸ hclosed) m _ _ _ _ _ _
  · refine (NoNewRoute.rememberInventory m eventId nowMs).trans ?_
    rintro id ⟨found, hfound, hclosed⟩
    by_cases hroute : eventId ∈ (m.rememberInventory eventId nowMs).2.upstreamRoutes
    · simp only [openRoute, hroute, if_true] at hfound
      exact ⟨found, hfound, hclosed⟩
    · simp only [openRoute, hroute, if_false] at hfound
      rcases Finmap.lookup_insert_eq_some.mp hfound with ⟨rfl, rfl⟩ | ⟨_, hold⟩
      · cases hclosed
      · exact ⟨found, hold, hclosed⟩

/-- Closing a route closes no other. -/
theorem closeRoute_isFulfilled {m : InvWantMesh} {eventId id : String}
    (h : (m.closeRoute eventId).isFulfilled id = true) : m.isFulfilled id = true ∨ id = eventId := by
  by_cases hid : id = eventId
  · exact Or.inr hid
  · left
    rw [isFulfilled] at h ⊢
    have hlookup : (m.closeRoute eventId).upstreamRoutes.lookup id
        = m.upstreamRoutes.lookup id := by
      unfold closeRoute
      cases m.upstreamRoutes.lookup eventId with
      | none => rfl
      | some route => exact Finmap.lookup_insert_of_ne _ hid
    rwa [hlookup] at h

/-- A frame closes a route only when it passes every check for it. -/
theorem receiveFrame_closes {m : InvWantMesh} {nostr : NostrCrate} {sourcePeer eventId : String}
    {event : Event} {peers : List MeshPeer} {nowMs : ℕ} {verifySignature : Bool} {id : String}
    (h : (recordRejection sourcePeer (m.receiveFrame nostr sourcePeer eventId event peers nowMs
      verifySignature)).2.isFulfilled id = true) :
    m.isFulfilled id = true ∨ id = eventId ∧
      ∃ route payloadBytes, m.admitFrame nostr sourcePeer eventId event verifySignature
        = .ok (route, payloadBytes) := by
  unfold receiveFrame at h
  split at h
  · exact Or.inl h
  next route payloadBytes hadmitted =>
  split at h
  · exact Or.inl h
  obtain ⟨_, _, _, hremember⟩ := (((m.recordPeerBehavior sourcePeer validFrameReward
    .validFrame).storeEvent event payloadBytes nowMs).closeRoute eventId).rememberDelivered_frame
      eventId nowMs
  -- The routes after `acceptFrame` are those after `closeRoute`.
  have hclosed : (((m.recordPeerBehavior sourcePeer validFrameReward .validFrame).storeEvent event
      payloadBytes nowMs).closeRoute eventId).isFulfilled id = true := by
    simp only [recordRejection, acceptFrame] at h
    rw [hremember] at h
    exact h
  rcases closeRoute_isFulfilled hclosed with hold | hid
  · exact Or.inl hold
  · exact Or.inr ⟨hid, route, payloadBytes, hadmitted⟩

/-- Dismissing a frame closes the route it names, if its sender is a provider. -/
theorem dismissFrame_closes {m : InvWantMesh} {peerId eventId id : String}
    (h : (m.dismissFrame peerId eventId).isFulfilled id = true) :
    m.isFulfilled id = true ∨ id = eventId ∧ m.Provides peerId eventId := by
  unfold dismissFrame at h
  split at h
  · next hprovider =>
    rcases closeRoute_isFulfilled h with hold | hid
    · exact Or.inl hold
    · refine Or.inr ⟨hid, ?_⟩
      cases hroute : m.upstreamRoutes.lookup eventId with
      | none => simp [hroute] at hprovider
      | some route =>
        rw [hroute] at hprovider
        exact ⟨route, hroute, UpstreamRoute.hasProvider_iff.mp hprovider⟩
  · exact Or.inl h

end InvWantMesh

namespace Op

open InvWantMesh

variable {nostr : NostrCrate}

/-- The call is a frame of `sourcePeer` for `eventId` that carries `event`. -/
def IsFrame (sourcePeer eventId : String) (event : Event) : Op nostr → Prop
  | .receive source (.frame id carried) _ _ =>
    source = sourcePeer ∧ id = eventId ∧ carried = event
  | .receiveVerifiedFrame source id verified _ _ =>
    source = sourcePeer ∧ id = eventId ∧ verified.event = event
  | _ => False

/-- A call closes the route of `eventId` only as a frame with its event, from a provider and
as announced, or by dismissing a frame of a provider. -/
theorem apply_closes (order : RouteOrder) (m : InvWantMesh) (op : Op nostr) {eventId : String}
    (hopen : m.isFulfilled eventId = false)
    (h : (op.apply (InvWantMesh.prune order) m).2.isFulfilled eventId = true) :
    (∃ sourcePeer event route payloadBytes, op.IsFrame sourcePeer eventId event ∧
      (op.pruned (InvWantMesh.prune order) m).upstreamRoutes.lookup eventId = some route ∧
      sourcePeer ∈ route.providers ∧ eventId = event.id.toHex ∧
      Admissible nostr (op.pruned (InvWantMesh.prune order) m).options event payloadBytes ∧
      route.eventKind = event.kind ∧ route.payloadBytes = payloadBytes) ∨
    ∃ sourcePeer, op = .dismissFrame sourcePeer eventId ∧ m.Provides sourcePeer eventId := by
  -- A call that closes nothing contradicts `hopen`.
  have hnone : ¬NoneClosed m (op.apply (InvWantMesh.prune order) m).2 := by
    intro hnone
    rw [isFulfilled_iff.mpr (hnone eventId (isFulfilled_iff.mp h))] at hopen
    cases hopen
  have hpruned : ∀ t, (m.prune order t).isFulfilled eventId ≠ true := by
    intro t hclosed
    rw [isFulfilled_iff.mpr (NoNewRoute.prune m order t eventId (isFulfilled_iff.mp hclosed))]
      at hopen
    cases hopen
  cases op with
  | publish event peers t =>
    exact (hnone ((NoNewRoute.prune m order t).trans (.withValidated _ _ fun _ _ =>
      .publishValidated _ _ _ _ _ _))).elim
  | publishVerified verified peers t =>
    exact (hnone ((NoNewRoute.prune m order t).trans (.withValidated _ _ fun _ _ =>
      .publishValidated _ _ _ _ _ _))).elim
  | replayToPeer event peerId t =>
    exact (hnone ((NoNewRoute.prune m order t).trans (.withValidated _ _ fun _ _ =>
      .replayValidated _ _ _ _ _ _))).elim
  | replayVerifiedToPeer verified peerId t =>
    exact (hnone ((NoNewRoute.prune m order t).trans (.withValidated _ _ fun _ _ =>
      .replayValidated _ _ _ _ _ _))).elim
  | replayCachedToPeer peerId t => exact (hnone (.prune m order t)).elim
  | seedVerified verified t =>
    refine (hnone ((NoNewRoute.prune m order t).trans ?_)).elim
    simp only [apply, InvWantMesh.seedVerified]
    split
    · exact .refl _
    · exact .of_lookup fun _ _ hroute => hroute
  | receive sourcePeer message peers t =>
    cases message with
    | inventory id eventKind payloadBytes hopLimit =>
      exact (hnone ((NoNewRoute.prune m order t).trans
        (.recordRejection (.receiveInventory_closed _ _ _ _ _ _ _)))).elim
    | want id =>
      exact (hnone ((NoNewRoute.prune m order t).trans
        (.recordRejection (.receiveWant (fun _ _ hroute => hroute) _ _ _ _)))).elim
    | frame id event =>
      rcases receiveFrame_closes h with hold | ⟨rfl, route, payloadBytes, hadmitted⟩
      · exact absurd hold (hpruned t)
      · have hsigned : true = false → nostr.verify event = .ok () := fun hflag =>
          Bool.noConfusion hflag
        obtain ⟨hroute, hprovider, _, hid, hevent, hkind, hsize⟩ :=
          admitFrame_eq_ok hsigned hadmitted
        exact Or.inl ⟨sourcePeer, event, route, payloadBytes, ⟨rfl, rfl, rfl⟩, hroute, hprovider,
          hid, hevent, hkind, hsize⟩
  | receiveVerifiedFrame sourcePeer id verified peers t =>
    rcases receiveFrame_closes h with hold | ⟨rfl, route, payloadBytes, hadmitted⟩
    · exact absurd hold (hpruned t)
    · obtain ⟨hroute, hprovider, _, hid, hevent, hkind, hsize⟩ :=
        admitFrame_eq_ok (fun _ => verified.verified) hadmitted
      exact Or.inl ⟨sourcePeer, verified.event, route, payloadBytes, ⟨rfl, rfl, rfl⟩, hroute,
        hprovider, hid, hevent, hkind, hsize⟩
  | dismissFrame peerId id =>
    rcases dismissFrame_closes h with hold | ⟨rfl, hprovides⟩
    · rw [hold] at hopen
      cases hopen
    · exact Or.inr ⟨peerId, rfl, hprovides⟩
  | recordInvalidMessage peerId =>
    exact (hnone (.of_lookup fun _ _ hroute => hroute)).elim
  | recordTransportDisruption peerId id =>
    exact (hnone (.recordTransportDisruption (fun _ _ hroute => hroute) m peerId id)).elim
  | maintain t => exact (hnone (.prune m order t)).elim

end Op

end NostrPubsub
