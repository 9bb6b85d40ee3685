import NostrPubsub.Mesh.Routes

/-!
# Where deliveries and messages come from

A delivered event was asked for: some earlier step sent its source a want for it. A frame or
an inventory names an event that this mesh has validated, in the same call or earlier in the
run.

Both follow from one invariant (`Sound`) that ties the state to the history of the run: the
cache holds validated events under their own ids, and every provider of a route was sent a
want. It is stated over two predicates, what has been validated (`V`) and what has been asked
(`W`), so that a step only has to say how they grow.
-/

namespace NostrPubsub

namespace InvWantMesh

/-! ## Providers -/

/-- `peer` is a provider of the route of `eventId`. -/
def Provides (m : InvWantMesh) (peer eventId : String) : Prop :=
  m.HasRoute (fun route => peer ∈ route.providers) eventId

/-- No route of `m'` has a provider that it does not have in `m`. -/
def NoNewProviders (m m' : InvWantMesh) : Prop :=
  ∀ peer, NoNewRoute (fun route => peer ∈ route.providers) m m'

namespace NoNewProviders

variable {m m' m'' : InvWantMesh}

theorem refl (m : InvWantMesh) : NoNewProviders m m := fun _ => .refl m

theorem trans (h : NoNewProviders m m') (h' : NoNewProviders m' m'') : NoNewProviders m m'' :=
  fun peer => (h peer).trans (h' peer)

theorem of_lookup (h : ∀ eventId route, m'.upstreamRoutes.lookup eventId = some route →
    m.upstreamRoutes.lookup eventId = some route) : NoNewProviders m m' :=
  fun _ => .of_lookup h

theorem closeRoute (m : InvWantMesh) (eventId : String) :
    NoNewProviders m (m.closeRoute eventId) :=
  fun _ => .closeRoute (fun _ h => h) m eventId

theorem dismissFrame (m : InvWantMesh) (peerId eventId : String) :
    NoNewProviders m (m.dismissFrame peerId eventId) := by
  unfold InvWantMesh.dismissFrame
  split
  · exact (closeRoute m eventId).trans (of_lookup fun _ _ h => h)
  · exact refl m

theorem recordTransportDisruption (m : InvWantMesh) (peerId eventId : String) :
    NoNewProviders m (m.recordTransportDisruption peerId eventId).2 :=
  fun _ => .recordTransportDisruption (fun _ _ h => h) m peerId eventId

theorem forwardWant {eventId : String} {route : UpstreamRoute}
    (hroute : m.upstreamRoutes.lookup eventId = some route) :
    NoNewProviders m (m.forwardWant route eventId).2 :=
  fun _ => .forwardWant (fun _ _ h => h) hroute

theorem settleRoute (m : InvWantMesh) (eventId : String) (nowMs : ℕ) :
    NoNewProviders m (m.settleRoute eventId nowMs) := by
  refine (closeRoute m eventId).trans (of_lookup fun id route h => ?_)
  obtain ⟨_, _, _, heq⟩ := (m.closeRoute eventId).rememberDelivered_frame eventId nowMs
  rw [InvWantMesh.settleRoute, heq] at h
  exact h

end NoNewProviders

/-- An inventory for a seen id makes a provider only of its sender, and asks it. -/
theorem extendRoute_provides {m : InvWantMesh} {sourcePeer eventId peer id : String}
    {eventKind payloadBytes hopLimit nowMs : ℕ}
    (h : (m.extendRoute sourcePeer eventId eventKind payloadBytes hopLimit nowMs).2.Provides
      peer id) :
    m.Provides peer id ∨ peer = sourcePeer ∧ id = eventId ∧
      (m.extendRoute sourcePeer eventId eventKind payloadBytes hopLimit nowMs).1
        = .ok [.send sourcePeer (.want eventId)] := by
  obtain ⟨found, hfound, hpeer⟩ := h
  rcases m.extendRoute_cases sourcePeer eventId eventKind payloadBytes hopLimit nowMs with
    ⟨heq, _⟩ | ⟨route, hroute, _, hcase⟩
  · rw [heq] at hfound
    exact Or.inl ⟨found, hfound, hpeer⟩
  -- In each remaining case the route of `eventId` is replaced and the others stay.
  rcases hcase with ⟨_, heq⟩ | ⟨_, heq⟩ | ⟨_, _, heq⟩ <;> rw [heq] at hfound <;>
    rcases Finmap.lookup_insert_eq_some.mp hfound with ⟨rfl, rfl⟩ | ⟨_, hold⟩
  · exact Or.inl ⟨route, hroute, hpeer⟩
  · exact Or.inl ⟨found, hold, hpeer⟩
  · exact Or.inl ⟨route, hroute, hpeer⟩
  · exact Or.inl ⟨found, hold, hpeer⟩
  · have hcases : peer = sourcePeer ∨ peer ∈ route.providers := by
      simp only [UpstreamRoute.providers, Finset.mem_insert] at hpeer ⊢
      tauto
    rcases hcases with rfl | hold
    · exact Or.inr ⟨rfl, rfl, by rw [heq]⟩
    · exact Or.inl ⟨route, hroute, hold⟩
  · exact Or.inl ⟨found, hold, hpeer⟩

/-- The first inventory of an id makes a provider only of its sender. -/
theorem openRoute_provides {m : InvWantMesh} {sourcePeer eventId peer id : String}
    {eventKind payloadBytes hopLimit nowMs : ℕ}
    (h : (m.openRoute sourcePeer eventId eventKind payloadBytes hopLimit nowMs).2.Provides
      peer id) :
    m.Provides peer id ∨ peer = sourcePeer ∧ id = eventId := by
  obtain ⟨found, hfound, hpeer⟩ := h
  by_cases hroute : eventId ∈ m.upstreamRoutes
  · simp only [openRoute, hroute, if_true] at hfound
    exact Or.inl ⟨found, hfound, hpeer⟩
  · simp only [openRoute, hroute, if_false] at hfound
    rcases Finmap.lookup_insert_eq_some.mp hfound with ⟨rfl, rfl⟩ | ⟨_, hold⟩
    · refine Or.inr ⟨?_, rfl⟩
      simpa [UpstreamRoute.providers] using hpeer
    · exact Or.inl ⟨found, hold, hpeer⟩

theorem receiveInventory_provides {m : InvWantMesh} {sourcePeer eventId peer id : String}
    {eventKind payloadBytes hopLimit nowMs : ℕ}
    (h : (m.receiveInventory sourcePeer eventId eventKind payloadBytes hopLimit nowMs).2.Provides
      peer id) :
    m.Provides peer id ∨ peer = sourcePeer ∧ id = eventId ∧
      (m.receiveInventory sourcePeer eventId eventKind payloadBytes hopLimit nowMs).1
        = .ok [.send sourcePeer (.want eventId)] := by
  rcases m.receiveInventory_cases sourcePeer eventId eventKind payloadBytes hopLimit nowMs with
    ⟨heq, _⟩ | ⟨_, heq⟩ | ⟨_, heq⟩ <;> rw [heq] at h
  · exact Or.inl h
  · rw [heq]
    exact extendRoute_provides h
  · rcases openRoute_provides h with hold | ⟨rfl, rfl⟩
    · exact Or.inl (NoNewRoute.rememberInventory m eventId nowMs _ hold)
    · exact Or.inr ⟨rfl, rfl, by rw [heq]⟩

/-! ## The invariant -/

/-- The cache holds validated events under their own ids, and every provider of a route was
asked for its event. `V event payloadBytes` says that the event was validated, with that
serialized size; `W peer eventId` that a want for the id was sent to the peer. -/
structure Sound (V : Event → ℕ → Prop) (W : String → String → Prop) (m : InvWantMesh) :
    Prop where
  cached : ∀ eventId cached, m.cachedEvents.lookup eventId = some cached →
    eventId = cached.event.id.toHex ∧ V cached.event cached.payloadBytes
  asked : ∀ peer eventId, m.Provides peer eventId → W peer eventId

namespace Sound

variable {V V' : Event → ℕ → Prop} {W W' : String → String → Prop} {m m' : InvWantMesh}

theorem new (options : InvWantMeshOptions) : Sound V W (InvWantMesh.new options) where
  cached := by simp [InvWantMesh.new]
  asked := by
    rintro peer eventId ⟨route, hroute, _⟩
    simp [InvWantMesh.new] at hroute

theorem mono (h : Sound V W m) (hV : ∀ event n, V event n → V' event n)
    (hW : ∀ peer eventId, W peer eventId → W' peer eventId) : Sound V' W' m where
  cached eventId cached hcached :=
    ⟨(h.cached eventId cached hcached).1, hV _ _ (h.cached eventId cached hcached).2⟩
  asked peer eventId hp := hW peer eventId (h.asked peer eventId hp)

/-- A change of the routes that adds no provider. -/
theorem routesOnly (h : Sound V W m) (hroutes : RoutesOnly m m')
    (hproviders : NoNewProviders m m') : Sound V W m' where
  cached := by
    obtain ⟨_, _, _, _, _, _, _, rfl⟩ := hroutes
    exact h.cached
  asked peer eventId hp := h.asked peer eventId (hproviders peer eventId hp)

theorem recordPeerBehavior (h : Sound V W m) (peerId : String) (delta : ℤ)
    (evidence : PeerBehaviorEvidence) : Sound V W (m.recordPeerBehavior peerId delta evidence) :=
  ⟨h.cached, h.asked⟩

/-- Storing a validated event. -/
theorem storeEvent (h : Sound V W m) {event : Event} {payloadBytes : ℕ}
    (hevent : V event payloadBytes) (nowMs : ℕ) :
    Sound V W (m.storeEvent event payloadBytes nowMs) where
  cached eventId cached hcached := by
    rcases EventCache.lookup_store hcached with ⟨hid, rfl⟩ | hold
    · exact ⟨hid, hevent⟩
    · exact h.cached eventId cached hold
  asked := h.asked

theorem pruneExpired (h : Sound V W m) (order : RouteOrder) (nowMs : ℕ) :
    Sound V W (m.pruneExpired order nowMs) where
  cached eventId cached hcached := by
    have hrecorded : Sound V W (m.recordUnserved (m.expiredProviders order nowMs)) :=
      recordUnserved_preserves (fun _ _ _ _ h => h.recordPeerBehavior _ _ _) h _
    exact hrecorded.cached eventId cached (Finmap.lookup_filter_eq_some.mp hcached).1
  asked peer eventId hp := h.asked peer eventId
    (NoNewRoute.pruneExpired m order nowMs eventId hp)

theorem prune (h : Sound V W m) (order : RouteOrder) (nowMs : ℕ) :
    Sound V W (m.prune order nowMs) := by
  unfold InvWantMesh.prune
  split
  · exact h
  · exact h.pruneExpired order nowMs

end Sound

/-! ## Actions -/

/-- A delivery satisfies `D`; a frame or an inventory names a validated event by its id, and an
inventory announces its kind and size. -/
def Justified (V : Event → ℕ → Prop) (D : String → Event → Prop) : InvWantAction → Prop
  | .deliver sourcePeer event => D sourcePeer event
  | .send _ (.frame eventId event) => eventId = event.id.toHex ∧ ∃ payloadBytes, V event payloadBytes
  | .send _ (.inventory eventId eventKind payloadBytes _) =>
    ∃ event, eventId = event.id.toHex ∧ eventKind = event.kind ∧ V event payloadBytes
  | .send _ (.want _) => True

/-- What a call leaves behind is sound and what it emits is justified. -/
structure Explained (V : Event → ℕ → Prop) (W : String → String → Prop)
    (D : String → Event → Prop) (actions : List InvWantAction) (m : InvWantMesh) : Prop where
  sound : Sound V W m
  justified : ∀ action ∈ actions, Justified V D action

namespace Explained

variable {V : Event → ℕ → Prop} {W : String → String → Prop} {D : String → Event → Prop}
  {m : InvWantMesh} {nowMs : ℕ}

/-- A call that emits nothing. -/
theorem silent (h : Sound V W m) : Explained V W D [] m :=
  ⟨h, fun _ h => absurd h List.not_mem_nil⟩

/-- The inventory of a validated event is justified for every peer it is sent to. -/
theorem justified_sendToSelectedPeers {event : Event} {payloadBytes hopLimit : ℕ}
    (hevent : V event payloadBytes) {peers : List MeshPeer} {excludedPeer : Option String}
    {action : InvWantAction}
    (h : action ∈ m.sendToSelectedPeers peers excludedPeer
      (.inventory event.id.toHex event.kind payloadBytes hopLimit)) : Justified V D action := by
  obtain ⟨peerId, rfl⟩ := eq_send_of_mem_sendToSelectedPeers h
  exact ⟨event, rfl, rfl, hevent⟩

theorem publishValidated (h : Sound V W m) {event : Event} {payloadBytes : ℕ}
    (hevent : V event payloadBytes) (peers : List MeshPeer) :
    Explained V W D
      (publishValidated event event.id.toHex payloadBytes peers nowMs m).1
      (publishValidated event event.id.toHex payloadBytes peers nowMs m).2 := by
  refine ⟨?_, fun action haction => ?_⟩
  · rw [publishValidated_snd]
    exact (h.storeEvent hevent nowMs).routesOnly (.rememberInventory _ _ _)
      fun _ => .rememberInventory _ _ _
  · unfold InvWantMesh.publishValidated at haction
    simp only at haction
    split at haction
    · exact absurd haction List.not_mem_nil
    · exact justified_sendToSelectedPeers hevent haction

theorem replayValidated (h : Sound V W m) {event : Event} {payloadBytes : ℕ}
    (hevent : V event payloadBytes) (peerId : String) :
    Explained V W D
      (replayValidated event event.id.toHex payloadBytes peerId nowMs m).1
      (replayValidated event event.id.toHex payloadBytes peerId nowMs m).2 := by
  refine ⟨h.storeEvent hevent nowMs, fun action haction => ?_⟩
  obtain rfl := List.mem_singleton.mp haction
  exact ⟨event, rfl, rfl, hevent⟩

/-- A route gains a provider only together with a want sent to it. -/
theorem receiveInventory (h : Sound V W m) {sourcePeer eventId : String}
    {eventKind payloadBytes hopLimit : ℕ}
    (hasked : .send sourcePeer (.want eventId) ∈ (OpResult.returned (m.receiveInventory sourcePeer
      eventId eventKind payloadBytes hopLimit nowMs).1).emitted → W sourcePeer eventId) :
    Explained V W D
      (OpResult.returned (m.receiveInventory sourcePeer eventId eventKind payloadBytes hopLimit
        nowMs).1).emitted
      (m.receiveInventory sourcePeer eventId eventKind payloadBytes hopLimit nowMs).2 := by
  refine ⟨⟨?_, fun peer id hp => ?_⟩, fun action haction => ?_⟩
  · obtain ⟨_, _, _, _, _, _, _, heq⟩ :=
      RoutesOnly.receiveInventory m sourcePeer eventId eventKind payloadBytes hopLimit nowMs
    rw [heq]
    exact h.cached
  · rcases receiveInventory_provides hp with hold | ⟨rfl, rfl, heq⟩
    · exact h.asked peer id hold
    · rw [heq] at hasked
      exact hasked List.mem_cons_self
  · rw [receiveInventory_emitted haction]
    trivial

/-- A want is answered with a cached event, or passed on. -/
theorem receiveWant (h : Sound V W m) (sourcePeer eventId : String) :
    Explained V W D (OpResult.returned (m.receiveWant sourcePeer eventId nowMs).1).emitted
      (m.receiveWant sourcePeer eventId nowMs).2 := by
  unfold InvWantMesh.receiveWant
  split
  · exact silent h
  split
  · next cached hcached =>
    obtain ⟨hid, hevent⟩ := h.cached _ _ hcached
    refine ⟨h, fun action haction => ?_⟩
    obtain rfl := List.mem_singleton.mp haction
    exact ⟨hid, _, hevent⟩
  split
  · exact silent h
  next route hroute =>
  split
  · exact silent h
  have hwait : Sound V W (m.addPendingPeer sourcePeer eventId nowMs) := by
    refine h.routesOnly (.addPendingPeer _ _ _ _) (.of_lookup fun id route hlookup => ?_)
    rwa [addPendingPeer_upstreamRoutes] at hlookup
  simp only
  split
  · exact silent hwait
  · have hkept : (m.addPendingPeer sourcePeer eventId nowMs).upstreamRoutes.lookup eventId
        = some route := by
      rw [addPendingPeer_upstreamRoutes, hroute]
    refine ⟨hwait.routesOnly (.forwardWant _ _ _) (.forwardWant hkept), fun action haction => ?_⟩
    obtain rfl := List.mem_singleton.mp haction
    trivial

/-- A frame that is accepted is delivered, sent to the waiting peers and announced. -/
theorem acceptFrame (h : Sound V W m) {route : UpstreamRoute} {sourcePeer : String}
    {event : Event} {payloadBytes : ℕ} {peers : List MeshPeer} (hevent : V event payloadBytes)
    (hdelivery : D sourcePeer event) :
    Explained V W D
      (m.acceptFrame route sourcePeer event.id.toHex event payloadBytes peers nowMs).1
      (m.acceptFrame route sourcePeer event.id.toHex event payloadBytes peers nowMs).2 := by
  have hstored := (h.recordPeerBehavior sourcePeer validFrameReward .validFrame).storeEvent
    hevent nowMs
  refine ⟨⟨fun id cached hcached => ?_, fun peer id hp => ?_⟩, fun action haction => ?_⟩
  · obtain ⟨_, _, _, _, _, _, heq⟩ := ((m.recordPeerBehavior sourcePeer validFrameReward
      .validFrame).storeEvent event payloadBytes nowMs).settleRoute_frame event.id.toHex nowMs
    change (settleRoute _ _ _).cachedEvents.lookup id = some cached at hcached
    rw [heq] at hcached
    exact hstored.cached id cached hcached
  · exact hstored.asked peer id (NoNewProviders.settleRoute _ event.id.toHex nowMs peer id hp)
  · simp only [InvWantMesh.acceptFrame, List.mem_append] at haction
    rcases haction with (hdeliver | hframe) | hinventory
    · split at hdeliver
      · obtain rfl := List.mem_singleton.mp hdeliver
        exact hdelivery
      · exact absurd hdeliver List.not_mem_nil
    · rcases hpending : Finmap.lookup event.id.toHex _ with _ | pending
      · rw [hpending] at hframe
        exact absurd hframe List.not_mem_nil
      · rw [hpending] at hframe
        obtain ⟨peerId, _, rfl⟩ := List.mem_map.mp hframe
        exact ⟨rfl, _, hevent⟩
    · split at hinventory
      · exact justified_sendToSelectedPeers hevent hinventory
      · exact absurd hinventory List.not_mem_nil

end Explained

end InvWantMesh

/-! ## Calls -/

namespace Op

variable {nostr : NostrCrate}

/-- The call validates `event`, with the serialized size `payloadBytes`, on the pruned mesh
`m`: its signature check, if it makes one, and its kind and size checks pass, and a frame is
one that was asked for. -/
def Validates (m : InvWantMesh) : Op nostr → Event → ℕ → Prop
  | .publish event _ _, e, n | .replayToPeer event _ _, e, n =>
    e = event ∧ m.options.validateEvent nostr event = .ok (event.id.toHex, n)
  | .publishVerified verified _ _, e, n | .replayVerifiedToPeer verified _ _, e, n
  | .seedVerified verified _, e, n =>
    e = verified.event ∧
      m.options.validateVerifiedEvent nostr verified.event = .ok (verified.event.id.toHex, n)
  | .receive sourcePeer (.frame eventId event) _ _, e, n =>
    e = event ∧ ∃ route, m.admitFrame nostr sourcePeer eventId event true = .ok (route, n)
  | .receiveVerifiedFrame sourcePeer eventId verified _ _, e, n =>
    e = verified.event ∧
      ∃ route, m.admitFrame nostr sourcePeer eventId verified.event false = .ok (route, n)
  | _, _, _ => False

/-- A validated event is verified, and its kind and size are admitted. -/
theorem Validates.admissible {m : InvWantMesh} {op : Op nostr} {event : Event} {payloadBytes : ℕ}
    (h : op.Validates m event payloadBytes) : Admissible nostr m.options event payloadBytes := by
  cases op with
  | publish published _ _ =>
    obtain ⟨rfl, hvalid⟩ := h
    exact (admissible_of_validateEvent hvalid).2
  | publishVerified verified _ _ =>
    obtain ⟨rfl, hvalid⟩ := h
    exact (admissible_of_validateVerifiedEvent verified.verified hvalid).2
  | replayToPeer replayed _ _ =>
    obtain ⟨rfl, hvalid⟩ := h
    exact (admissible_of_validateEvent hvalid).2
  | replayVerifiedToPeer verified _ _ =>
    obtain ⟨rfl, hvalid⟩ := h
    exact (admissible_of_validateVerifiedEvent verified.verified hvalid).2
  | seedVerified verified _ =>
    obtain ⟨rfl, hvalid⟩ := h
    exact (admissible_of_validateVerifiedEvent verified.verified hvalid).2
  | receive sourcePeer message _ _ =>
    cases message with
    | frame eventId received =>
      obtain ⟨rfl, route, hadmitted⟩ := h
      have hsigned : true = false → nostr.verify event = .ok () := fun h =>
        Bool.noConfusion h
      obtain ⟨_, _, _, _, hevent, _⟩ := InvWantMesh.admitFrame_eq_ok hsigned hadmitted
      exact hevent
    | inventory _ _ _ _ => exact h.elim
    | want _ => exact h.elim
  | receiveVerifiedFrame sourcePeer eventId verified _ _ =>
    obtain ⟨rfl, route, hadmitted⟩ := h
    obtain ⟨_, _, _, _, hevent, _⟩ :=
      InvWantMesh.admitFrame_eq_ok (fun _ => verified.verified) hadmitted
    exact hevent
  | replayCachedToPeer _ _ => exact h.elim
  | dismissFrame _ _ => exact h.elim
  | recordInvalidMessage _ => exact h.elim
  | recordTransportDisruption _ _ => exact h.elim
  | maintain _ => exact h.elim

section Explained

variable {V : Event → ℕ → Prop} {W : String → String → Prop} {D : String → Event → Prop}
  {m : InvWantMesh} {nowMs : ℕ}

theorem withValidated_explained (validated : Except PubsubError (String × ℕ))
    (continue_ : String → ℕ → InvWantMesh → List InvWantAction × InvWantMesh)
    (h : InvWantMesh.Sound V W m)
    (hcontinue : ∀ eventId payloadBytes, validated = .ok (eventId, payloadBytes) →
      InvWantMesh.Explained V W D (continue_ eventId payloadBytes m).1
        (continue_ eventId payloadBytes m).2) :
    InvWantMesh.Explained V W D
      (OpResult.returned (InvWantMesh.withValidated validated continue_ m).1).emitted
      (InvWantMesh.withValidated validated continue_ m).2 := by
  unfold InvWantMesh.withValidated
  split
  · exact .silent h
  · exact hcontinue _ _ rfl

/-- A rejection emits nothing, so recording it does not change what is emitted. -/
theorem emitted_recordRejection {sourcePeer : String}
    {result : Except PubsubError (List InvWantAction) × InvWantMesh} {action : InvWantAction} :
    action ∈ (OpResult.returned (InvWantMesh.recordRejection sourcePeer result).1).emitted ↔
      action ∈ (OpResult.returned result.1).emitted := by
  obtain ⟨error | actions, m'⟩ := result <;> rfl

/-- A rejection is recorded and emits nothing. -/
theorem recordRejection_explained {sourcePeer : String}
    {result : Except PubsubError (List InvWantAction) × InvWantMesh}
    (h : InvWantMesh.Explained V W D (OpResult.returned result.1).emitted result.2) :
    InvWantMesh.Explained V W D
      (OpResult.returned (InvWantMesh.recordRejection sourcePeer result).1).emitted
      (InvWantMesh.recordRejection sourcePeer result).2 := by
  obtain ⟨error | actions, m'⟩ := result
  · exact .silent (h.sound.recordPeerBehavior _ _ _)
  · exact h

/-- A frame is delivered only for a peer that provides its event. -/
theorem receiveFrame_explained {sourcePeer eventId : String} {event : Event}
    {peers : List MeshPeer} {verifySignature : Bool} (h : InvWantMesh.Sound V W m)
    (hverify : verifySignature = false → nostr.verify event = .ok ())
    (hevent : ∀ route payloadBytes,
      m.admitFrame nostr sourcePeer eventId event verifySignature = .ok (route, payloadBytes) →
        V event payloadBytes ∧ (m.Provides sourcePeer event.id.toHex → D sourcePeer event)) :
    InvWantMesh.Explained V W D
      (OpResult.returned
        (m.receiveFrame nostr sourcePeer eventId event peers nowMs verifySignature).1).emitted
      (m.receiveFrame nostr sourcePeer eventId event peers nowMs verifySignature).2 := by
  unfold InvWantMesh.receiveFrame
  split
  · exact .silent h
  next route payloadBytes hadmitted =>
  obtain ⟨hroute, hprovider, _, rfl, _⟩ := InvWantMesh.admitFrame_eq_ok hverify hadmitted
  obtain ⟨hvalidated, hdelivery⟩ := hevent route payloadBytes hadmitted
  split
  · exact .silent h
  · exact .acceptFrame h hvalidated (hdelivery ⟨route, hroute, hprovider⟩)

end Explained

/-- A call on a sound mesh leaves a sound mesh and justifies what it emits, when `V` holds of
the events it validates, `W` of the wants it sends, and `D` of a validated event that is
provided by the peer it came from. -/
theorem apply_explained {V : Event → ℕ → Prop} {W : String → String → Prop}
    {D : String → Event → Prop} (prune : ℕ → InvWantMesh → InvWantMesh) (op : Op nostr)
    {m : InvWantMesh} (h : InvWantMesh.Sound V W (op.pruned prune m))
    (hV : ∀ event payloadBytes, op.Validates (op.pruned prune m) event payloadBytes →
      V event payloadBytes)
    (hW : ∀ peer eventId, .send peer (.want eventId) ∈ (op.apply prune m).1.emitted →
      W peer eventId)
    (hD : ∀ peer event payloadBytes, op.Validates (op.pruned prune m) event payloadBytes →
      (op.pruned prune m).Provides peer event.id.toHex → D peer event) :
    InvWantMesh.Explained V W D (op.apply prune m).1.emitted (op.apply prune m).2 := by
  cases op with
  -- A publication is validated first, and what it stores and announces is that event.
  | publish event peers t =>
    refine withValidated_explained ((prune t m).options.validateEvent nostr event)
      (fun eventId payloadBytes => InvWantMesh.publishValidated event eventId payloadBytes peers t) h
      fun eventId payloadBytes hvalid => ?_
    obtain ⟨rfl, _⟩ := admissible_of_validateEvent hvalid
    exact .publishValidated h (hV _ _ ⟨rfl, hvalid⟩) peers
  | publishVerified verified peers t =>
    refine withValidated_explained ((prune t m).options.validateVerifiedEvent nostr verified.event)
      (fun eventId payloadBytes => InvWantMesh.publishValidated verified.event eventId payloadBytes peers t) h
      fun eventId payloadBytes hvalid => ?_
    obtain ⟨rfl, _⟩ := admissible_of_validateVerifiedEvent verified.verified hvalid
    exact .publishValidated h (hV _ _ ⟨rfl, hvalid⟩) peers
  | replayToPeer event peerId t =>
    refine withValidated_explained ((prune t m).options.validateEvent nostr event)
      (fun eventId payloadBytes => InvWantMesh.replayValidated event eventId payloadBytes peerId t) h
      fun eventId payloadBytes hvalid => ?_
    obtain ⟨rfl, _⟩ := admissible_of_validateEvent hvalid
    exact .replayValidated h (hV _ _ ⟨rfl, hvalid⟩) peerId
  | replayVerifiedToPeer verified peerId t =>
    refine withValidated_explained ((prune t m).options.validateVerifiedEvent nostr verified.event)
      (fun eventId payloadBytes => InvWantMesh.replayValidated verified.event eventId payloadBytes peerId t) h
      fun eventId payloadBytes hvalid => ?_
    obtain ⟨rfl, _⟩ := admissible_of_validateVerifiedEvent verified.verified hvalid
    exact .replayValidated h (hV _ _ ⟨rfl, hvalid⟩) peerId
  -- What is replayed from the cache was validated when it was stored.
  | replayCachedToPeer peerId t =>
    refine ⟨h, fun action haction => ?_⟩
    obtain ⟨eventId, _, hcached⟩ := List.mem_filterMap.mp haction
    obtain ⟨cached, hlookup, rfl⟩ := Option.map_eq_some_iff.mp hcached
    obtain ⟨hid, hevent⟩ := h.cached _ _ hlookup
    exact ⟨cached.event, hid, rfl, hevent⟩
  | seedVerified verified t =>
    simp only [apply, InvWantMesh.seedVerified]
    split
    · exact .silent h
    · next hvalid =>
      obtain ⟨rfl, _⟩ := admissible_of_validateVerifiedEvent verified.verified hvalid
      exact .silent (h.storeEvent (hV _ _ ⟨rfl, hvalid⟩) t)
  -- A rejected message is recorded against its sender and emits nothing.
  | receive sourcePeer message peers t =>
    refine recordRejection_explained ?_
    cases message with
    | inventory eventId eventKind payloadBytes hopLimit =>
      refine .receiveInventory h fun hsent => hW _ _ ?_
      exact emitted_recordRejection.mpr hsent
    | want eventId => exact .receiveWant h sourcePeer eventId
    | frame eventId event =>
      refine receiveFrame_explained h (fun h => Bool.noConfusion h) fun route payloadBytes hadmitted => ?_
      exact ⟨hV _ _ ⟨rfl, route, hadmitted⟩, hD _ _ _ ⟨rfl, route, hadmitted⟩⟩
  | receiveVerifiedFrame sourcePeer eventId verified peers t =>
    refine recordRejection_explained (receiveFrame_explained h (fun _ => verified.verified)
      fun route payloadBytes hadmitted => ?_)
    exact ⟨hV _ _ ⟨rfl, route, hadmitted⟩, hD _ _ _ ⟨rfl, route, hadmitted⟩⟩
  -- The rest emits nothing and touches no route but the one it names.
  | dismissFrame peerId eventId =>
    exact .silent (h.routesOnly (.dismissFrame _ _ _) (.dismissFrame _ _ _))
  | recordInvalidMessage peerId => exact .silent (h.recordPeerBehavior _ _ _)
  | recordTransportDisruption peerId eventId =>
    exact .silent (h.routesOnly (.recordTransportDisruption _ _ _)
      (.recordTransportDisruption _ _ _))
  | maintain t => exact .silent h

end Op

/-! ## Runs -/

section Runs

variable {nostr : NostrCrate}

/-- Some call of the run validates `event`, with the serialized size `payloadBytes`. -/
def ValidatedIn (options : InvWantMeshOptions) (steps : List (Step nostr)) (event : Event)
    (payloadBytes : ℕ) : Prop :=
  ∃ before s after, steps = before ++ s :: after ∧
    s.op.Validates (s.op.pruned (InvWantMesh.prune s.order) (meshAfter options before)) event
      payloadBytes

/-- Some call of the run sends `peer` a want for `eventId`. -/
def AskedIn (options : InvWantMeshOptions) (steps : List (Step nostr)) (peer eventId : String) :
    Prop :=
  ∃ result ∈ meshResults options steps, .send peer (.want eventId) ∈ result.emitted

variable {options : InvWantMeshOptions} {steps : List (Step nostr)} {next : Step nostr}

theorem ValidatedIn.concat {event : Event} {payloadBytes : ℕ}
    (h : ValidatedIn options steps event payloadBytes) (next : Step nostr) :
    ValidatedIn options (steps ++ [next]) event payloadBytes := by
  obtain ⟨before, s, after, rfl, hvalid⟩ := h
  exact ⟨before, s, after ++ [next], by simp, hvalid⟩

theorem AskedIn.concat {peer eventId : String} (h : AskedIn options steps peer eventId)
    (next : Step nostr) : AskedIn options (steps ++ [next]) peer eventId := by
  obtain ⟨result, hresult, hsent⟩ := h
  refine ⟨result, ?_, hsent⟩
  rw [meshResults, Mealy.outputs_concat]
  exact List.mem_append_left _ hresult

/-- The step lemma on histories: what holds of a run carries over to one more call. -/
theorem explained_run (h : InvWantMesh.Sound (ValidatedIn options steps) (AskedIn options steps)
      (meshAfter options steps)) (next : Step nostr) :
    InvWantMesh.Explained (ValidatedIn options (steps ++ [next]))
      (AskedIn options (steps ++ [next]))
      (fun peer event => AskedIn options steps peer event.id.toHex ∧
        ∃ payloadBytes, Admissible nostr options.normalize event payloadBytes)
      (next.run (meshAfter options steps)).1.emitted
      (next.run (meshAfter options steps)).2 := by
  have hpruned : InvWantMesh.Sound (ValidatedIn options steps) (AskedIn options steps)
      (next.op.pruned (InvWantMesh.prune next.order) (meshAfter options steps)) := by
    unfold Op.pruned
    split
    · exact h.prune next.order _
    · exact h
  have hoptions := pruned_options options steps next
  refine Op.apply_explained (InvWantMesh.prune next.order) next.op
    (hpruned.mono (fun _ _ hV => hV.concat next) fun _ _ hW => hW.concat next) ?_ ?_ ?_
  · intro event payloadBytes hvalid
    exact ⟨steps, next, [], rfl, hvalid⟩
  · intro peer eventId hsent
    refine ⟨(next.run (meshAfter options steps)).1, ?_, hsent⟩
    rw [meshResults, Mealy.outputs_concat]
    exact List.mem_append_right _ (List.mem_singleton.mpr rfl)
  · intro peer event payloadBytes hvalid hprovides
    exact ⟨hpruned.asked _ _ hprovides, payloadBytes, hoptions ▸ hvalid.admissible⟩

/-- The mesh after a run is sound for what the run has validated and asked. -/
theorem sound_meshAfter (options : InvWantMeshOptions) (steps : List (Step nostr)) :
    InvWantMesh.Sound (ValidatedIn options steps) (AskedIn options steps)
      (meshAfter options steps) :=
  @Mealy.history _ _ _ Step.run (InvWantMesh.new options)
    (fun steps m => InvWantMesh.Sound (ValidatedIn options steps) (AskedIn options steps) m)
    (InvWantMesh.Sound.new options) (fun _ next h => (explained_run h next).sound) steps

/-- An admissible kind is one of the allowed ones. -/
theorem mem_allowedKinds_of_validateKind {eventKind : ℕ}
    (h : options.validateKind eventKind = .ok ()) {allowed : Finset ℕ}
    (hallowed : options.allowedKinds = some allowed) : eventKind ∈ allowed := by
  unfold InvWantMeshOptions.validateKind at h
  rw [hallowed] at h
  by_contra hmem
  simp [hmem] at h

end Runs

/-- Provenance, for one more call `next` after any run. A delivered event is verified, of an
allowed kind and size, and its source was sent a want for it earlier in the run; a frame or an
inventory that is sent names an event validated by that call or earlier. -/
theorem deliver_provenance {nostr : NostrCrate} (options : InvWantMeshOptions)
    (steps : List (Step nostr)) (next : Step nostr) :
    (∀ sourcePeer event,
      .deliver sourcePeer event ∈ (next.run (meshAfter options steps)).1.emitted →
        nostr.verify event = .ok () ∧
        (∀ allowed, options.allowedKinds = some allowed → event.kind ∈ allowed) ∧
        (∃ payload, nostr.toJson event = .ok payload ∧
          payload.length ≤ options.normalize.maxEventBytes) ∧
        AskedIn options steps sourcePeer event.id.toHex) ∧
    (∀ peerId eventId event,
      .send peerId (.frame eventId event) ∈ (next.run (meshAfter options steps)).1.emitted →
        eventId = event.id.toHex ∧
        ∃ payloadBytes, ValidatedIn options (steps ++ [next]) event payloadBytes) ∧
    (∀ peerId eventId eventKind payloadBytes hopLimit,
      .send peerId (.inventory eventId eventKind payloadBytes hopLimit) ∈
          (next.run (meshAfter options steps)).1.emitted →
        ∃ event, eventId = event.id.toHex ∧ eventKind = event.kind ∧
          ValidatedIn options (steps ++ [next]) event payloadBytes) := by
  have hjustified := (explained_run (sound_meshAfter options steps) next).justified
  refine ⟨fun sourcePeer event h => ?_, fun _ _ _ h => hjustified _ h,
    fun _ _ _ _ _ h => hjustified _ h⟩
  obtain ⟨hasked, payloadBytes, hverify, hvalid⟩ := hjustified _ h
  obtain ⟨_, hkind, payload, hjson, rfl, hle⟩ := validateVerifiedEvent_eq_ok hvalid
  refine ⟨hverify, fun allowed hallowed => ?_, ⟨payload, hjson, hle⟩, hasked⟩
  exact mem_allowedKinds_of_validateKind hkind hallowed

/-- The note that peer `p` delivers was asked of `p` when it was announced. -/
theorem deliver_provenance_noteReceived :
    .deliver "p" noteA ∈ ((noteReceived 20).run (meshAfter {} [noteAnnounced 10])).1.emitted ∧
      AskedIn {} [noteAnnounced 10] "p" noteA.id.toHex := by
  have hdeliver : .deliver "p" noteA ∈
      ((noteReceived 20).run (meshAfter {} [noteAnnounced 10])).1.emitted := by decide +kernel
  have hprovenance := (deliver_provenance {} [noteAnnounced 10] (noteReceived 20)).1 "p" noteA hdeliver
  exact ⟨hdeliver, hprovenance.2.2.2⟩

end NostrPubsub
