import NostrPubsub.Mesh.Closing
import NostrPubsub.Mesh.Lockstep

/-!
# One fan-out while an event is seen

A mesh tells its selected peers about an event in two places: `publish`, when the event was not
seen yet, and `receive_frame`, when the frame fulfils the event's route. While the event stays
seen only one of the two happens, and once: a publication finds no route and none can be opened
for a seen id, and a fulfilled route is neither opened again nor replaced.

What both have in common afterwards is that the event has no open route
(`NoOpenRoute`); every call keeps that for an id that is seen when the call has pruned.
-/

namespace NostrPubsub

/-- The peer that an action sends the inventory of `eventId` to. -/
def inventoryTarget (eventId : String) : InvWantAction → Option String
  | .send peerId (.inventory id _ _ _) => if id = eventId then some peerId else none
  | _ => none

/-- The peers that a list of actions sends the inventory of `eventId` to. -/
def inventoryTargets (eventId : String) (actions : List InvWantAction) : List String :=
  actions.filterMap (inventoryTarget eventId)

/-- The targets are at most `fanout` distinct peers, without the one excluded. -/
structure FansWithin (fanout : ℕ) (excludedPeer : Option String) (targets : List String) :
    Prop where
  length_le : targets.length ≤ fanout
  nodup : targets.Nodup
  notMem : ∀ peer, excludedPeer = some peer → peer ∉ targets

theorem FansWithin.nil (fanout : ℕ) (excludedPeer : Option String) :
    FansWithin fanout excludedPeer [] :=
  ⟨Nat.zero_le _, List.nodup_nil, fun _ _ => List.not_mem_nil⟩

theorem inventoryTargets_eq_nil {eventId : String} {actions : List InvWantAction}
    (h : ∀ action ∈ actions, inventoryTarget eventId action = none) :
    inventoryTargets eventId actions = [] :=
  List.filterMap_eq_nil_iff.mpr h

namespace InvWantMesh

/-- One inventory is sent to selected peers within the fan-out. -/
theorem fansWithin_sendToSelectedPeers (m : InvWantMesh) (peers : List MeshPeer)
    (excludedPeer : Option String) (eventId id : String) (eventKind payloadBytes hopLimit : ℕ) :
    FansWithin m.options.fanout excludedPeer
      (inventoryTargets eventId (m.sendToSelectedPeers peers excludedPeer
        (.inventory id eventKind payloadBytes hopLimit))) := by
  obtain ⟨hlength, hnodup, hgiven⟩ := selectMeshPeers_spec (m.peersWithBehavior peers) excludedPeer
    m.options.fanout m.options.unknownPeerReserve
  by_cases hid : id = eventId
  · have htargets : inventoryTargets eventId (m.sendToSelectedPeers peers excludedPeer
        (.inventory id eventKind payloadBytes hopLimit))
        = (selectMeshPeers (m.peersWithBehavior peers) excludedPeer m.options.fanout
          m.options.unknownPeerReserve).map MeshPeer.id := by
      rw [inventoryTargets, sendToSelectedPeers, List.filterMap_map, ← List.filterMap_eq_map]
      refine List.filterMap_congr fun peer _ => ?_
      simp [inventoryTarget, hid]
    rw [htargets]
    refine ⟨by rwa [List.length_map], hnodup, fun peer hpeer hmem => ?_⟩
    obtain ⟨selected, hselected, rfl⟩ := List.mem_map.mp hmem
    exact (hgiven selected hselected).2 hpeer
  · have hnone : inventoryTargets eventId (m.sendToSelectedPeers peers excludedPeer
        (.inventory id eventKind payloadBytes hopLimit)) = [] := by
      refine inventoryTargets_eq_nil fun action haction => ?_
      obtain ⟨peerId, rfl⟩ := eq_send_of_mem_sendToSelectedPeers haction
      simp [inventoryTarget, hid]
    rw [hnone]
    exact .nil _ _

/-! ## What an event has left when it was fanned out -/

/-- The event has no route that a frame could fulfil. -/
def NoOpenRoute (m : InvWantMesh) (eventId : String) : Prop :=
  ¬m.HasRoute (fun route => route.fulfilled = false) eventId

/-- No route is open in `m'` that is not in `m`. -/
abbrev NoneOpened : InvWantMesh → InvWantMesh → Prop :=
  NoNewRoute fun route => route.fulfilled = false

/-- Closing a route opens none. -/
theorem NoNewRoute.closeRoute_opened (m : InvWantMesh) (eventId : String) :
    NoneOpened m (m.closeRoute eventId) :=
  .closeRoute (fun _ h => nomatch h) m eventId

/-- An inventory opens a route only for an id that is not seen. -/
theorem noOpenRoute_receiveInventory {m : InvWantMesh} {sourcePeer id eventId : String}
    {eventKind payloadBytes hopLimit nowMs : ℕ} (h : m.NoOpenRoute eventId)
    (hseen : m.isSeen eventId nowMs = true) :
    (m.receiveInventory sourcePeer id eventKind payloadBytes hopLimit nowMs).2.NoOpenRoute
      eventId := by
  rcases m.receiveInventory_cases sourcePeer id eventKind payloadBytes hopLimit nowMs with
    ⟨heq, _⟩ | ⟨_, heq⟩ | ⟨hunseen, heq⟩ <;> rw [heq]
  · exact h
  · have hextended : NoneOpened m
        (m.extendRoute sourcePeer id eventKind payloadBytes hopLimit nowMs).2 :=
      .extendRoute (fun _ _ hsame hopen => hsame ▸ hopen) m _ _ _ _ _ _
    exact fun hopen => h (hextended eventId hopen)
  · have hne : eventId ≠ id := by
      rintro rfl
      rw [hseen] at hunseen
      cases hunseen
    -- the route that is opened belongs to another id
    rintro ⟨found, hfound, hopen⟩
    refine h (NoNewRoute.rememberInventory m id nowMs eventId ⟨found, ?_, hopen⟩)
    unfold openRoute at hfound
    dsimp only at hfound
    split at hfound
    · exact hfound
    · rwa [Finmap.lookup_insert_of_ne _ hne] at hfound

/-- A frame opens no route. -/
theorem NoNewRoute.receiveFrame_opened {nostr : NostrCrate} (m : InvWantMesh)
    (sourcePeer eventId : String) (event : Event) (peers : List MeshPeer) (nowMs : ℕ)
    (verifySignature : Bool) :
    NoneOpened m
      (m.receiveFrame nostr sourcePeer eventId event peers nowMs verifySignature).2 := by
  unfold InvWantMesh.receiveFrame
  split
  · exact .refl m
  split
  · exact .refl m
  next payloadBytes _ _ =>
  obtain ⟨_, _, _, hremember⟩ := (((m.recordPeerBehavior sourcePeer validFrameReward
    .validFrame).storeEvent event payloadBytes nowMs).closeRoute eventId).rememberDelivered_frame
      eventId nowMs
  refine (NoNewRoute.closeRoute_opened m eventId).trans (.of_lookup fun id route hroute => ?_)
  simp only [acceptFrame] at hroute
  rw [hremember] at hroute
  exact hroute

/-! ## What fans out -/

section Calls

variable {m : InvWantMesh} {eventId : String} {nowMs : ℕ}

/-- What a list of actions has to do with the fan-out of `eventId`: it stays within the fan-out
and, if there is one, `cause` holds. -/
structure FansOutBy (m : InvWantMesh) (eventId : String) (excludedPeer : Option String)
    (cause : Prop) (actions : List InvWantAction) : Prop where
  within : FansWithin m.options.fanout excludedPeer (inventoryTargets eventId actions)
  cause : inventoryTargets eventId actions ≠ [] → cause

theorem FansOutBy.none {excludedPeer : Option String} {cause : Prop}
    {actions : List InvWantAction}
    (h : ∀ action ∈ actions, inventoryTarget eventId action = none) :
    FansOutBy m eventId excludedPeer cause actions := by
  have hnil := inventoryTargets_eq_nil h
  refine ⟨?_, fun hne => absurd hnil hne⟩
  rw [hnil]
  exact .nil _ _

/-- Actions that announce nothing may stand before. -/
theorem FansOutBy.prepend {excludedPeer : Option String} {cause : Prop}
    {front rest : List InvWantAction}
    (hfront : ∀ action ∈ front, inventoryTarget eventId action = Option.none)
    (h : FansOutBy m eventId excludedPeer cause rest) :
    FansOutBy m eventId excludedPeer cause (front ++ rest) := by
  have htargets : inventoryTargets eventId (front ++ rest) = inventoryTargets eventId rest := by
    rw [inventoryTargets, List.filterMap_append]
    exact congrArg (· ++ _) (inventoryTargets_eq_nil hfront)
  refine ⟨?_, fun hne => h.cause ?_⟩
  · rw [htargets]
    exact h.within
  · rwa [htargets] at hne

/-- Publishing fans out when it makes the event seen. -/
theorem fansOutBy_publishValidated (event : Event) (id : String) (payloadBytes : ℕ)
    (peers : List MeshPeer) (nowMs : ℕ) :
    FansOutBy m eventId Option.none
      (id = eventId ∧ m.isSeen eventId nowMs = false ∧
        eventId ∈ (publishValidated event id payloadBytes peers nowMs m).2.seenInventories)
      (publishValidated event id payloadBytes peers nowMs m).1 := by
  cases hseen : (m.storeEvent event payloadBytes nowMs).isSeen id nowMs with
  | true =>
    have hnone : (publishValidated event id payloadBytes peers nowMs m).1 = [] := by
      simp only [publishValidated, rememberInventory_of_seen hseen]
    rw [hnone]
    exact .none fun _ h => absurd h List.not_mem_nil
  | false =>
    obtain ⟨hnew, hlookup⟩ := rememberInventory_of_not_seen hseen
    have hsplit : (m.storeEvent event payloadBytes nowMs).rememberInventory id nowMs
        = (true, ((m.storeEvent event payloadBytes nowMs).rememberInventory id nowMs).2) :=
      Prod.ext hnew rfl
    have hoptions := (RoutesOnly.rememberInventory (m.storeEvent event payloadBytes nowMs) id
      nowMs).options_eq
    rw [publishValidated_snd]
    simp only [publishValidated]
    rw [hsplit]
    generalize ((m.storeEvent event payloadBytes nowMs).rememberInventory id nowMs).2 = m'
      at hlookup hoptions ⊢
    have hfanout : m'.options.fanout = m.options.fanout := by
      rw [hoptions]
      rfl
    refine ⟨?_, fun hne => ?_⟩
    · rw [← hfanout]
      exact m'.fansWithin_sendToSelectedPeers peers Option.none _ _ _ _ _
    · by_cases hid : id = eventId
      · subst hid
        exact ⟨rfl, hseen, Finmap.mem_of_lookup_eq_some hlookup⟩
      · refine absurd (inventoryTargets_eq_nil fun action haction => ?_) hne
        obtain ⟨peerId, rfl⟩ := eq_send_of_mem_sendToSelectedPeers haction
        simp [inventoryTarget, hid]

/-- The route of an accepted frame is fulfilled. -/
theorem isFulfilled_acceptFrame {route : UpstreamRoute} {sourcePeer id : String} {event : Event}
    {payloadBytes : ℕ} (peers : List MeshPeer) (hroute : m.upstreamRoutes.lookup id = some route) :
    (m.acceptFrame route sourcePeer id event payloadBytes peers nowMs).2.isFulfilled id = true := by
  obtain ⟨_, _, _, hremember⟩ := (((m.recordPeerBehavior sourcePeer validFrameReward
    .validFrame).storeEvent event payloadBytes nowMs).closeRoute id).rememberDelivered_frame id
      nowMs
  have hclosed : (m.closeRoute id).isFulfilled id = true := by
    simp [isFulfilled, closeRoute, hroute]
  simp only [acceptFrame]
  rw [hremember]
  exact hclosed

/-- An accepted frame is announced to others than its sender. -/
theorem fansOutBy_acceptFrame (route : UpstreamRoute) (sourcePeer id : String) (event : Event)
    (payloadBytes : ℕ) (peers : List MeshPeer) (nowMs : ℕ) :
    FansOutBy m eventId (some sourcePeer) (id = eventId)
      (m.acceptFrame route sourcePeer id event payloadBytes peers nowMs).1 := by
  -- What is booked for the frame leaves the options, and with them the fan-out, alone.
  have hoptions : ((((m.recordPeerBehavior sourcePeer validFrameReward .validFrame).storeEvent
      event payloadBytes nowMs).closeRoute id).rememberDelivered id nowMs).2.options
        = m.options := by
    obtain ⟨_, _, _, hremember⟩ := (((m.recordPeerBehavior sourcePeer validFrameReward
      .validFrame).storeEvent event payloadBytes nowMs).closeRoute id).rememberDelivered_frame id
        nowMs
    rw [hremember]
    rfl
  simp only [acceptFrame]
  generalize (((m.recordPeerBehavior sourcePeer validFrameReward .validFrame).storeEvent
    event payloadBytes nowMs).closeRoute id).rememberDelivered id nowMs = remembered
    at hoptions ⊢
  obtain ⟨fresh, m'⟩ := remembered
  refine .prepend (fun action haction => ?_) ?_
  · -- neither the delivery nor the frames for waiting peers announce anything
    rcases List.mem_append.mp haction with hdeliver | hframe
    · dsimp only at hdeliver
      split at hdeliver
      · obtain rfl := List.mem_singleton.mp hdeliver
        rfl
      · exact absurd hdeliver List.not_mem_nil
    · cases hpending : m'.pendingDownstream.lookup id with
      | none =>
        rw [hpending] at hframe
        exact absurd hframe List.not_mem_nil
      | some pending =>
        rw [hpending] at hframe
        obtain ⟨peerId, _, rfl⟩ := List.mem_map.mp hframe
        rfl
  · split
    · refine ⟨?_, fun hne => ?_⟩
      · rw [← hoptions]
        exact (m'.removePendingEvent id).fansWithin_sendToSelectedPeers peers (some sourcePeer)
          _ _ _ _ _
      · by_contra hid
        refine hne (inventoryTargets_eq_nil fun action haction => ?_)
        obtain ⟨peerId, rfl⟩ := eq_send_of_mem_sendToSelectedPeers haction
        simp [inventoryTarget, hid]
    · exact .none fun _ h => absurd h List.not_mem_nil

/-- A want is answered by a frame or passed on. -/
theorem inventoryTarget_receiveWant (m : InvWantMesh) (sourcePeer id : String) (nowMs : ℕ) :
    ∀ action ∈ (OpResult.returned (m.receiveWant sourcePeer id nowMs).1).emitted,
      inventoryTarget eventId action = none := by
  have hnil : ∀ action ∈ ([] : List InvWantAction), inventoryTarget eventId action = none :=
    fun action h => absurd h List.not_mem_nil
  unfold receiveWant
  split
  · exact hnil
  split
  · intro action haction
    obtain rfl := List.mem_singleton.mp haction
    rfl
  split
  · exact hnil
  split
  · exact hnil
  dsimp only
  split
  · exact hnil
  · intro action haction
    obtain rfl := List.mem_singleton.mp haction
    rfl

end Calls

end InvWantMesh

namespace Op

open InvWantMesh

variable {nostr : NostrCrate}

/-- The `replay_*` operations. -/
def isReplay : Op nostr → Bool
  | .replayToPeer _ _ _ | .replayVerifiedToPeer _ _ _ | .replayCachedToPeer _ _ => true
  | _ => false

/-- The call publishes the event with this id. -/
def Publishes (eventId : String) : Op nostr → Prop
  | .publish event _ _ => event.id.toHex = eventId
  | .publishVerified verified _ _ => verified.event.id.toHex = eventId
  | _ => False

/-- An event without an open route that is seen when a call has pruned has none after the
call. -/
theorem noOpenRoute_apply {order : RouteOrder} {m : InvWantMesh} {op : Op nostr}
    {eventId : String} (h : m.NoOpenRoute eventId)
    (hseen : ∀ nowMs, op.clock = some nowMs → (m.prune order nowMs).isSeen eventId nowMs = true) :
    (op.apply (InvWantMesh.prune order) m).2.NoOpenRoute eventId := by
  -- most calls open no route at all
  have hnone : NoneOpened m (op.apply (InvWantMesh.prune order) m).2 →
      (op.apply (InvWantMesh.prune order) m).2.NoOpenRoute eventId :=
    fun hnone hopen => h (hnone eventId hopen)
  cases op with
  | publish event peers t =>
    exact hnone ((NoNewRoute.prune m order t).trans (.withValidated _ _ fun _ _ =>
      .publishValidated _ _ _ _ _ _))
  | publishVerified verified peers t =>
    exact hnone ((NoNewRoute.prune m order t).trans (.withValidated _ _ fun _ _ =>
      .publishValidated _ _ _ _ _ _))
  | replayToPeer event peerId t =>
    exact hnone ((NoNewRoute.prune m order t).trans (.withValidated _ _ fun _ _ =>
      .replayValidated _ _ _ _ _ _))
  | replayVerifiedToPeer verified peerId t =>
    exact hnone ((NoNewRoute.prune m order t).trans (.withValidated _ _ fun _ _ =>
      .replayValidated _ _ _ _ _ _))
  | replayCachedToPeer peerId t => exact hnone (.prune m order t)
  | seedVerified verified t =>
    refine hnone ((NoNewRoute.prune m order t).trans ?_)
    simp only [apply, InvWantMesh.seedVerified]
    split
    · exact .refl _
    · exact .of_lookup fun _ _ hroute => hroute
  | receive sourcePeer message peers t =>
    cases message with
    | inventory id eventKind payloadBytes hopLimit =>
      have hpruned : (m.prune order t).NoOpenRoute eventId :=
        fun hopen => h (NoNewRoute.prune m order t eventId hopen)
      exact fun hopen => noOpenRoute_receiveInventory hpruned (hseen t rfl)
        (NoNewRoute.recordRejection (.refl _) eventId hopen)
    | want id =>
      exact hnone ((NoNewRoute.prune m order t).trans
        (.recordRejection (.receiveWant (fun _ _ hroute => hroute) _ _ _ _)))
    | frame id event =>
      exact hnone ((NoNewRoute.prune m order t).trans
        (.recordRejection (.receiveFrame_opened _ _ _ _ _ _ _)))
  | receiveVerifiedFrame sourcePeer id verified peers t =>
    exact hnone ((NoNewRoute.prune m order t).trans
      (.recordRejection (.receiveFrame_opened _ _ _ _ _ _ _)))
  | dismissFrame peerId id =>
    refine hnone ?_
    simp only [apply, InvWantMesh.dismissFrame]
    split
    · exact (NoNewRoute.closeRoute_opened m id).trans (.of_lookup fun _ _ hroute => hroute)
    · exact .refl m
  | recordInvalidMessage peerId => exact hnone (.of_lookup fun _ _ hroute => hroute)
  | recordTransportDisruption peerId id =>
    exact hnone (.recordTransportDisruption (fun _ _ hroute => hroute) m peerId id)
  | maintain t => exact hnone (.prune m order t)

/-- The peer whose frame the call is. -/
def frameSource : Op nostr → Option String
  | .receive sourcePeer (.frame _ _) _ _ => some sourcePeer
  | .receiveVerifiedFrame sourcePeer _ _ _ _ => some sourcePeer
  | _ => none

/-- The reasons for a fan-out of `eventId`: a publication that found it not seen and made it
seen, or a frame that found its route open and fulfilled it. `before` is the mesh that the call
works on, pruned, and `after` the mesh it leaves. -/
def FanOutCause (before after : InvWantMesh) (eventId : String) (op : Op nostr) : Prop :=
  (op.Publishes eventId ∧
      (∃ nowMs, op.clock = some nowMs ∧ before.isSeen eventId nowMs = false) ∧
      eventId ∈ after.seenInventories) ∨
    ∃ sourcePeer event, op.IsFrame sourcePeer eventId event ∧
      before.HasRoute (fun route => route.fulfilled = false) eventId ∧
      after.isFulfilled eventId = true

/-- A frame fans out when it fulfils an open route. -/
theorem fansOutBy_receiveFrame {m : InvWantMesh} {sourcePeer id eventId : String} {event : Event}
    {peers : List MeshPeer} {nowMs : ℕ} {verifySignature : Bool}
    (hverify : verifySignature = false → nostr.verify event = .ok ()) :
    FansOutBy m eventId (some sourcePeer)
      (id = eventId ∧ m.HasRoute (fun route => route.fulfilled = false) eventId ∧
        (recordRejection sourcePeer (m.receiveFrame nostr sourcePeer id event peers nowMs
          verifySignature)).2.isFulfilled eventId = true)
      (OpResult.returned (recordRejection sourcePeer (m.receiveFrame nostr sourcePeer id event
        peers nowMs verifySignature)).1).emitted := by
  unfold InvWantMesh.receiveFrame
  split
  · exact .none fun _ h => absurd h List.not_mem_nil
  next route payloadBytes hadmitted =>
  obtain ⟨hroute, _⟩ := admitFrame_eq_ok hverify hadmitted
  split
  · exact .none fun _ h => absurd h List.not_mem_nil
  next hopen =>
  rw [Bool.not_eq_true] at hopen
  obtain ⟨hwithin, hcause⟩ := @fansOutBy_acceptFrame m eventId route sourcePeer id event
    payloadBytes peers nowMs
  refine ⟨hwithin, fun hne => ?_⟩
  obtain rfl := hcause hne
  exact ⟨rfl, ⟨route, hroute, hopen⟩, isFulfilled_acceptFrame peers hroute⟩

/-- What a call other than a replay has to do with the fan-out of an event. -/
theorem fansOutBy_apply (order : RouteOrder) (m : InvWantMesh) (op : Op nostr)
    (hreplay : op.isReplay = false) (eventId : String) :
    FansOutBy (op.pruned (InvWantMesh.prune order) m) eventId op.frameSource
      (op.FanOutCause (op.pruned (InvWantMesh.prune order) m)
        (op.apply (InvWantMesh.prune order) m).2 eventId)
      (op.apply (InvWantMesh.prune order) m).1.emitted := by
  -- A call that emits nothing fans nothing out.
  have hsilent : ∀ {m : InvWantMesh} {excludedPeer : Option String} {cause : Prop},
      FansOutBy m eventId excludedPeer cause [] :=
    .none fun _ h => absurd h List.not_mem_nil
  cases op with
  | publish event peers t =>
    simp only [apply, InvWantMesh.publish, InvWantMesh.withValidated]
    split
    · exact hsilent
    · next id payloadBytes hvalid =>
      obtain ⟨rfl, _⟩ := admissible_of_validateEvent hvalid
      obtain ⟨hwithin, hcause⟩ := @fansOutBy_publishValidated (m.prune order t) eventId event
        event.id.toHex payloadBytes peers t
      refine ⟨hwithin, fun hne => Or.inl ?_⟩
      obtain ⟨hid, hseen, hafter⟩ := hcause hne
      exact ⟨hid, ⟨t, rfl, hseen⟩, hafter⟩
  | publishVerified verified peers t =>
    simp only [apply, InvWantMesh.publishVerified, InvWantMesh.withValidated]
    split
    · exact hsilent
    · next id payloadBytes hvalid =>
      obtain ⟨rfl, _⟩ := admissible_of_validateVerifiedEvent verified.verified hvalid
      obtain ⟨hwithin, hcause⟩ := @fansOutBy_publishValidated (m.prune order t) eventId
        verified.event verified.event.id.toHex payloadBytes peers t
      refine ⟨hwithin, fun hne => Or.inl ?_⟩
      obtain ⟨hid, hseen, hafter⟩ := hcause hne
      exact ⟨hid, ⟨t, rfl, hseen⟩, hafter⟩
  | replayToPeer event peerId t => cases hreplay
  | replayVerifiedToPeer verified peerId t => cases hreplay
  | replayCachedToPeer peerId t => cases hreplay
  | seedVerified verified t =>
    simp only [apply, InvWantMesh.seedVerified]
    split
    · exact hsilent
    · exact hsilent
  -- Of the messages only a frame is fanned out; an inventory is answered by a want, a want by a
  -- frame.
  | receive sourcePeer message peers t =>
    cases message with
    | inventory id eventKind payloadBytes hopLimit =>
      refine .none fun action haction => ?_
      rw [receiveInventory_emitted (emitted_recordRejection.mp haction)]
      rfl
    | want id =>
      exact .none fun action haction => inventoryTarget_receiveWant _ sourcePeer id t action
        (emitted_recordRejection.mp haction)
    | frame id event =>
      have hsigned : true = false → nostr.verify event = .ok () := fun hflag =>
        Bool.noConfusion hflag
      obtain ⟨hwithin, hcause⟩ := @fansOutBy_receiveFrame nostr (m.prune order t) sourcePeer id
        eventId event peers t true hsigned
      refine ⟨hwithin, fun hne => Or.inr ?_⟩
      obtain ⟨hid, hopen, hafter⟩ := hcause hne
      exact ⟨sourcePeer, event, ⟨rfl, hid, rfl⟩, hopen, hafter⟩
  | receiveVerifiedFrame sourcePeer id verified peers t =>
    obtain ⟨hwithin, hcause⟩ := @fansOutBy_receiveFrame nostr (m.prune order t) sourcePeer id
      eventId verified.event peers t false fun _ => verified.verified
    refine ⟨hwithin, fun hne => Or.inr ?_⟩
    obtain ⟨hid, hopen, hafter⟩ := hcause hne
    exact ⟨sourcePeer, verified.event, ⟨rfl, hid, rfl⟩, hopen, hafter⟩
  | dismissFrame peerId id => exact hsilent
  | recordInvalidMessage peerId => exact hsilent
  | recordTransportDisruption peerId id => exact hsilent
  | maintain t => exact hsilent

/-- A replay leaves the seen ids alone. -/
theorem seenInventories_of_isReplay (order : RouteOrder) (m : InvWantMesh) {op : Op nostr}
    (h : op.isReplay = true) :
    (op.apply (InvWantMesh.prune order) m).2.seenInventories
      = (op.pruned (InvWantMesh.prune order) m).seenInventories := by
  cases op with
  | replayToPeer event peerId t =>
    simp only [apply, InvWantMesh.replayToPeer, InvWantMesh.withValidated]
    split
    · rfl
    · rfl
  | replayVerifiedToPeer verified peerId t =>
    simp only [apply, InvWantMesh.replayVerifiedToPeer, InvWantMesh.withValidated]
    split
    · rfl
    · rfl
  | replayCachedToPeer peerId t => rfl
  | _ => cases h

end Op

/-! ## Runs -/

namespace Step

variable {nostr : NostrCrate}

/-- The mesh that the step's call works on, pruned. -/
def pruned (m : InvWantMesh) (step : Step nostr) : InvWantMesh :=
  step.op.pruned (InvWantMesh.prune step.order) m

/-- The step, other than a replay, sends the inventory of `eventId` to some peer. -/
def FansOut (m : InvWantMesh) (eventId : String) (step : Step nostr) : Prop :=
  step.op.isReplay = false ∧ inventoryTargets eventId (step.run m).1.emitted ≠ []

end Step

/-- The event stays seen through these steps: each finds it seen when it has pruned. -/
def SeenThroughout {nostr : NostrCrate} (eventId : String) :
    InvWantMesh → List (Step nostr) → Prop
  | _, [] => True
  | m, step :: steps =>
    eventId ∈ (step.pruned m).seenInventories ∧ SeenThroughout eventId (step.run m).2 steps

section Runs

open InvWantMesh

variable {nostr : NostrCrate} {options : InvWantMeshOptions} {eventId : String}

/-- On a timely mesh what is seen when a call has pruned is not over at the call's time. -/
theorem isSeen_of_pruned {c : ℕ} {m : InvWantMesh} (h : Timely c m) {step : Step nostr}
    (hseen : eventId ∈ (step.pruned m).seenInventories) {nowMs : ℕ}
    (hclock : step.op.clock = some nowMs) :
    (m.prune step.order nowMs).isSeen eventId nowMs = true := by
  obtain ⟨expiry, hexpiry⟩ := Finmap.mem_iff.mp hseen
  unfold Step.pruned Op.pruned at hexpiry
  rw [hclock] at hexpiry
  have hlt := h.lt_of_seen_prune step.order hexpiry
  simp [isSeen, hexpiry, hlt]

theorem seenThroughout_append {m : InvWantMesh} {a b : List (Step nostr)} :
    SeenThroughout eventId m (a ++ b) ↔
      SeenThroughout eventId m a ∧ SeenThroughout eventId (Mealy.after Step.run m a) b := by
  induction a generalizing m with
  | nil => simp [SeenThroughout]
  | cons step steps ih => simp only [List.cons_append, SeenThroughout, Mealy.after_cons, ih, and_assoc]

theorem seenThroughout_singleton {m : InvWantMesh} {step : Step nostr} :
    SeenThroughout eventId m [step] ↔
      ((step.pruned m).seenInventories.lookup eventId).isSome = true := by
  rw [SeenThroughout, SeenThroughout, and_true, Finmap.lookup_isSome]

/-- Once an event has no open route, it gets none while it stays seen. -/
theorem noOpenRoute_run (between : List (Step nostr)) : ∀ before : List (Step nostr),
    Mealy.ClockedFrom Step.clock 0 (before ++ between) →
    (meshAfter options before).NoOpenRoute eventId →
    SeenThroughout eventId (meshAfter options before) between →
    (meshAfter options (before ++ between)).NoOpenRoute eventId := by
  induction between with
  | nil =>
    intro before _ hnone _
    rwa [List.append_nil]
  | cons step steps ih =>
    intro before hclock hnone hseen
    have htimely := Timely.meshAfter options (Mealy.clockedFrom_append.mp hclock).1
    have hstep : (meshAfter options (before ++ [step])).NoOpenRoute eventId := by
      rw [meshAfter_concat]
      exact Op.noOpenRoute_apply hnone fun nowMs => isSeen_of_pruned htimely hseen.1
    rw [List.append_cons] at hclock ⊢
    refine ih (before ++ [step]) hclock hstep ?_
    · rw [meshAfter_concat]
      exact hseen.2

/-- After a fan-out the event has no open route. -/
theorem noOpenRoute_of_fansOut {c : ℕ} {m : InvWantMesh} (h : Timely c m) {step : Step nostr}
    (hle : ∀ nowMs, step.op.clock = some nowMs → c ≤ nowMs) (hfans : step.FansOut m eventId) :
    (step.run m).2.NoOpenRoute eventId := by
  rcases (Op.fansOutBy_apply step.order m step.op hfans.1 eventId).cause hfans.2 with
    ⟨hpublishes, ⟨nowMs, hclock, hunseen⟩, _⟩ | ⟨_, _, _, _, hfulfilled⟩
  · -- a publication that finds the event unseen finds no route, and opens none
    have hpruned : (step.pruned m) = m.prune step.order nowMs := by
      unfold Step.pruned Op.pruned
      rw [hclock]
    have hnone : (m.prune step.order nowMs).NoOpenRoute eventId := by
      rintro ⟨route, hroute, _⟩
      have hmem : eventId ∈ (m.prune step.order nowMs).seenInventories :=
        Finmap.mem_of_lookup_eq_some
          ((h.prune step.order (hle nowMs hclock)).lockstep.seen_eq _ _ hroute)
      rw [Step.pruned] at hpruned
      rw [hpruned] at hunseen
      exact h.not_reusesExpiredEntry step.order eventId ⟨hmem, hunseen⟩
    obtain ⟨op, order⟩ := step
    cases op with
    | publish event peers t =>
      cases hclock
      exact fun hopen => hnone (NoNewRoute.withValidated _ _ (fun _ _ =>
        .publishValidated _ _ _ _ _ _) eventId hopen)
    | publishVerified verified peers t =>
      cases hclock
      exact fun hopen => hnone (NoNewRoute.withValidated _ _ (fun _ _ =>
        .publishValidated _ _ _ _ _ _) eventId hopen)
    | _ => exact hpublishes.elim
  · obtain ⟨route, hroute, hclosed⟩ := isFulfilled_iff.mp hfulfilled
    rintro ⟨found, hfound, hopen⟩
    rw [Step.run, hroute] at hfound
    cases hfound
    rw [hclosed] at hopen
    cases hopen

/-- An event that is seen and has no open route is not fanned out. -/
theorem not_fansOut_of_noOpenRoute {c : ℕ} {m : InvWantMesh} (h : Timely c m) {step : Step nostr}
    (hnone : m.NoOpenRoute eventId) (hseen : eventId ∈ (step.pruned m).seenInventories) :
    ¬step.FansOut m eventId := by
  intro hfans
  rcases (Op.fansOutBy_apply step.order m step.op hfans.1 eventId).cause hfans.2 with
    ⟨_, ⟨nowMs, hclock, hunseen⟩, _⟩ | ⟨_, _, _, hopen, _⟩
  · have hisSeen := isSeen_of_pruned h hseen hclock
    rw [Op.pruned, hclock, hisSeen] at hunseen
    cases hunseen
  · unfold Op.pruned at hopen
    split at hopen
    · exact hnone (NoNewRoute.prune m step.order _ eventId hopen)
    · exact hnone hopen

end Runs

/-- One inventory fan-out while an event stays seen. In a run whose clock does not go back, a
step that sends the inventory of an event is a replay, which marks nothing seen, or it is the
publication that made the event seen or the frame that fulfilled its route; then it sends to at
most `fanout` distinct peers and not to the sender of the frame, and no earlier step fanned the
event out since it became seen. -/
theorem one_fanOut_while_seen {nostr : NostrCrate} (options : InvWantMeshOptions)
    (before : List (Step nostr)) (step : Step nostr)
    (hclock : ((before ++ [step]).filterMap Step.clock).Pairwise (· ≤ ·)) (eventId : String) :
    (step.op.isReplay = true →
      (step.run (meshAfter options before)).2.seenInventories
        = (step.pruned (meshAfter options before)).seenInventories) ∧
    (step.FansOut (meshAfter options before) eventId →
      ((step.op.Publishes eventId ∧
          eventId ∉ (step.pruned (meshAfter options before)).seenInventories ∧
          eventId ∈ (step.run (meshAfter options before)).2.seenInventories) ∨
        ∃ sourcePeer event, step.op.IsFrame sourcePeer eventId event ∧
          (step.pruned (meshAfter options before)).HasRoute
            (fun route => route.fulfilled = false) eventId ∧
          (step.run (meshAfter options before)).2.isFulfilled eventId = true) ∧
      FansWithin options.normalize.fanout step.op.frameSource
        (inventoryTargets eventId (step.run (meshAfter options before)).1.emitted)) ∧
    ∀ earlier first between, before = earlier ++ first :: between →
      first.FansOut (meshAfter options earlier) eventId →
      SeenThroughout eventId (meshAfter options (earlier ++ [first])) (between ++ [step]) →
      ¬step.FansOut (meshAfter options before) eventId := by
  have hclocked := Mealy.clockedFrom_of_pairwise hclock fun t _ => Nat.zero_le t
  obtain ⟨hbefore, hlast⟩ := Mealy.clockedFrom_append.mp hclocked
  have htimely := InvWantMesh.Timely.meshAfter options hbefore
  have hby := fun hreplay => Op.fansOutBy_apply step.order (meshAfter options before) step.op
    hreplay eventId
  refine ⟨Op.seenInventories_of_isReplay step.order _, fun hfans => ⟨?_, ?_⟩, ?_⟩
  · rcases (hby hfans.1).cause hfans.2 with ⟨hpublishes, ⟨nowMs, hnow, hunseen⟩, hafter⟩ | hframe
    · refine Or.inl ⟨hpublishes, fun hmem => ?_, hafter⟩
      have hseen := isSeen_of_pruned htimely hmem hnow
      rw [Op.pruned, hnow, hseen] at hunseen
      cases hunseen
    · exact Or.inr hframe
  · have hwithin := (hby hfans.1).within
    rw [pruned_options] at hwithin
    exact hwithin
  · rintro earlier first between rfl hfirst hseen hfans
    -- the first fan-out leaves no open route, and none comes up while the event stays seen
    have hearlier := Mealy.clockedFrom_append.mp hbefore
    have hfirstClock : ∀ nowMs, first.op.clock = some nowMs →
        Mealy.lastClock Step.clock 0 earlier ≤ nowMs := by
      intro nowMs hnow
      have hle := hearlier.2.1
      rw [Step.clock, hnow] at hle
      exact hle
    have hnone : (meshAfter options (earlier ++ [first])).NoOpenRoute eventId := by
      rw [meshAfter_concat]
      exact noOpenRoute_of_fansOut (.meshAfter options hearlier.1) hfirstClock hfirst
    obtain ⟨hbetween, hstep⟩ := seenThroughout_append.mp hseen
    rw [List.append_cons] at hbefore htimely hfans
    have hstill := noOpenRoute_run between (earlier ++ [first]) hbefore hnone hbetween
    rw [← meshAfter_append] at hstep
    exact not_fansOut_of_noOpenRoute htimely hstill hstep.1 hfans

/-- Peer `p` sends the note, and there are other peers to tell. -/
def noteForwarded : Step noteCrate :=
  .ascending (.receive "p" (.frame noteA.id.toHex noteA) [.new "p", .new "q", .new "r"] 20)

/-- The note is published here as well. -/
def noteRepublished : Step noteCrate := .ascending (.publish noteA [.new "q"] 30)

/-- The note is passed on to the two other peers, and its publication while it is seen is not
announced again. -/
theorem one_fanOut_while_seen_noteRepublished :
    inventoryTargets noteA.id.toHex
        (noteForwarded.run (meshAfter {} [noteAnnounced 10])).1.emitted = ["q", "r"] ∧
      FansWithin 8 (some "p") (inventoryTargets noteA.id.toHex
        (noteForwarded.run (meshAfter {} [noteAnnounced 10])).1.emitted) ∧
      ¬noteRepublished.FansOut (meshAfter {} [noteAnnounced 10, noteForwarded])
        noteA.id.toHex := by
  have htargets : inventoryTargets noteA.id.toHex
      (noteForwarded.run (meshAfter {} [noteAnnounced 10])).1.emitted = ["q", "r"] := by
    decide +kernel
  have hfans : noteForwarded.FansOut (meshAfter {} [noteAnnounced 10]) noteA.id.toHex := by
    refine ⟨rfl, ?_⟩
    rw [htargets]
    exact List.cons_ne_nil _ _
  refine ⟨htargets, ?_, ?_⟩
  · exact ((one_fanOut_while_seen {} [noteAnnounced 10] noteForwarded (by decide)
      noteA.id.toHex).2.1 hfans).2
  · refine (one_fanOut_while_seen {} [noteAnnounced 10, noteForwarded] noteRepublished (by decide)
      noteA.id.toHex).2.2 [noteAnnounced 10] noteForwarded [] rfl hfans ?_
    exact seenThroughout_singleton.mpr (by decide +kernel)

end NostrPubsub
