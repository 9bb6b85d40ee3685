import NostrPubsub.Mesh.Accounting

/-!
# At-most-once delivery

A second delivery of an event comes only after the event time to live, or after as many other
events were delivered as the delivered window holds.

The window is a queue. Once an id is delivered, the ids queued behind it are ids delivered
since (`Remembers`), so eviction reaches it only when enough of them have arrived, and a prune
removes it only when it is over.
-/

namespace NostrPubsub

namespace InvWantMesh

/-! ## Calls that deliver -/

/-- Nothing is delivered: only messages are sent, and the delivered window stays. -/
structure Undelivering (m : InvWantMesh) (actions : List InvWantAction) (m' : InvWantMesh) :
    Prop where
  sends : ∀ action ∈ actions, ∃ peerId message, action = .send peerId message
  order_eq : m'.deliveredOrder = m.deliveredOrder
  events_eq : m'.deliveredEvents = m.deliveredEvents

/-- `event` is delivered, and nothing else: it was not in the delivered window and enters it
at `nowMs`. -/
structure Delivering (m : InvWantMesh) (nowMs : ℕ) (event : Event) (actions : List InvWantAction)
    (m' : InvWantMesh) : Prop where
  fresh : event.id.toHex ∉ m.deliveredEvents
  emitted : ∃ sourcePeer, .deliver sourcePeer event ∈ actions
  only : ∀ sourcePeer other, .deliver sourcePeer other ∈ actions → other = event
  order_eq : m'.deliveredOrder = (m.rememberDelivered event.id.toHex nowMs).2.deliveredOrder
  events_eq : m'.deliveredEvents = (m.rememberDelivered event.id.toHex nowMs).2.deliveredEvents

theorem Undelivering.of_routesOnly {m m' : InvWantMesh} {actions : List InvWantAction}
    (hsends : ∀ action ∈ actions, ∃ peerId message, action = .send peerId message)
    (h : RoutesOnly m m') : Undelivering m actions m' := by
  obtain ⟨_, _, _, _, _, _, _, rfl⟩ := h
  exact ⟨hsends, rfl, rfl⟩

theorem Undelivering.silent (m : InvWantMesh) : Undelivering m [] m :=
  ⟨fun _ h => absurd h List.not_mem_nil, rfl, rfl⟩

/-- The delivered window after an accepted frame. -/
theorem acceptFrame_delivered (m : InvWantMesh) (route : UpstreamRoute)
    (sourcePeer eventId : String) (event : Event) (payloadBytes : ℕ) (peers : List MeshPeer)
    (nowMs : ℕ) :
    (m.acceptFrame route sourcePeer eventId event payloadBytes peers nowMs).2.deliveredOrder
        = (m.rememberDelivered eventId nowMs).2.deliveredOrder ∧
      (m.acceptFrame route sourcePeer eventId event payloadBytes peers nowMs).2.deliveredEvents
        = (m.rememberDelivered eventId nowMs).2.deliveredEvents := by
  simp only [acceptFrame, removePendingEvent, rememberDelivered, closeRoute, storeEvent,
    recordPeerBehavior, trackExpiry]
  split <;> exact ⟨rfl, rfl⟩

/-- An accepted frame is delivered first, if its id is not in the window; then it is sent on. -/
theorem acceptFrame_emitted (m : InvWantMesh) (route : UpstreamRoute)
    (sourcePeer eventId : String) (event : Event) (payloadBytes : ℕ) (peers : List MeshPeer)
    (nowMs : ℕ) :
    ∃ sends : List InvWantAction,
      (∀ action ∈ sends, ∃ peerId message, action = .send peerId message) ∧
      (m.acceptFrame route sourcePeer eventId event payloadBytes peers nowMs).1 =
        (if eventId ∈ m.deliveredEvents then [] else [.deliver sourcePeer event]) ++ sends := by
  have hfresh : (((m.recordPeerBehavior sourcePeer validFrameReward .validFrame).storeEvent event
      payloadBytes nowMs).closeRoute eventId |>.rememberDelivered eventId nowMs).1
        = decide (eventId ∉ m.deliveredEvents) := by
    simp only [rememberDelivered, closeRoute, storeEvent, recordPeerBehavior, trackExpiry]
    split
    · next h => simp [h]
    · next h => simp [h]
  have hdelivery : (if decide (eventId ∉ m.deliveredEvents) = true
        then [InvWantAction.deliver sourcePeer event] else [])
      = if eventId ∈ m.deliveredEvents then [] else [.deliver sourcePeer event] := by
    by_cases hmem : eventId ∈ m.deliveredEvents <;> simp [hmem]
  unfold acceptFrame
  simp only [hfresh, hdelivery, List.append_assoc]
  refine ⟨_, fun action haction => ?_, rfl⟩
  rcases List.mem_append.mp haction with hframe | hinventory
  · rcases hpending : Finmap.lookup eventId _ with _ | pending
    · rw [hpending] at hframe
      exact absurd hframe List.not_mem_nil
    · rw [hpending] at hframe
      obtain ⟨peerId, _, rfl⟩ := List.mem_map.mp hframe
      exact ⟨_, _, rfl⟩
  · split at hinventory
    · obtain ⟨peerId, rfl⟩ := eq_send_of_mem_sendToSelectedPeers hinventory
      exact ⟨_, _, rfl⟩
    · exact absurd hinventory List.not_mem_nil

theorem acceptFrame_delivering (m : InvWantMesh) (route : UpstreamRoute) (sourcePeer : String)
    (event : Event) (payloadBytes : ℕ) (peers : List MeshPeer) (nowMs : ℕ) :
    Undelivering m
        (m.acceptFrame route sourcePeer event.id.toHex event payloadBytes peers nowMs).1
        (m.acceptFrame route sourcePeer event.id.toHex event payloadBytes peers nowMs).2 ∨
      Delivering m nowMs event
        (m.acceptFrame route sourcePeer event.id.toHex event payloadBytes peers nowMs).1
        (m.acceptFrame route sourcePeer event.id.toHex event payloadBytes peers nowMs).2 := by
  obtain ⟨horder, hevents⟩ :=
    m.acceptFrame_delivered route sourcePeer event.id.toHex event payloadBytes peers nowMs
  obtain ⟨sends, hsends, hemitted⟩ :=
    m.acceptFrame_emitted route sourcePeer event.id.toHex event payloadBytes peers nowMs
  by_cases hmem : event.id.toHex ∈ m.deliveredEvents
  · left
    simp only [hmem, if_true, List.nil_append, rememberDelivered] at hemitted horder hevents
    exact ⟨by rwa [hemitted], horder, hevents⟩
  · right
    rw [if_neg hmem] at hemitted
    refine ⟨hmem, ⟨sourcePeer, ?_⟩, fun peer other hdeliver => ?_, horder, hevents⟩
    · rw [hemitted]
      exact List.mem_append_left _ (List.mem_singleton.mpr rfl)
    · rw [hemitted] at hdeliver
      rcases List.mem_append.mp hdeliver with hfirst | hrest
      · cases List.mem_singleton.mp hfirst
        rfl
      · obtain ⟨_, _, hsend⟩ := hsends _ hrest
        cases hsend

end InvWantMesh

namespace Op

variable {nostr : NostrCrate} {m : InvWantMesh}

open InvWantMesh

theorem receiveFrame_delivering {nowMs : ℕ} {sourcePeer eventId : String} {event : Event}
    {peers : List MeshPeer} {verifySignature : Bool}
    (hverify : verifySignature = false → nostr.verify event = .ok ()) :
    let result := recordRejection sourcePeer
      (m.receiveFrame nostr sourcePeer eventId event peers nowMs verifySignature)
    Undelivering m (OpResult.returned result.1).emitted result.2 ∨
      Delivering m nowMs event (OpResult.returned result.1).emitted result.2 := by
  intro result
  simp only [result, receiveFrame]
  split
  · exact Or.inl ⟨fun _ h => absurd h List.not_mem_nil, rfl, rfl⟩
  next route payloadBytes hadmitted =>
  obtain ⟨_, _, _, rfl, _⟩ := admitFrame_eq_ok hverify hadmitted
  split
  · exact Or.inl (.silent m)
  · exact m.acceptFrame_delivering route sourcePeer event payloadBytes peers nowMs

theorem publishValidated_undelivering {event : Event} {eventId : String} {payloadBytes nowMs : ℕ}
    {peers : List MeshPeer} :
    Undelivering m (publishValidated event eventId payloadBytes peers nowMs m).1
      (publishValidated event eventId payloadBytes peers nowMs m).2 := by
  have hsends : ∀ action ∈ (publishValidated event eventId payloadBytes peers nowMs m).1,
      ∃ peerId message, action = .send peerId message := by
    intro action haction
    simp only [publishValidated] at haction
    split at haction
    · exact absurd haction List.not_mem_nil
    · obtain ⟨peerId, rfl⟩ := eq_send_of_mem_sendToSelectedPeers haction
      exact ⟨_, _, rfl⟩
  have hremembered := Undelivering.of_routesOnly hsends
    (.rememberInventory (m.storeEvent event payloadBytes nowMs) eventId nowMs)
  rw [publishValidated_snd]
  exact ⟨hsends, hremembered.order_eq, hremembered.events_eq⟩

theorem withValidated_undelivering (validated : Except PubsubError (String × ℕ))
    (continue_ : String → ℕ → InvWantMesh → List InvWantAction × InvWantMesh)
    (h : ∀ eventId payloadBytes, Undelivering m (continue_ eventId payloadBytes m).1
      (continue_ eventId payloadBytes m).2) :
    Undelivering m (OpResult.returned (withValidated validated continue_ m).1).emitted
      (withValidated validated continue_ m).2 := by
  unfold withValidated
  split
  · exact .silent m
  · exact h _ _

theorem receiveInventory_undelivering {sourcePeer eventId : String}
    {eventKind payloadBytes hopLimit nowMs : ℕ} :
    Undelivering m
      (OpResult.returned (m.receiveInventory sourcePeer eventId eventKind payloadBytes hopLimit
        nowMs).1).emitted
      (m.receiveInventory sourcePeer eventId eventKind payloadBytes hopLimit nowMs).2 := by
  refine .of_routesOnly (fun action haction => ?_)
    (.receiveInventory m sourcePeer eventId eventKind payloadBytes hopLimit nowMs)
  rw [receiveInventory_emitted haction]
  exact ⟨_, _, rfl⟩

theorem receiveWant_undelivering {sourcePeer eventId : String} {nowMs : ℕ} :
    Undelivering m (OpResult.returned (m.receiveWant sourcePeer eventId nowMs).1).emitted
      (m.receiveWant sourcePeer eventId nowMs).2 := by
  unfold receiveWant
  split
  · exact .silent m
  split
  · refine ⟨fun action haction => ?_, rfl, rfl⟩
    exact ⟨_, _, List.mem_singleton.mp haction⟩
  split
  · exact .silent m
  split
  · exact .silent m
  have hwait := RoutesOnly.addPendingPeer m sourcePeer eventId nowMs
  simp only
  split
  · exact .of_routesOnly (fun _ h => absurd h List.not_mem_nil) hwait
  · refine .of_routesOnly (fun action haction => ?_) (hwait.trans (.forwardWant _ _ _))
    exact ⟨_, _, List.mem_singleton.mp haction⟩

theorem recordRejection_undelivering {sourcePeer : String}
    {result : Except PubsubError (List InvWantAction) × InvWantMesh}
    (h : Undelivering m (OpResult.returned result.1).emitted result.2) :
    Undelivering m (OpResult.returned (recordRejection sourcePeer result).1).emitted
      (recordRejection sourcePeer result).2 := by
  obtain ⟨error | actions, m'⟩ := result
  · exact ⟨h.sends, h.order_eq, h.events_eq⟩
  · exact h

/-- A call delivers at most one event, at its own time and into the window, or nothing. -/
theorem apply_delivering (prune : ℕ → InvWantMesh → InvWantMesh) (m : InvWantMesh)
    (op : Op nostr) :
    Undelivering (op.pruned prune m) (op.apply prune m).1.emitted (op.apply prune m).2 ∨
      ∃ nowMs event, op.clock = some nowMs ∧
        Delivering (op.pruned prune m) nowMs event (op.apply prune m).1.emitted
          (op.apply prune m).2 := by
  -- Only a frame delivers; what a publication or a replay emits goes to peers.
  cases op with
  | publish event peers t =>
    exact Or.inl (withValidated_undelivering ((prune t m).options.validateEvent nostr event)
      (fun eventId payloadBytes => publishValidated event eventId payloadBytes peers t)
      fun _ _ => publishValidated_undelivering)
  | publishVerified verified peers t =>
    exact Or.inl (withValidated_undelivering
      ((prune t m).options.validateVerifiedEvent nostr verified.event)
      (fun eventId payloadBytes => publishValidated verified.event eventId payloadBytes peers t)
      fun _ _ => publishValidated_undelivering)
  | replayToPeer event peerId t =>
    exact Or.inl (withValidated_undelivering ((prune t m).options.validateEvent nostr event)
      (fun eventId payloadBytes => replayValidated event eventId payloadBytes peerId t)
      fun _ _ => ⟨fun action haction => ⟨_, _, List.mem_singleton.mp haction⟩, rfl, rfl⟩)
  | replayVerifiedToPeer verified peerId t =>
    exact Or.inl (withValidated_undelivering
      ((prune t m).options.validateVerifiedEvent nostr verified.event)
      (fun eventId payloadBytes => replayValidated verified.event eventId payloadBytes peerId t)
      fun _ _ => ⟨fun action haction => ⟨_, _, List.mem_singleton.mp haction⟩, rfl, rfl⟩)
  | replayCachedToPeer peerId t =>
    refine Or.inl ⟨fun action haction => ?_, rfl, rfl⟩
    obtain ⟨eventId, _, hcached⟩ := List.mem_filterMap.mp haction
    obtain ⟨cached, _, rfl⟩ := Option.map_eq_some_iff.mp hcached
    exact ⟨_, _, rfl⟩
  | seedVerified verified t =>
    left
    simp only [apply, InvWantMesh.seedVerified]
    split
    · exact .silent _
    · exact ⟨fun _ h => absurd h List.not_mem_nil, rfl, rfl⟩
  | receive sourcePeer message peers t =>
    cases message with
    | inventory eventId eventKind payloadBytes hopLimit =>
      exact Or.inl (recordRejection_undelivering receiveInventory_undelivering)
    | want eventId => exact Or.inl (recordRejection_undelivering receiveWant_undelivering)
    | frame eventId event =>
      have hsigned : true = false → nostr.verify event = .ok () := fun h =>
        Bool.noConfusion h
      rcases receiveFrame_delivering hsigned with hno | hyes
      · exact Or.inl hno
      · exact Or.inr ⟨t, event, rfl, hyes⟩
  | receiveVerifiedFrame sourcePeer eventId verified peers t =>
    have hsigned : false = false → nostr.verify verified.event = .ok () :=
      fun _ => verified.verified
    rcases receiveFrame_delivering hsigned with hno | hyes
    · exact Or.inl hno
    · exact Or.inr ⟨t, verified.event, rfl, hyes⟩
  | dismissFrame peerId eventId =>
    exact Or.inl (.of_routesOnly (fun _ h => absurd h List.not_mem_nil) (.dismissFrame _ _ _))
  | recordInvalidMessage peerId =>
    exact Or.inl ⟨fun _ h => absurd h List.not_mem_nil, rfl, rfl⟩
  | recordTransportDisruption peerId eventId =>
    exact Or.inl (.of_routesOnly (fun _ h => absurd h List.not_mem_nil)
      (.recordTransportDisruption _ _ _))
  | maintain t => exact Or.inl (.silent _)

end Op

/-! ## The delivered window along a run -/

namespace InvWantMesh

/-- `eventId` is in the delivered window until `deadline`, with `newer` queued behind it. -/
def Remembers (m : InvWantMesh) (eventId : String) (deadline : ℕ) (newer : List String) : Prop :=
  m.deliveredEvents.lookup eventId = some deadline ∧
    ∃ older, m.deliveredOrder = older ++ eventId :: newer

/-- The id is remembered with at most the ids of `D` behind it, or it is over at `nowMs`, or
`D` fills the window. -/
def Deduplicates (m : InvWantMesh) (eventId : String) (deadline nowMs : ℕ) (D : Finset String) :
    Prop :=
  (∃ newer, m.Remembers eventId deadline newer ∧ ∀ id ∈ newer, id ∈ D) ∨
    deadline ≤ nowMs ∨ m.options.maxSeenEvents ≤ D.card

variable {m m' : InvWantMesh} {eventId : String} {deadline nowMs : ℕ} {D D' : Finset String}

theorem Deduplicates.mono {later : ℕ} (h : m.Deduplicates eventId deadline nowMs D)
    (hnow : nowMs ≤ later) (hD : D ⊆ D') : m.Deduplicates eventId deadline later D' := by
  rcases h with ⟨newer, hremembers, hnewer⟩ | hover | hfull
  · exact Or.inl ⟨newer, hremembers, fun id hid => hD (hnewer id hid)⟩
  · exact Or.inr (Or.inl (hover.trans hnow))
  · exact Or.inr (Or.inr (hfull.trans (Finset.card_le_card hD)))

/-- A call that delivers nothing. -/
theorem Deduplicates.undelivering {actions : List InvWantAction}
    (h : m.Deduplicates eventId deadline nowMs D) (hcall : Undelivering m actions m')
    (hoptions : m'.options = m.options) : m'.Deduplicates eventId deadline nowMs D := by
  unfold Deduplicates Remembers at h ⊢
  rwa [hcall.events_eq, hcall.order_eq, hoptions]

/-- Pruning drops the id only when it is over. -/
theorem Deduplicates.pruneExpired (h : m.Deduplicates eventId deadline nowMs D)
    (order : RouteOrder) : (m.pruneExpired order nowMs).Deduplicates eventId deadline nowMs D := by
  have hrecorded : (m.recordUnserved (m.expiredProviders order nowMs)).Deduplicates eventId
      deadline nowMs D :=
    @recordUnserved_preserves (fun m' => m'.Deduplicates eventId deadline nowMs D)
      (fun _ _ _ _ h => h) m h _
  rcases hrecorded with ⟨newer, ⟨hlookup, older, horder⟩, hnewer⟩ | hover | hfull
  · by_cases hover : deadline ≤ nowMs
    · exact Or.inr (Or.inl hover)
    -- The entry is kept, and so is its place in the queue.
    have hkept : (m.pruneExpired order nowMs).deliveredEvents.lookup eventId = some deadline :=
      Finmap.lookup_filter_eq_some.mpr ⟨hlookup, decide_eq_true (Nat.lt_of_not_ge hover)⟩
    have hqueue : (m.pruneExpired order nowMs).deliveredOrder
        = older.filter (fun id => id ∈ (m.pruneExpired order nowMs).deliveredEvents) ++
          eventId :: newer.filter fun id => id ∈ (m.pruneExpired order nowMs).deliveredEvents := by
      change (m.recordUnserved _).deliveredOrder.filter
        (fun id => id ∈ (m.pruneExpired order nowMs).deliveredEvents) = _
      have hmem : decide (eventId ∈ (m.pruneExpired order nowMs).deliveredEvents) = true :=
        decide_eq_true (Finmap.mem_of_lookup_eq_some hkept)
      rw [horder, List.filter_append, List.filter_cons, hmem, if_pos rfl]
    exact Or.inl ⟨_, ⟨hkept, _, hqueue⟩, fun id hid => hnewer id (List.mem_of_mem_filter hid)⟩
  · exact Or.inr (Or.inl hover)
  · exact Or.inr (Or.inr hfull)

theorem Deduplicates.prune (h : m.Deduplicates eventId deadline nowMs D) (order : RouteOrder) :
    (m.prune order nowMs).Deduplicates eventId deadline nowMs D := by
  unfold InvWantMesh.prune
  split
  · exact h
  · exact h.pruneExpired order

/-- The prune that a call starts with, at a time that is not earlier. -/
theorem Deduplicates.pruned {nostr : NostrCrate} (h : m.Deduplicates eventId deadline nowMs D)
    (next : Step nostr) (hclock : nowMs ≤ next.clock.getD nowMs) :
    (next.op.pruned (InvWantMesh.prune next.order) m).Deduplicates eventId deadline
      (next.clock.getD nowMs) D := by
  have hlater := h.mono hclock (Finset.Subset.refl D)
  unfold Op.pruned
  unfold Step.clock at hlater ⊢
  cases hop : next.op.clock with
  | none => rwa [hop] at hlater
  | some t =>
    rw [hop] at hlater
    exact hlater.prune next.order

/-- Delivering another event queues it behind the id, or evicts the id from a full window. -/
theorem Deduplicates.delivering {event : Event} {actions : List InvWantAction} {t : ℕ}
    (h : m.Deduplicates eventId deadline nowMs D) (horder : m.DeliveredAccounted)
    (hcall : Delivering m t event actions m') (hoptions : m'.options = m.options) (hD : D ⊆ D')
    (hnew : event.id.toHex ≠ eventId → event.id.toHex ∈ D') :
    m'.Deduplicates eventId deadline nowMs D' := by
  rcases h with ⟨newer, ⟨hlookup, older, hqueue⟩, hnewer⟩ | hover | hfull
  · have hfresh := hcall.fresh
    have hne : event.id.toHex ≠ eventId := by
      rintro rfl
      exact hfresh (Finmap.mem_of_lookup_eq_some hlookup)
    have henum := horder.order
    have hevents := hcall.events_eq
    have hpushed := hcall.order_eq
    rw [hqueue] at henum
    simp only [rememberDelivered, hfresh, if_false, trackExpiry, hqueue] at hevents hpushed
    -- Behind the id stand the ids queued before and the new one.
    have hbehind : ∀ id ∈ newer ++ [event.id.toHex], id ∈ D' := by
      intro id hid
      rcases List.mem_append.mp hid with hold | hlast
      · exact hD (hnewer id hold)
      · rw [List.mem_singleton.mp hlast]
        exact hnew hne
    rcases henum.evictOldest_keeps with ⟨older', hkept, hstill⟩ | hfull
    · refine Or.inl ⟨newer ++ [event.id.toHex], ⟨?_, older', ?_⟩, hbehind⟩
      · rw [hevents, Finmap.lookup_insert_of_ne _ hne.symm, hstill, hlookup]
      · rw [hpushed, hkept, List.append_assoc, List.cons_append]
    · -- They are distinct, and fill the window.
      have hnodup : (newer ++ [event.id.toHex]).Nodup := by
        have hback : newer.Nodup :=
          (List.nodup_cons.mp (List.nodup_append.mp henum.nodup).2.1).2
        refine List.nodup_append.mpr ⟨hback, List.nodup_singleton _, ?_⟩
        intro a ha b hb hab
        have hmem : event.id.toHex ∈ m.deliveredEvents := by
          rw [← henum.mem_iff, ← List.mem_singleton.mp hb, ← hab]
          exact List.mem_append_right _ (List.mem_cons_of_mem _ ha)
        exact hfresh hmem
      have hcard : (newer ++ [event.id.toHex]).toFinset.card ≤ D'.card :=
        Finset.card_le_card fun id hid => hbehind id (List.mem_toFinset.mp hid)
      rw [List.toFinset_card_of_nodup hnodup, List.length_append, List.length_singleton] at hcard
      refine Or.inr (Or.inr ?_)
      rw [hoptions]
      exact hfull.trans hcard
  · exact Or.inr (Or.inl hover)
  · refine Or.inr (Or.inr ?_)
    rw [hoptions]
    exact hfull.trans (Finset.card_le_card hD)

end InvWantMesh

/-! ## Runs -/

section Runs

variable {nostr : NostrCrate} {options : InvWantMeshOptions}

/-- The ids that a list of results delivers. -/
def deliveredIds (results : List OpResult) : Finset String :=
  (results.flatMap fun result => result.emitted.filterMap fun action =>
    match action with
    | .deliver _ event => some event.id.toHex
    | .send _ _ => none).toFinset

theorem mem_deliveredIds {results : List OpResult} {id : String} :
    id ∈ deliveredIds results ↔
      ∃ result ∈ results, ∃ sourcePeer event,
        .deliver sourcePeer event ∈ result.emitted ∧ event.id.toHex = id := by
  simp only [deliveredIds, List.mem_toFinset, List.mem_flatMap, List.mem_filterMap]
  constructor
  · rintro ⟨result, hresult, action, haction, hid⟩
    split at hid
    · exact ⟨result, hresult, _, _, haction, Option.some.inj hid⟩
    · cases hid
  · rintro ⟨result, hresult, sourcePeer, event, haction, hid⟩
    exact ⟨result, hresult, _, haction, congrArg some hid⟩

/-- The window remembers a delivered id along every clocked run that follows, until it is over
or enough other ids were delivered. -/
theorem deduplicates_run {before : List (Step nostr)} {eventId : String} {deadline c : ℕ}
    (hinit : (meshAfter options before).Deduplicates eventId deadline c ∅)
    (between : List (Step nostr)) (hclock : Mealy.ClockedFrom Step.clock c between) :
    (meshAfter options (before ++ between)).Deduplicates eventId deadline
      (Mealy.lastClock Step.clock c between)
      ((deliveredIds (Mealy.outputs Step.run (meshAfter options before) between)).erase
        eventId) := by
  induction between using List.reverseRecOn with
  | nil =>
    rw [List.append_nil]
    exact hinit.mono (Nat.le_refl c) (Finset.empty_subset _)
  | append_singleton between next ih =>
    obtain ⟨hfront, hlast⟩ := Mealy.clockedFrom_append.mp hclock
    have hstep : Mealy.lastClock Step.clock c (between ++ [next])
        = next.clock.getD (Mealy.lastClock Step.clock c between) := by
      simp [Mealy.lastClock, List.foldl_append]
    -- First the prune of the next call, then the call itself.
    have hpruned := (ih hfront).pruned next hlast.1
    rw [← hstep] at hpruned
    have haccounted : (next.op.pruned (InvWantMesh.prune next.order)
        (meshAfter options (before ++ between))).DeliveredAccounted := by
      have h := (InvWantMesh.Consistent.meshAfter options (before ++ between)).delivered
      unfold Op.pruned
      split
      · unfold InvWantMesh.prune
        split
        · exact h
        · exact h.pruneExpired _ _
      · exact h
    have hoptions : (next.run (meshAfter options (before ++ between))).2.options
        = (next.op.pruned (InvWantMesh.prune next.order)
          (meshAfter options (before ++ between))).options := by
      rw [pruned_options, ← meshAfter_concat, meshAfter_options]
    rw [Mealy.outputs_concat, ← meshAfter_append, ← List.append_assoc, meshAfter_concat]
    have hgrow : (deliveredIds (Mealy.outputs Step.run (meshAfter options before) between)).erase
          eventId ⊆
        (deliveredIds (Mealy.outputs Step.run (meshAfter options before) between ++
          [(next.run (meshAfter options (before ++ between))).1])).erase eventId := by
      intro id hid
      obtain ⟨hne, hid⟩ := Finset.mem_erase.mp hid
      obtain ⟨result, hresult, hdelivered⟩ := mem_deliveredIds.mp hid
      exact Finset.mem_erase.mpr
        ⟨hne, mem_deliveredIds.mpr ⟨result, List.mem_append_left _ hresult, hdelivered⟩⟩
    rcases Op.apply_delivering (InvWantMesh.prune next.order)
        (meshAfter options (before ++ between)) next.op with hno | ⟨nowMs, event, _, hyes⟩
    · exact (hpruned.undelivering hno hoptions).mono (Nat.le_refl _) hgrow
    · refine hpruned.delivering haccounted hyes hoptions hgrow fun hne => ?_
      obtain ⟨sourcePeer, hemitted⟩ := hyes.emitted
      exact Finset.mem_erase.mpr ⟨hne, mem_deliveredIds.mpr
        ⟨_, List.mem_append_right _ (List.mem_singleton.mpr rfl), sourcePeer, event, hemitted,
          rfl⟩⟩

/-- A call that delivers an event is remembered right after it. -/
theorem deduplicates_of_deliver {before : List (Step nostr)} {next : Step nostr} {nowMs : ℕ}
    (hclock : next.clock = some nowMs) {sourcePeer : String} {event : Event}
    (h : .deliver sourcePeer event ∈ (next.run (meshAfter options before)).1.emitted) :
    (meshAfter options (before ++ [next])).Deduplicates event.id.toHex
      (satAdd nowMs options.normalize.eventTtlMs) nowMs ∅ := by
  rcases Op.apply_delivering (InvWantMesh.prune next.order) (meshAfter options before) next.op with
    hno | ⟨t, delivered, ht, hyes⟩
  · obtain ⟨_, _, hsend⟩ := hno.sends _ h
    cases hsend
  · obtain rfl := hyes.only _ _ h
    have htime : t = nowMs := Option.some.inj (ht.symm.trans hclock)
    subst htime
    have hevents := hyes.events_eq
    have horder := hyes.order_eq
    simp only [InvWantMesh.rememberDelivered, hyes.fresh, if_false, InvWantMesh.trackExpiry,
      pruned_options] at hevents horder
    rw [meshAfter_concat]
    have hlookup : (next.run (meshAfter options before)).2.deliveredEvents.lookup event.id.toHex
        = some (satAdd t options.normalize.eventTtlMs) :=
      (congrArg _ hevents).trans (Finmap.lookup_insert _)
    exact Or.inl ⟨[], ⟨hlookup, _, horder⟩, fun id hid => absurd hid List.not_mem_nil⟩

end Runs

/-- At-most-once delivery. In a run whose clock does not go back, two deliveries of one event
are at least the event time to live apart, or at least `max_seen_events` other events are
delivered strictly between them. -/
theorem deliver_at_most_once {nostr : NostrCrate} (options : InvWantMeshOptions)
    (before between : List (Step nostr)) (first second : Step nostr)
    (hclock : ((before ++ first :: between ++ [second]).filterMap Step.clock).Pairwise (· ≤ ·))
    {firstPeer secondPeer : String} {event event' : Event} {t₁ t₂ : ℕ}
    (ht₁ : first.clock = some t₁) (ht₂ : second.clock = some t₂) (hid : event.id = event'.id)
    (hfirst : .deliver firstPeer event ∈ (first.run (meshAfter options before)).1.emitted)
    (hsecond : .deliver secondPeer event' ∈
      (second.run (meshAfter options (before ++ first :: between))).1.emitted) :
    satAdd t₁ options.normalize.eventTtlMs ≤ t₂ ∨
      ∃ ids : Finset String, options.normalize.maxSeenEvents ≤ ids.card ∧
        event.id.toHex ∉ ids ∧
        ∀ id ∈ ids, ∃ result ∈
            Mealy.outputs Step.run (meshAfter options (before ++ [first])) between,
          ∃ sourcePeer other, .deliver sourcePeer other ∈ result.emitted ∧
            other.id.toHex = id := by
  have hclocked : Mealy.ClockedFrom Step.clock t₁ (between ++ [second]) := by
    rw [List.append_assoc, List.cons_append, List.filterMap_append,
      List.filterMap_cons_some ht₁] at hclock
    obtain ⟨hhead, htail⟩ := List.pairwise_cons.mp (List.pairwise_append.mp hclock).2.1
    exact Mealy.clockedFrom_of_pairwise htail hhead
  obtain ⟨hbetween, hlast⟩ := Mealy.clockedFrom_append.mp hclocked
  have hwindow := deduplicates_run (deduplicates_of_deliver ht₁ hfirst) between hbetween
  have hpruned := hwindow.pruned second hlast.1
  rw [List.append_assoc, List.singleton_append, ht₂, Option.getD_some] at hpruned
  -- The second delivery finds the id out of the window.
  have hfresh : event.id.toHex ∉ (second.op.pruned (InvWantMesh.prune second.order)
      (meshAfter options (before ++ first :: between))).deliveredEvents := by
    rcases Op.apply_delivering (InvWantMesh.prune second.order)
        (meshAfter options (before ++ first :: between)) second.op with
      hno | ⟨_, delivered, _, hyes⟩
    · obtain ⟨_, _, hsend⟩ := hno.sends _ hsecond
      cases hsend
    · obtain rfl := hyes.only _ _ hsecond
      rw [hid]
      exact hyes.fresh
  rcases hpruned with ⟨newer, ⟨hlookup, _⟩, _⟩ | hover | hfull
  · exact absurd (Finmap.mem_of_lookup_eq_some hlookup) hfresh
  · exact Or.inl hover
  · rw [pruned_options] at hfull
    refine Or.inr ⟨_, hfull, Finset.notMem_erase _ _, fun id hmem => ?_⟩
    exact mem_deliveredIds.mp (Finset.mem_of_mem_erase hmem)

/-- A note announced and sent again after its time to live is delivered again. -/
theorem deliver_at_most_once_noteA :
    .deliver "p" noteA ∈
        ((noteReceived 20).run (meshAfter { eventTtlMs := 150000 } [noteAnnounced 10])).1.emitted ∧
      (satAdd 20 (InvWantMeshOptions.normalize { eventTtlMs := 150000 }).eventTtlMs ≤ 200010 ∨
        ∃ ids : Finset String,
          (InvWantMeshOptions.normalize { eventTtlMs := 150000 }).maxSeenEvents ≤ ids.card ∧
          noteA.id.toHex ∉ ids ∧
          ∀ id ∈ ids, ∃ result ∈ Mealy.outputs Step.run
              (meshAfter { eventTtlMs := 150000 } ([noteAnnounced 10] ++ [noteReceived 20]))
              [noteAnnounced 200000],
            ∃ sourcePeer other, .deliver sourcePeer other ∈ result.emitted ∧
              other.id.toHex = id) := by
  have hfirst : .deliver "p" noteA ∈ ((noteReceived 20).run
      (meshAfter { eventTtlMs := 150000 } [noteAnnounced 10])).1.emitted := by decide +kernel
  have hsecond : .deliver "p" noteA ∈ ((noteReceived 200010).run
      (meshAfter { eventTtlMs := 150000 }
        ([noteAnnounced 10] ++ noteReceived 20 :: [noteAnnounced 200000]))).1.emitted := by
    decide +kernel
  exact ⟨hfirst, deliver_at_most_once { eventTtlMs := 150000 } [noteAnnounced 10]
    [noteAnnounced 200000] (noteReceived 20) (noteReceived 200010) (by decide) rfl rfl rfl
    hfirst hsecond⟩

end NostrPubsub
