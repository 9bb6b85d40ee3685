import Mathlib.Logic.Relation
import NostrPubsub.ToMathlib.Except
import NostrPubsub.Mesh.Run

/-!
# What an operation can do to the mesh

`Update nostr nowMs m m'` lists the elementary changes an operation makes at time `nowMs`
after its prune, each with what the source has checked when it makes it. `apply_updates` says
once that every public operation is a prune followed by such changes; an invariant is then
proved on the prune and on each change, and `Op.preserves` carries it over every operation.
-/

namespace NostrPubsub

/-- The event passed signature verification, and its kind and size are admitted: what
`validate_event` establishes. `payloadBytes` is its serialized size. -/
def Admissible (nostr : NostrCrate) (options : InvWantMeshOptions) (event : Event)
    (payloadBytes : ℕ) : Prop :=
  nostr.verify event = .ok ()
    ∧ options.validateVerifiedEvent nostr event = .ok (event.id.toHex, payloadBytes)

section Validation

variable {nostr : NostrCrate} {options : InvWantMeshOptions} {event : Event}
  {eventId : String} {payloadBytes : ℕ}

/-- What a successful `validate_verified_event` has checked. -/
theorem validateVerifiedEvent_eq_ok
    (h : options.validateVerifiedEvent nostr event = .ok (eventId, payloadBytes)) :
    eventId = event.id.toHex ∧ options.validateKind event.kind = .ok () ∧
      ∃ payload, nostr.toJson event = .ok payload ∧ payload.length = payloadBytes ∧
        payloadBytes ≤ options.maxEventBytes := by
  unfold InvWantMeshOptions.validateVerifiedEvent at h
  obtain ⟨_, hkind, h⟩ := Except.bind_eq_ok.mp h
  cases hjson : nostr.toJson event with
  | error error =>
    rw [hjson] at h
    cases h
  | ok payload =>
    rw [hjson] at h
    obtain ⟨_, hlen, h⟩ := Except.bind_eq_ok.mp h
    unfold InvWantMeshOptions.validateEventLen at hlen
    split at hlen
    · cases hlen
    · next hle =>
      split at h
      · cases h
      · cases h
        exact ⟨rfl, hkind, payload, rfl, rfl, Nat.le_of_not_lt hle⟩

theorem admissible_of_validateVerifiedEvent (hverify : nostr.verify event = .ok ())
    (h : options.validateVerifiedEvent nostr event = .ok (eventId, payloadBytes)) :
    eventId = event.id.toHex ∧ Admissible nostr options event payloadBytes := by
  obtain ⟨rfl, _⟩ := validateVerifiedEvent_eq_ok h
  exact ⟨rfl, hverify, h⟩

theorem admissible_of_validateEvent
    (h : options.validateEvent nostr event = .ok (eventId, payloadBytes)) :
    eventId = event.id.toHex ∧ Admissible nostr options event payloadBytes := by
  unfold InvWantMeshOptions.validateEvent at h
  cases hverify : nostr.verify event with
  | error error =>
    rw [hverify] at h
    cases h
  | ok _ =>
    rw [hverify] at h
    exact admissible_of_validateVerifiedEvent hverify h

end Validation

namespace InvWantMesh

/-- What the checks of `receive_frame` have established: the sender is a provider of the
route, and the event is admissible, has the claimed id, and matches the announcement. -/
theorem admitFrame_eq_ok {m : InvWantMesh} {nostr : NostrCrate} {sourcePeer eventId : String}
    {event : Event} {verifySignature : Bool} {route : UpstreamRoute} {payloadBytes : ℕ}
    (hverify : verifySignature = false → nostr.verify event = .ok ())
    (h : m.admitFrame nostr sourcePeer eventId event verifySignature = .ok (route, payloadBytes)) :
    m.upstreamRoutes.lookup eventId = some route ∧ sourcePeer ∈ route.providers ∧
      eventId ∈ m.wantForwarded ∧ eventId = event.id.toHex ∧
      Admissible nostr m.options event payloadBytes ∧
      route.eventKind = event.kind ∧ route.payloadBytes = payloadBytes := by
  unfold admitFrame at h
  obtain ⟨_, _, h⟩ := Except.bind_eq_ok.mp h
  cases hroute : m.upstreamRoutes.lookup eventId with
  | none =>
    rw [hroute] at h
    cases h
  | some found =>
    rw [hroute] at h
    simp only at h
    split at h
    · cases h
    · next hasked =>
      rw [not_or, not_not, Bool.not_eq_false] at hasked
      obtain ⟨⟨verifiedId, size⟩, hvalid, h⟩ := Except.bind_eq_ok.mp h
      have hadmissible : verifiedId = event.id.toHex ∧
          Admissible nostr m.options event size := by
        split at hvalid
        · exact admissible_of_validateEvent hvalid
        · next hflag =>
          exact admissible_of_validateVerifiedEvent
            (hverify (Bool.eq_false_of_not_eq_true hflag)) hvalid
      simp only at h
      split at h
      · cases h
      · next hidEq =>
        split at h
        · cases h
        · next hmatch =>
          rw [not_or, not_not, not_not] at hmatch
          rw [not_not] at hidEq
          cases h
          exact ⟨rfl, UpstreamRoute.hasProvider_iff.mp hasked.2, hasked.1,
            hidEq ▸ hadmissible.1, hadmissible.2, hmatch.1, hmatch.2⟩

/-- The part of `receive_frame` that settles a route: mark it fulfilled, remember the
delivery and drop the waiting peers. -/
def settleRoute (m : InvWantMesh) (eventId : String) (nowMs : ℕ) : InvWantMesh :=
  ((m.closeRoute eventId).rememberDelivered eventId nowMs).2.removePendingEvent eventId

/-- An elementary change of the mesh at time `nowMs`, after the prune. -/
inductive Update (nostr : NostrCrate) (nowMs : ℕ) : InvWantMesh → InvWantMesh → Prop
  /-- Evidence about a peer. -/
  | behavior {m : InvWantMesh} (peerId : String) (delta : ℤ) (evidence : PeerBehaviorEvidence) :
      Update nostr nowMs m (m.recordPeerBehavior peerId delta evidence)
  /-- An admissible event enters the cache. -/
  | stored {m : InvWantMesh} {event : Event} {payloadBytes : ℕ}
      (hevent : Admissible nostr m.options event payloadBytes) :
      Update nostr nowMs m (m.storeEvent event payloadBytes nowMs)
  /-- An id that is not currently seen becomes seen. -/
  | seen {m : InvWantMesh} {eventId : String} (hfresh : m.isSeen eventId nowMs = false) :
      Update nostr nowMs m (m.rememberInventory eventId nowMs).2
  /-- The sender of the inventory that made the id seen is asked for the event. -/
  | opened {m : InvWantMesh} {sourcePeer eventId : String} {eventKind payloadBytes hopLimit : ℕ}
      (hseen : m.seenInventories.lookup eventId = some (satAdd nowMs m.options.routeTtlMs)) :
      Update nostr nowMs m
        (m.openRoute sourcePeer eventId eventKind payloadBytes hopLimit nowMs).2
  /-- Another inventory for a seen id. -/
  | extended {m : InvWantMesh} {sourcePeer eventId : String}
      {eventKind payloadBytes hopLimit : ℕ} (hseen : m.isSeen eventId nowMs = true) :
      Update nostr nowMs m
        (m.extendRoute sourcePeer eventId eventKind payloadBytes hopLimit nowMs).2
  /-- A peer waits for an event whose route is open. -/
  | waiting {m : InvWantMesh} {sourcePeer eventId : String} {route : UpstreamRoute}
      (hroute : m.upstreamRoutes.lookup eventId = some route) (hopen : route.fulfilled = false) :
      Update nostr nowMs m (m.addPendingPeer sourcePeer eventId nowMs)
  /-- The first provider of an open route is asked again. -/
  | forwarded {m : InvWantMesh} {eventId : String} {route : UpstreamRoute}
      (hroute : m.upstreamRoutes.lookup eventId = some route) (hopen : route.fulfilled = false) :
      Update nostr nowMs m (m.forwardWant route eventId).2
  /-- A frame arrived for an open route. -/
  | settled {m : InvWantMesh} {eventId : String} {route : UpstreamRoute}
      (hroute : m.upstreamRoutes.lookup eventId = some route) (hopen : route.fulfilled = false) :
      Update nostr nowMs m (m.settleRoute eventId nowMs)
  /-- A frame is dismissed. -/
  | dismissed {m : InvWantMesh} (peerId eventId : String) :
      Update nostr nowMs m (m.dismissFrame peerId eventId)
  /-- The transport of an outstanding request failed. -/
  | disrupted {m : InvWantMesh} (peerId eventId : String) :
      Update nostr nowMs m (m.recordTransportDisruption peerId eventId).2

/-- Any number of elementary changes at one time. -/
abbrev Updates (nostr : NostrCrate) (nowMs : ℕ) : InvWantMesh → InvWantMesh → Prop :=
  Relation.ReflTransGen (Update nostr nowMs)

/-- What every elementary change preserves, any number of them does. -/
theorem Updates.preserves {nostr : NostrCrate} {nowMs : ℕ} {I : InvWantMesh → Prop}
    (hupdate : ∀ m m', Update nostr nowMs m m' → I m → I m') {m m' : InvWantMesh}
    (h : Updates nostr nowMs m m') (hm : I m) : I m' := by
  induction h with
  | refl => exact hm
  | tail _ hstep ih => exact hupdate _ _ hstep ih

/-! ## Another inventory for a seen id -/

/-- The outcomes of an inventory for a seen id: nothing happens, or the id has an open route
and its sender is asked again, is turned away for lack of room, or becomes an alternate. -/
theorem extendRoute_cases (m : InvWantMesh) (sourcePeer eventId : String)
    (eventKind payloadBytes hopLimit nowMs : ℕ) :
    ((m.extendRoute sourcePeer eventId eventKind payloadBytes hopLimit nowMs).2 = m ∧
      (OpResult.returned
        (m.extendRoute sourcePeer eventId eventKind payloadBytes hopLimit nowMs).1).emitted = []) ∨
    ∃ route, m.upstreamRoutes.lookup eventId = some route ∧ route.fulfilled = false ∧
      (sourcePeer ∈ route.providers ∧
          m.extendRoute sourcePeer eventId eventKind payloadBytes hopLimit nowMs =
            (.ok [.send sourcePeer (.want eventId)],
              { m with
                upstreamRoutes := m.upstreamRoutes.insert eventId
                  { route with
                    hopLimit := max route.hopLimit hopLimit
                    transportDisruptedPeers :=
                      route.transportDisruptedPeers.erase sourcePeer } }) ∨
        sourcePeer ∉ route.providers ∧
          m.extendRoute sourcePeer eventId eventKind payloadBytes hopLimit nowMs =
            (.ok [],
              { m with
                upstreamRoutes := m.upstreamRoutes.insert eventId
                  { route with hopLimit := max route.hopLimit hopLimit } }) ∨
        sourcePeer ∉ route.providers ∧
          route.alternatePeers.card + 1 < maxUpstreamProvidersPerEvent ∧
          m.extendRoute sourcePeer eventId eventKind payloadBytes hopLimit nowMs =
            (.ok [.send sourcePeer (.want eventId)],
              { m with
                upstreamRoutes := m.upstreamRoutes.insert eventId
                  { route with
                    hopLimit := max route.hopLimit hopLimit
                    alternatePeers := insert sourcePeer route.alternatePeers
                    expiresAtMs := satAdd nowMs m.options.routeTtlMs
                    transportDisruptedPeers := route.transportDisruptedPeers.erase sourcePeer }
                seenInventories :=
                  m.seenInventories.insert eventId (satAdd nowMs m.options.routeTtlMs)
                wantForwarded :=
                  m.wantForwarded.insert eventId (satAdd nowMs m.options.routeTtlMs) })) := by
  unfold extendRoute
  cases hroute : m.upstreamRoutes.lookup eventId with
  | none => exact Or.inl ⟨rfl, rfl⟩
  | some route =>
    -- The checks of the source in its order: fulfilled, another kind or size, known provider, room.
    by_cases hopen : route.fulfilled = true
    · exact Or.inl ⟨by simp [hopen], by simp [hopen, OpResult.emitted]⟩
    by_cases hsame : route.eventKind ≠ eventKind ∨ route.payloadBytes ≠ payloadBytes
    · refine Or.inl ⟨?_, ?_⟩ <;> simp only [if_neg hopen, if_pos hsame, OpResult.emitted]
    refine Or.inr ⟨route, rfl, Bool.eq_false_of_not_eq_true hopen, ?_⟩
    simp only [if_neg hopen, if_neg hsame]
    split
    · next hknown => exact Or.inl ⟨UpstreamRoute.hasProvider_iff.mp hknown, rfl⟩
    next hknown =>
    have hunknown : sourcePeer ∉ route.providers :=
      fun hmem => hknown (UpstreamRoute.hasProvider_iff.mpr hmem)
    split
    · exact Or.inr (Or.inl ⟨hunknown, rfl⟩)
    · next hroom => exact Or.inr (Or.inr ⟨hunknown, Nat.lt_of_not_ge hroom, rfl⟩)

/-! ## Frames -/

/-- `m'` differs from `m` at most in the seen window, in the routes, wants and waiting peers
that hang on it, and in the next prune time. -/
def RoutesOnly (m m' : InvWantMesh) : Prop :=
  ∃ seenInventories seenOrder upstreamRoutes pendingDownstream pendingPeerCount wantForwarded
    nextPruneAtMs,
    m' =
      { m with
        seenInventories, seenOrder, upstreamRoutes, pendingDownstream, pendingPeerCount,
        wantForwarded, nextPruneAtMs }

namespace RoutesOnly

variable {m m' m'' : InvWantMesh}

theorem refl (m : InvWantMesh) : RoutesOnly m m := ⟨_, _, _, _, _, _, _, rfl⟩

theorem trans (h : RoutesOnly m m') (h' : RoutesOnly m' m'') : RoutesOnly m m'' := by
  obtain ⟨_, _, _, _, _, _, _, rfl⟩ := h
  obtain ⟨_, _, _, _, _, _, _, rfl⟩ := h'
  exact ⟨_, _, _, _, _, _, _, rfl⟩

theorem options_eq (h : RoutesOnly m m') : m'.options = m.options := by
  obtain ⟨_, _, _, _, _, _, _, rfl⟩ := h
  rfl

theorem closeRoute (m : InvWantMesh) (eventId : String) : RoutesOnly m (m.closeRoute eventId) :=
  ⟨_, _, _, _, _, _, _, rfl⟩

theorem removePendingEvent (m : InvWantMesh) (eventId : String) :
    RoutesOnly m (m.removePendingEvent eventId) :=
  ⟨_, _, _, _, _, _, _, rfl⟩

theorem dismissFrame (m : InvWantMesh) (peerId eventId : String) :
    RoutesOnly m (m.dismissFrame peerId eventId) := by
  unfold InvWantMesh.dismissFrame
  split
  · exact (closeRoute m eventId).trans (removePendingEvent _ eventId)
  · exact refl m

theorem recordTransportDisruption (m : InvWantMesh) (peerId eventId : String) :
    RoutesOnly m (m.recordTransportDisruption peerId eventId).2 := by
  unfold InvWantMesh.recordTransportDisruption
  split
  · exact refl m
  split
  · exact ⟨_, _, _, _, _, _, _, rfl⟩
  · exact refl m

theorem openRoute (m : InvWantMesh) (sourcePeer eventId : String)
    (eventKind payloadBytes hopLimit nowMs : ℕ) :
    RoutesOnly m (m.openRoute sourcePeer eventId eventKind payloadBytes hopLimit nowMs).2 :=
  ⟨_, _, _, _, _, _, _, rfl⟩

theorem extendRoute (m : InvWantMesh) (sourcePeer eventId : String)
    (eventKind payloadBytes hopLimit nowMs : ℕ) :
    RoutesOnly m (m.extendRoute sourcePeer eventId eventKind payloadBytes hopLimit nowMs).2 := by
  rcases m.extendRoute_cases sourcePeer eventId eventKind payloadBytes hopLimit nowMs with
    ⟨heq, _⟩ | ⟨route, _, _, ⟨_, heq⟩ | ⟨_, heq⟩ | ⟨_, _, heq⟩⟩ <;> rw [heq]
  · exact refl m
  · exact ⟨_, _, _, _, _, _, _, rfl⟩
  · exact ⟨_, _, _, _, _, _, _, rfl⟩
  · exact ⟨_, _, _, _, _, _, _, rfl⟩

theorem addPendingPeer (m : InvWantMesh) (sourcePeer eventId : String) (nowMs : ℕ) :
    RoutesOnly m (m.addPendingPeer sourcePeer eventId nowMs) := by
  unfold InvWantMesh.addPendingPeer
  simp only
  split
  · exact ⟨_, _, _, _, _, _, _, rfl⟩
  · exact ⟨_, _, _, _, _, _, _, rfl⟩

theorem forwardWant (m : InvWantMesh) (route : UpstreamRoute) (eventId : String) :
    RoutesOnly m (m.forwardWant route eventId).2 :=
  ⟨_, _, _, _, _, _, _, rfl⟩

end RoutesOnly

/-- `remember_delivered` changes the delivered window and the next prune time only. -/
theorem rememberDelivered_frame (m : InvWantMesh) (eventId : String) (nowMs : ℕ) :
    ∃ deliveredOrder deliveredEvents nextPruneAtMs,
      (m.rememberDelivered eventId nowMs).2
        = { m with deliveredOrder, deliveredEvents, nextPruneAtMs } := by
  unfold rememberDelivered
  split
  · exact ⟨_, _, _, rfl⟩
  · exact ⟨_, _, _, rfl⟩

/-! ## Remembering an inventory -/

/-- What forgetting the oldest id preserves, the eviction loop of `remember_inventory` does. -/
theorem evictOldestInventories_preserves {I : InvWantMesh → Prop}
    (hforget : ∀ m oldest rest, m.seenOrder = oldest :: rest → I m →
      I (m.forgetOldestInventory oldest rest))
    {m : InvWantMesh} (h : I m) : I (evictOldestInventories m.seenOrder m) := by
  -- The loop recurses on the queue, which stays the `seenOrder` of the mesh at every turn.
  generalize horder : m.seenOrder = order
  induction order generalizing m with
  | nil => exact h
  | cons oldest rest ih =>
    rw [evictOldestInventories]
    split
    · exact ih (hforget m oldest rest horder h) rfl
    · exact h

theorem RoutesOnly.evictOldestInventories (m : InvWantMesh) :
    RoutesOnly m (evictOldestInventories m.seenOrder m) :=
  evictOldestInventories_preserves
    (fun _ _ _ _ h => h.trans ⟨_, _, _, _, _, _, _, rfl⟩) (RoutesOnly.refl m)

/-- The mesh after `remember_inventory`, for an id whose seen entry is over or missing. -/
theorem rememberInventory_snd {m : InvWantMesh} {eventId : String} {nowMs : ℕ}
    (h : m.isSeen eventId nowMs = false) :
    (eventId ∈ m.seenInventories ∧
      (m.rememberInventory eventId nowMs).2 =
        trackExpiry
          { m with
            seenInventories :=
              m.seenInventories.insert eventId (satAdd nowMs m.options.routeTtlMs) }
          (satAdd nowMs m.options.routeTtlMs)) ∨
    (eventId ∉ m.seenInventories ∧
      (m.rememberInventory eventId nowMs).2 =
        trackExpiry
          { evictOldestInventories m.seenOrder m with
            seenOrder := (evictOldestInventories m.seenOrder m).seenOrder ++ [eventId]
            seenInventories :=
              (evictOldestInventories m.seenOrder m).seenInventories.insert eventId
                (satAdd nowMs m.options.routeTtlMs) }
          (satAdd nowMs m.options.routeTtlMs)) := by
  by_cases hmem : eventId ∈ m.seenInventories
  · exact Or.inl ⟨hmem, by simp [rememberInventory, h, hmem]⟩
  · refine Or.inr ⟨hmem, ?_⟩
    simp [rememberInventory, h, hmem, (RoutesOnly.evictOldestInventories m).options_eq]

theorem RoutesOnly.rememberInventory (m : InvWantMesh) (eventId : String) (nowMs : ℕ) :
    RoutesOnly m (m.rememberInventory eventId nowMs).2 := by
  cases hseen : m.isSeen eventId nowMs with
  | true =>
    simp only [InvWantMesh.rememberInventory, hseen, if_true]
    exact refl m
  | false =>
    rcases rememberInventory_snd hseen with ⟨_, heq⟩ | ⟨_, heq⟩ <;> rw [heq]
    · exact ⟨_, _, _, _, _, _, _, rfl⟩
    · exact (RoutesOnly.evictOldestInventories m).trans ⟨_, _, _, _, _, _, _, rfl⟩

/-- `settleRoute` leaves the evidence and the cache alone. -/
theorem settleRoute_frame (m : InvWantMesh) (eventId : String) (nowMs : ℕ) :
    ∃ deliveredOrder deliveredEvents upstreamRoutes pendingDownstream pendingPeerCount
      nextPruneAtMs,
      m.settleRoute eventId nowMs =
        { m with
          deliveredOrder, deliveredEvents, upstreamRoutes, pendingDownstream, pendingPeerCount,
          nextPruneAtMs } := by
  obtain ⟨_, _, _, heq⟩ := (m.closeRoute eventId).rememberDelivered_frame eventId nowMs
  rw [settleRoute, heq]
  exact ⟨_, _, _, _, _, _, rfl⟩

/-- What an elementary change touches: the evidence, the cache, the routes, or, when a frame
arrives, the delivered window between two changes of the routes. -/
theorem Update.touches {nostr : NostrCrate} {nowMs : ℕ} {m m' : InvWantMesh}
    (h : Update nostr nowMs m m') :
    (∃ peerId delta evidence, m' = m.recordPeerBehavior peerId delta evidence) ∨
    (∃ event payloadBytes, Admissible nostr m.options event payloadBytes ∧
      m' = m.storeEvent event payloadBytes nowMs) ∨
    RoutesOnly m m' ∨
    ∃ eventId route, m.upstreamRoutes.lookup eventId = some route ∧ route.fulfilled = false ∧
      m' = m.settleRoute eventId nowMs := by
  cases h with
  | behavior peerId delta evidence => exact Or.inl ⟨_, _, _, rfl⟩
  | stored hevent => exact Or.inr (Or.inl ⟨_, _, hevent, rfl⟩)
  | seen _ => exact Or.inr (Or.inr (Or.inl (.rememberInventory ..)))
  | opened _ => exact Or.inr (Or.inr (Or.inl (.openRoute ..)))
  | extended _ => exact Or.inr (Or.inr (Or.inl (.extendRoute ..)))
  | waiting _ _ => exact Or.inr (Or.inr (Or.inl (.addPendingPeer ..)))
  | forwarded _ _ => exact Or.inr (Or.inr (Or.inl (.forwardWant ..)))
  | settled hroute hopen => exact Or.inr (Or.inr (Or.inr ⟨_, _, hroute, hopen, rfl⟩))
  | dismissed peerId eventId => exact Or.inr (Or.inr (Or.inl (.dismissFrame ..)))
  | disrupted peerId eventId => exact Or.inr (Or.inr (Or.inl (.recordTransportDisruption ..)))

/-- No elementary change touches the options. -/
theorem Update.options_eq {nostr : NostrCrate} {nowMs : ℕ} {m m' : InvWantMesh}
    (h : Update nostr nowMs m m') : m'.options = m.options := by
  rcases h.touches with
    ⟨_, _, _, rfl⟩ | ⟨_, _, _, rfl⟩ | hroutes | ⟨eventId, _, _, _, rfl⟩
  · rfl
  · rfl
  · exact hroutes.options_eq
  · obtain ⟨_, _, _, _, _, _, heq⟩ := m.settleRoute_frame eventId nowMs
    rw [heq]

/-- What recording evidence preserves, recording it for every unserved provider does. -/
theorem recordUnserved_preserves {I : InvWantMesh → Prop}
    (hrecord : ∀ m peerId delta evidence, I m → I (m.recordPeerBehavior peerId delta evidence))
    {m : InvWantMesh} (h : I m) (peers : List String) : I (m.recordUnserved peers) := by
  induction peers generalizing m with
  | nil => exact h
  | cons peerId rest ih => exact ih (hrecord m peerId _ _ h)

theorem pruneExpired_options (m : InvWantMesh) (order : RouteOrder) (nowMs : ℕ) :
    (m.pruneExpired order nowMs).options = m.options := by
  have hrecorded : (m.recordUnserved (m.expiredProviders order nowMs)).options = m.options :=
    @recordUnserved_preserves (fun m' => m'.options = m.options) (fun _ _ _ _ h => h) m rfl _
  exact hrecorded

theorem prune_options (m : InvWantMesh) (order : RouteOrder) (nowMs : ℕ) :
    (m.prune order nowMs).options = m.options := by
  unfold prune
  split
  · rfl
  · exact m.pruneExpired_options order nowMs

section Operations

variable {nostr : NostrCrate} {m : InvWantMesh} {nowMs : ℕ}

/-- A successful `remember_inventory` leaves the id seen until the route time to live. -/
theorem rememberInventory_of_not_seen {eventId : String} (h : m.isSeen eventId nowMs = false) :
    (m.rememberInventory eventId nowMs).1 = true ∧
      (m.rememberInventory eventId nowMs).2.seenInventories.lookup eventId
        = some (satAdd nowMs (m.rememberInventory eventId nowMs).2.options.routeTtlMs) := by
  simp [rememberInventory, h, trackExpiry]

theorem rememberInventory_of_seen {eventId : String} (h : m.isSeen eventId nowMs = true) :
    m.rememberInventory eventId nowMs = (false, m) := by
  simp [rememberInventory, h]

theorem publishValidated_snd {event : Event} {eventId : String} {payloadBytes : ℕ}
    {peers : List MeshPeer} :
    (publishValidated event eventId payloadBytes peers nowMs m).2
      = ((m.storeEvent event payloadBytes nowMs).rememberInventory eventId nowMs).2 := by
  simp only [publishValidated]
  split <;> next h => rw [h]

theorem publishValidated_updates {event : Event} {payloadBytes : ℕ} {peers : List MeshPeer}
    (h : Admissible nostr m.options event payloadBytes) :
    Updates nostr nowMs m
      (publishValidated event event.id.toHex payloadBytes peers nowMs m).2 := by
  have hstore : Updates nostr nowMs m (m.storeEvent event payloadBytes nowMs) :=
    .single (.stored h)
  rw [publishValidated_snd]
  cases hseen : (m.storeEvent event payloadBytes nowMs).isSeen event.id.toHex nowMs with
  | true =>
    rw [rememberInventory_of_seen hseen]
    exact hstore
  | false => exact hstore.tail (.seen hseen)

/-- The outcomes of an inventory: it is refused or ignored, it is one more for a seen id, or
its id becomes seen and its sender is asked. -/
theorem receiveInventory_cases (m : InvWantMesh) (sourcePeer eventId : String)
    (eventKind payloadBytes hopLimit nowMs : ℕ) :
    ((m.receiveInventory sourcePeer eventId eventKind payloadBytes hopLimit nowMs).2 = m ∧
      (OpResult.returned (m.receiveInventory sourcePeer eventId eventKind payloadBytes hopLimit
        nowMs).1).emitted = []) ∨
    (m.isSeen eventId nowMs = true ∧
      m.receiveInventory sourcePeer eventId eventKind payloadBytes hopLimit nowMs =
        m.extendRoute sourcePeer eventId eventKind payloadBytes hopLimit nowMs) ∨
    (m.isSeen eventId nowMs = false ∧
      m.receiveInventory sourcePeer eventId eventKind payloadBytes hopLimit nowMs =
        (.ok [.send sourcePeer (.want eventId)],
          ((m.rememberInventory eventId nowMs).2.openRoute sourcePeer eventId eventKind
            payloadBytes hopLimit nowMs).2)) := by
  unfold receiveInventory
  simp only
  split
  · exact Or.inl ⟨rfl, rfl⟩
  split
  · exact Or.inl ⟨rfl, rfl⟩
  split
  · exact Or.inl ⟨rfl, rfl⟩
  split
  · exact Or.inl ⟨rfl, rfl⟩
  right
  cases hseen : m.isSeen eventId nowMs with
  | true =>
    rw [rememberInventory_of_seen hseen]
    exact Or.inl ⟨rfl, rfl⟩
  | false =>
    have hsplit : m.rememberInventory eventId nowMs
        = (true, (m.rememberInventory eventId nowMs).2) :=
      Prod.ext (rememberInventory_of_not_seen hseen).1 rfl
    rw [hsplit]
    exact Or.inr ⟨rfl, rfl⟩

/-- An inventory is answered by a want to its sender or not at all. -/
theorem receiveInventory_emitted {m : InvWantMesh} {sourcePeer eventId : String}
    {eventKind payloadBytes hopLimit nowMs : ℕ} {action : InvWantAction}
    (h : action ∈ (OpResult.returned (m.receiveInventory sourcePeer eventId eventKind payloadBytes
      hopLimit nowMs).1).emitted) : action = .send sourcePeer (.want eventId) := by
  rcases m.receiveInventory_cases sourcePeer eventId eventKind payloadBytes hopLimit nowMs with
    ⟨_, hnone⟩ | ⟨_, heq⟩ | ⟨_, heq⟩
  · rw [hnone] at h
    exact absurd h List.not_mem_nil
  · rw [heq] at h
    rcases m.extendRoute_cases sourcePeer eventId eventKind payloadBytes hopLimit nowMs with
      ⟨_, hnone⟩ | ⟨_, _, _, ⟨_, heq⟩ | ⟨_, heq⟩ | ⟨_, _, heq⟩⟩
    · rw [hnone] at h
      exact absurd h List.not_mem_nil
    · rw [heq] at h
      exact List.mem_singleton.mp h
    · rw [heq] at h
      exact absurd h List.not_mem_nil
    · rw [heq] at h
      exact List.mem_singleton.mp h
  · rw [heq] at h
    exact List.mem_singleton.mp h

theorem RoutesOnly.receiveInventory (m : InvWantMesh) (sourcePeer eventId : String)
    (eventKind payloadBytes hopLimit nowMs : ℕ) :
    RoutesOnly m
      (m.receiveInventory sourcePeer eventId eventKind payloadBytes hopLimit nowMs).2 := by
  rcases m.receiveInventory_cases sourcePeer eventId eventKind payloadBytes hopLimit nowMs with
    ⟨heq, _⟩ | ⟨_, heq⟩ | ⟨_, heq⟩ <;> rw [heq]
  · exact refl m
  · exact .extendRoute m sourcePeer eventId eventKind payloadBytes hopLimit nowMs
  · exact (RoutesOnly.rememberInventory m eventId nowMs).trans
      (.openRoute _ sourcePeer eventId eventKind payloadBytes hopLimit nowMs)

theorem receiveInventory_updates {sourcePeer eventId : String}
    {eventKind payloadBytes hopLimit : ℕ} :
    Updates nostr nowMs m
      (m.receiveInventory sourcePeer eventId eventKind payloadBytes hopLimit nowMs).2 := by
  rcases m.receiveInventory_cases sourcePeer eventId eventKind payloadBytes hopLimit nowMs with
    ⟨heq, _⟩ | ⟨hseen, heq⟩ | ⟨hseen, heq⟩
  · rw [heq]
  · rw [heq]
    exact .single (.extended hseen)
  · rw [heq]
    exact (Relation.ReflTransGen.single (.seen hseen)).tail
      (.opened (rememberInventory_of_not_seen hseen).2)

theorem addPendingPeer_upstreamRoutes {sourcePeer eventId : String} :
    (m.addPendingPeer sourcePeer eventId nowMs).upstreamRoutes = m.upstreamRoutes := by
  unfold addPendingPeer
  simp only
  split <;> rfl

theorem addPendingPeer_wantForwarded {sourcePeer eventId : String} :
    (m.addPendingPeer sourcePeer eventId nowMs).wantForwarded = m.wantForwarded := by
  unfold addPendingPeer
  simp only
  split <;> rfl

theorem receiveWant_updates {sourcePeer eventId : String} :
    Updates nostr nowMs m (m.receiveWant sourcePeer eventId nowMs).2 := by
  unfold receiveWant
  split
  · exact .refl
  split
  · exact .refl
  split
  · exact .refl
  next route hroute =>
  split
  · exact .refl
  next hopen =>
  rw [Bool.not_eq_true] at hopen
  have hwait : Updates nostr nowMs m (m.addPendingPeer sourcePeer eventId nowMs) :=
    .single (.waiting hroute hopen)
  simp only
  split
  · exact hwait
  · have hkept : (m.addPendingPeer sourcePeer eventId nowMs).upstreamRoutes.lookup eventId
        = some route := by
      rw [addPendingPeer_upstreamRoutes, hroute]
    exact hwait.tail (.forwarded hkept hopen)

theorem receiveFrame_updates {sourcePeer eventId : String} {event : Event}
    {peers : List MeshPeer} {verifySignature : Bool}
    (hverify : verifySignature = false → nostr.verify event = .ok ()) :
    Updates nostr nowMs m
      (m.receiveFrame nostr sourcePeer eventId event peers nowMs verifySignature).2 := by
  unfold receiveFrame
  split
  · exact .refl
  next route payloadBytes hadmitted =>
  obtain ⟨hroute, _, _, _, hevent, _⟩ := admitFrame_eq_ok hverify hadmitted
  split
  · exact .refl
  next hopen =>
  rw [Bool.not_eq_true] at hopen
  have hbehavior : Updates nostr nowMs m
      (m.recordPeerBehavior sourcePeer validFrameReward .validFrame) := .single (.behavior _ _ _)
  have hstore : Update nostr nowMs (m.recordPeerBehavior sourcePeer validFrameReward .validFrame)
      ((m.recordPeerBehavior sourcePeer validFrameReward .validFrame).storeEvent event
        payloadBytes nowMs) := .stored hevent
  exact (hbehavior.tail hstore).tail (.settled hroute hopen)

theorem recordRejection_updates {sourcePeer : String}
    {result : Except PubsubError (List InvWantAction) × InvWantMesh}
    (h : Updates nostr nowMs m result.2) :
    Updates nostr nowMs m (recordRejection sourcePeer result).2 := by
  obtain ⟨_ | _, m'⟩ := result
  · exact h.tail (.behavior _ _ _)
  · exact h

theorem dispatch_updates {sourcePeer : String} {message : InvWantWireMessage}
    {peers : List MeshPeer} :
    Updates nostr nowMs m (m.dispatch nostr sourcePeer message peers nowMs).2 := by
  cases message with
  | inventory eventId eventKind payloadBytes hopLimit => exact receiveInventory_updates
  | want eventId => exact receiveWant_updates
  | frame eventId event => exact receiveFrame_updates (fun h => nomatch h)

end Operations

end InvWantMesh

namespace Op

variable {nostr : NostrCrate}

/-- The mesh an operation works on: pruned, when it has a clock. -/
def pruned (prune : ℕ → InvWantMesh → InvWantMesh) (m : InvWantMesh) (op : Op nostr) :
    InvWantMesh :=
  match op.clock with
  | some nowMs => prune nowMs m
  | none => m

/-- Every operation is a prune followed by elementary changes at its own time; one without a
clock makes them at any time. -/
theorem apply_updates (prune : ℕ → InvWantMesh → InvWantMesh) (m : InvWantMesh) (op : Op nostr)
    (nowMs : ℕ) :
    InvWantMesh.Updates nostr (op.clock.getD nowMs) (op.pruned prune m) (op.apply prune m).2 := by
  cases op with
  -- An event is stored once its validation has succeeded.
  | publish event peers t =>
    simp only [apply, InvWantMesh.publish, InvWantMesh.withValidated]
    split
    · exact .refl
    · next hvalid =>
      obtain ⟨rfl, hevent⟩ := admissible_of_validateEvent hvalid
      exact InvWantMesh.publishValidated_updates hevent
  | publishVerified verified peers t =>
    simp only [apply, InvWantMesh.publishVerified, InvWantMesh.withValidated]
    split
    · exact .refl
    · next hvalid =>
      obtain ⟨rfl, hevent⟩ := admissible_of_validateVerifiedEvent verified.verified hvalid
      exact InvWantMesh.publishValidated_updates hevent
  | replayToPeer event peerId t =>
    simp only [apply, InvWantMesh.replayToPeer, InvWantMesh.withValidated]
    split
    · exact .refl
    · next hvalid => exact .single (.stored (admissible_of_validateEvent hvalid).2)
  | replayVerifiedToPeer verified peerId t =>
    simp only [apply, InvWantMesh.replayVerifiedToPeer, InvWantMesh.withValidated]
    split
    · exact .refl
    · next hvalid =>
      exact .single
        (.stored (admissible_of_validateVerifiedEvent verified.verified hvalid).2)
  | replayCachedToPeer peerId t => exact .refl
  | seedVerified verified t =>
    simp only [apply, InvWantMesh.seedVerified]
    split
    · exact .refl
    · next hvalid =>
      exact .single
        (.stored (admissible_of_validateVerifiedEvent verified.verified hvalid).2)
  | receive sourcePeer message peers t =>
    exact InvWantMesh.recordRejection_updates InvWantMesh.dispatch_updates
  | receiveVerifiedFrame sourcePeer eventId verified peers t =>
    exact InvWantMesh.recordRejection_updates
      (InvWantMesh.receiveFrame_updates fun _ => verified.verified)
  | dismissFrame peerId eventId => exact .single (.dismissed peerId eventId)
  | recordInvalidMessage peerId => exact .single (.behavior _ _ _)
  | recordTransportDisruption peerId eventId => exact .single (.disrupted peerId eventId)
  | maintain t => exact .refl

end Op

namespace Step

variable {nostr : NostrCrate}

/-- A property that the body of `prune` and every elementary change preserve is preserved by
every step, whatever the clock values. -/
theorem preserves {I : InvWantMesh → Prop}
    (hprune : ∀ order nowMs m, I m → I (m.pruneExpired order nowMs))
    (hupdate : ∀ nowMs m m', InvWantMesh.Update nostr nowMs m m' → I m → I m')
    (s : Step nostr) (m : InvWantMesh) (h : I m) : I (s.run m).2 := by
  have hpruned : I (s.op.pruned (InvWantMesh.prune s.order) m) := by
    unfold Op.pruned InvWantMesh.prune
    split
    · split
      · exact h
      · exact hprune _ _ _ h
    · exact h
  exact InvWantMesh.Updates.preserves (hupdate _)
    (Op.apply_updates (InvWantMesh.prune s.order) m s.op 0) hpruned

/-- The same for a property that depends on the time, when the clock does not go back. -/
theorem preserves_clocked {I : ℕ → InvWantMesh → Prop}
    (hprune : ∀ order c nowMs m, c ≤ nowMs → I c m → I nowMs (m.prune order nowMs))
    (hupdate : ∀ nowMs m m', InvWantMesh.Update nostr nowMs m m' → I nowMs m → I nowMs m')
    (c : ℕ) (s : Step nostr) (m : InvWantMesh) (h : I c m) (hclock : c ≤ s.clock.getD c) :
    I (s.clock.getD c) (s.run m).2 := by
  have hpruned : I (s.clock.getD c) (s.op.pruned (InvWantMesh.prune s.order) m) := by
    unfold Op.pruned
    unfold Step.clock at hclock ⊢
    cases hop : s.op.clock with
    | none => exact h
    | some nowMs =>
      rw [hop] at hclock
      exact hprune _ _ _ _ hclock h
  exact InvWantMesh.Updates.preserves (hupdate _)
    (Op.apply_updates (InvWantMesh.prune s.order) m s.op c) hpruned

/-- A step never changes the options. -/
theorem run_options (s : Step nostr) (m : InvWantMesh) : (s.run m).2.options = m.options :=
  preserves (I := fun m' => m'.options = m.options)
    (fun order nowMs m' h => (m'.pruneExpired_options order nowMs).trans h)
    (fun _ _ _ hupdate h => hupdate.options_eq.trans h) s m rfl

end Step

/-- A run never changes the options that `InvWantMesh::new` clamped. -/
theorem meshAfter_options {nostr : NostrCrate} (options : InvWantMeshOptions)
    (steps : List (Step nostr)) : (meshAfter options steps).options = options.normalize :=
  @Mealy.invariant _ _ _ Step.run (fun m => m.options = options.normalize)
    (fun step m h => (step.run_options m).trans h) (InvWantMesh.new options) rfl steps

/-- The mesh that the next call works on has the same options. -/
theorem pruned_options {nostr : NostrCrate} (options : InvWantMeshOptions)
    (steps : List (Step nostr)) (next : Step nostr) :
    (next.op.pruned (InvWantMesh.prune next.order) (meshAfter options steps)).options
      = options.normalize := by
  unfold Op.pruned
  split
  · rw [InvWantMesh.prune_options, meshAfter_options]
  · exact meshAfter_options options steps

end NostrPubsub
