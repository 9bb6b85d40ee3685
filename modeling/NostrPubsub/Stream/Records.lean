import NostrPubsub.Mesh.AtMostOnce
import NostrPubsub.Stream.Operations

/-!
# What a record does

A record that a peer sent leads to exactly one call of the mesh: the codec, the signature
check and the event policy decide which (`handledRecord`, `Handled.op`). What the mesh delivers in that call is
handed on, unless an answer cannot be encoded.
-/

namespace NostrPubsub

/-- Something the stream handled: a record of a peer, by what the codec, the signature check
and the event policy made of it, or another call of the stream. -/
inductive Handled (nostr : NostrCrate) where
  | undecodable (sourcePeer : String)
  | inventory (sourcePeer eventId : String) (eventKind payloadBytes hopLimit : ℕ)
      (peers : List MeshPeer) (nowMs : ℕ)
  | want (sourcePeer eventId : String) (peers : List MeshPeer) (nowMs : ℕ)
  /-- A frame whose event does not verify. -/
  | unverified (sourcePeer eventId : String) (event : Event)
  /-- A frame that the event policy dropped or failed on. -/
  | refused (sourcePeer eventId : String) (verified : VerifiedEvent nostr)
  /-- A frame that went to the mesh. -/
  | admitted (sourcePeer eventId : String) (verified : VerifiedEvent nostr)
      (peers : List MeshPeer) (nowMs : ℕ)
  | published (verified : VerifiedEvent nostr) (peers : List MeshPeer) (nowMs : ℕ)
  | replayed (peerId : String) (nowMs : ℕ)
  | seeded (verified : VerifiedEvent nostr) (nowMs : ℕ)
  | maintained (nowMs : ℕ)

/-- The call of the mesh that it leads to. -/
def Handled.op {nostr : NostrCrate} : Handled nostr → Op nostr
  | .undecodable sourcePeer => .recordInvalidMessage sourcePeer
  | .inventory sourcePeer eventId eventKind payloadBytes hopLimit peers nowMs =>
    .receive sourcePeer (.inventory eventId eventKind payloadBytes hopLimit) peers nowMs
  | .want sourcePeer eventId peers nowMs => .receive sourcePeer (.want eventId) peers nowMs
  | .unverified sourcePeer _ _ => .recordInvalidMessage sourcePeer
  | .refused sourcePeer eventId _ => .dismissFrame sourcePeer eventId
  | .admitted sourcePeer eventId verified peers nowMs =>
    .receiveVerifiedFrame sourcePeer eventId verified peers nowMs
  | .published verified peers nowMs => .publishVerified verified peers nowMs
  | .replayed peerId nowMs => .replayCachedToPeer peerId nowMs
  | .seeded verified nowMs => .seedVerified verified nowMs
  | .maintained nowMs => .maintain nowMs

namespace FipsInvWantStream

variable {nostr : NostrCrate} {σ : Type} {config : StreamConfig nostr σ}

/-! ## Policies -/

theorem checkEvent_snd (s : FipsInvWantStream config) (verified : VerifiedEvent nostr)
    (source : EventSource) :
    ∃ policies, (s.checkEvent verified source).2 = { s with policies } := by
  unfold checkEvent
  cases config.eventPolicy with
  | none => exact ⟨s.policies, rfl⟩
  | some checkEvent => exact ⟨_, rfl⟩

theorem selectPeer_snd (s : FipsInvWantStream config) (peerId : String) :
    ∃ policies, (s.selectPeer peerId).2 = { s with policies } := by
  unfold selectPeer
  cases config.peerPolicy with
  | none => exact ⟨s.policies, rfl⟩
  | some selectMeshPeer => exact ⟨_, rfl⟩

theorem selectPeersInto_snd (peerIds : List String) (selected : Table MeshPeer)
    (s : FipsInvWantStream config) :
    ∃ policies, (selectPeersInto selected peerIds s).2 = { s with policies } := by
  induction peerIds generalizing selected s with
  | nil => exact ⟨s.policies, rfl⟩
  | cons peerId peerIds ih =>
    obtain ⟨policies, hselect⟩ := s.selectPeer_snd peerId
    rcases hresult : s.selectPeer peerId with ⟨result, s'⟩
    rw [hresult] at hselect
    cases hselect
    rw [selectPeersInto, hresult]
    rcases result with error | selection
    · exact ⟨policies, rfl⟩
    · cases selection with
      | none => exact ih selected { s with policies }
      | some peer => exact ih (selected.insert peerId peer) { s with policies }

theorem selectPeers_snd (s : FipsInvWantStream config) (peerIds : List String) :
    ∃ policies, (s.selectPeers peerIds).2 = { s with policies } :=
  selectPeersInto_snd peerIds ∅ s

/-! ## The call a record leads to -/

section Record

variable (sourcePeer : String) (peers : List MeshPeer) (nowMs : ℕ)

/-- A frame with a verified event, by what the event policy says about it. -/
def handledFrame (eventId : String) (verified : VerifiedEvent nostr) :
    Except PubsubError PolicyDecision → Handled nostr
  | .ok (.allow _) => .admitted sourcePeer eventId verified peers nowMs
  | .ok (.throttle _ _) => .admitted sourcePeer eventId verified peers nowMs
  | .ok (.drop _) => .refused sourcePeer eventId verified
  | .error _ => .refused sourcePeer eventId verified

/-- What a message turns out to be. -/
def handledMessage (message : InvWantWireMessage) (s : FipsInvWantStream config) :
    Handled nostr :=
  match message with
  | .inventory eventId eventKind payloadBytes hopLimit =>
    .inventory sourcePeer eventId eventKind payloadBytes hopLimit peers nowMs
  | .want eventId => .want sourcePeer eventId peers nowMs
  | .frame eventId event =>
    match VerifiedEvent.tryFrom nostr event with
    | .error _ => .unverified sourcePeer eventId event
    | .ok verified =>
      handledFrame sourcePeer peers nowMs eventId verified
        (s.checkEvent verified (.ofFipsEndpoint sourcePeer)).1

/-- What a record turns out to be. -/
def handledRecord (record : List UInt8) (s : FipsInvWantStream config) : Handled nostr :=
  match config.codec.decode config.serde record with
  | .error _ => .undecodable sourcePeer
  | .ok message => handledMessage sourcePeer peers nowMs message s

end Record

theorem receiveMessage_snd (order : RouteOrder) (sourcePeer : String) (peers : List MeshPeer)
    (nowMs : ℕ) (message : InvWantWireMessage) (s : FipsInvWantStream config) :
    ∃ policies, (s.receiveMessage order sourcePeer message peers nowMs).2 =
      { s with
        policies
        mesh := ((handledMessage sourcePeer peers nowMs message s).op.apply
          (InvWantMesh.prune order) s.mesh).2 } := by
  cases message with
  | inventory eventId eventKind payloadBytes hopLimit => exact ⟨s.policies, rfl⟩
  | want eventId => exact ⟨s.policies, rfl⟩
  | frame eventId event =>
    simp only [receiveMessage, handledMessage]
    cases hverify : VerifiedEvent.tryFrom nostr event with
    | error error => exact ⟨s.policies, rfl⟩
    | ok verified =>
      simp only
      obtain ⟨policies, hpolicies⟩ := s.checkEvent_snd verified (.ofFipsEndpoint sourcePeer)
      rcases hcheck : s.checkEvent verified (.ofFipsEndpoint sourcePeer) with ⟨decision, s'⟩
      rw [hcheck] at hpolicies
      cases hpolicies
      refine ⟨policies, ?_⟩
      rcases decision with error | (priority | ⟨priority, reason⟩ | reason) <;> rfl

/-- A record changes the mesh by its call, and nothing else but what the policies remember. -/
theorem receiveRecord_snd (order : RouteOrder) (sourcePeer : String) (peers : List MeshPeer)
    (nowMs : ℕ) (record : List UInt8) (s : FipsInvWantStream config) :
    ∃ policies, (s.receiveRecord order sourcePeer peers nowMs record).2 =
      { s with
        policies
        mesh := ((handledRecord sourcePeer peers nowMs record s).op.apply
          (InvWantMesh.prune order) s.mesh).2 } := by
  unfold receiveRecord handledRecord
  cases config.codec.decode config.serde record with
  | error error => exact ⟨s.policies, rfl⟩
  | ok message => exact receiveMessage_snd order sourcePeer peers nowMs message s

variable {order : RouteOrder} {sourcePeer : String} {peers : List MeshPeer} {nowMs : ℕ}

/-- The stream with other input buffers. -/
def withInputs (s : FipsInvWantStream config)
    (inputs : Table (RecordDecoder config.options.maxRecordBytes)) : FipsInvWantStream config :=
  { s with inputs }

/-- The input buffers play no part in handling a record. -/
theorem receiveRecord_withInputs (record : List UInt8) (s : FipsInvWantStream config)
    (inputs : Table (RecordDecoder config.options.maxRecordBytes)) :
    (s.withInputs inputs).receiveRecord order sourcePeer peers nowMs record =
      ((s.receiveRecord order sourcePeer peers nowMs record).1,
        (s.receiveRecord order sourcePeer peers nowMs record).2.withInputs inputs) := by
  unfold receiveRecord
  cases config.codec.decode config.serde record with
  | error error => rfl
  | ok message =>
    cases message with
    | inventory eventId eventKind payloadBytes hopLimit => rfl
    | want eventId => rfl
    | frame eventId event =>
      simp only [receiveMessage]
      cases VerifiedEvent.tryFrom nostr event with
      | error error => rfl
      | ok verified =>
        simp only [checkEvent, withInputs]
        cases config.eventPolicy with
        | none => rfl
        | some check =>
          simp only
          obtain ⟨decision, policies⟩ :=
            check s.policies verified (.ofFipsEndpoint sourcePeer)
          rcases decision with error | (priority | ⟨priority, reason⟩ | reason) <;> rfl

/-! ## Answers -/

/-- A record whose handling succeeds was a frame that the mesh took, another message that the
mesh took, or a frame that the event policy dropped. -/
theorem receiveRecord_ok_cases {record : List UInt8} {s : FipsInvWantStream config}
    {actions : List (FipsInvWantStreamAction nostr)}
    (h : (s.receiveRecord order sourcePeer peers nowMs record).1 = .ok actions) :
    (∃ eventId verified priority meshActions,
      (handledRecord sourcePeer peers nowMs record s).op
          = .receiveVerifiedFrame sourcePeer eventId verified peers nowMs ∧
        (s.mesh.receiveVerifiedFrame (InvWantMesh.prune order) nostr sourcePeer eventId verified
          peers nowMs).1 = .ok meshActions ∧
        encodeActions config (some (verified, priority)) meshActions = .ok actions) ∨
    (∃ message meshActions,
      (handledRecord sourcePeer peers nowMs record s).op = .receive sourcePeer message peers nowMs ∧
        (s.mesh.receive (InvWantMesh.prune order) nostr sourcePeer message peers nowMs).1
          = .ok meshActions ∧
        encodeActions config none meshActions = .ok actions) ∨
    ∃ eventId, (handledRecord sourcePeer peers nowMs record s).op = .dismissFrame sourcePeer eventId := by
  unfold receiveRecord at h
  unfold handledRecord
  cases hdecode : config.codec.decode config.serde record with
  | error error =>
    rw [hdecode] at h
    cases h
  | ok message =>
    rw [hdecode] at h
    cases message with
    | inventory eventId eventKind payloadBytes hopLimit =>
      obtain ⟨meshActions, hmesh, hencode⟩ := Except.bind_eq_ok.mp h
      exact Or.inr (Or.inl ⟨_, meshActions, rfl, hmesh, hencode⟩)
    | want eventId =>
      obtain ⟨meshActions, hmesh, hencode⟩ := Except.bind_eq_ok.mp h
      exact Or.inr (Or.inl ⟨_, meshActions, rfl, hmesh, hencode⟩)
    | frame eventId event =>
      simp only [receiveMessage] at h
      simp only [handledMessage]
      cases hverify : VerifiedEvent.tryFrom nostr event with
      | error error =>
        rw [hverify] at h
        cases h
      | ok verified =>
        rw [hverify] at h
        simp only at h ⊢
        -- The policy changes its own state and nothing else of the stream.
        obtain ⟨policies, hpolicies⟩ := s.checkEvent_snd verified (.ofFipsEndpoint sourcePeer)
        rcases hcheck : s.checkEvent verified (.ofFipsEndpoint sourcePeer) with ⟨decision, s'⟩
        rw [hcheck] at h hpolicies
        cases hpolicies
        rcases decision with error | (priority | ⟨priority, reason⟩ | reason)
        · cases h
        · obtain ⟨meshActions, hmesh, hencode⟩ := Except.bind_eq_ok.mp h
          exact Or.inl ⟨eventId, verified, priority, meshActions, rfl, hmesh, hencode⟩
        · obtain ⟨meshActions, hmesh, hencode⟩ := Except.bind_eq_ok.mp h
          exact Or.inl ⟨eventId, verified, priority, meshActions, rfl, hmesh, hencode⟩
        · exact Or.inr (Or.inr ⟨eventId, rfl⟩)

/-- Every delivery of the mesh is among the encoded actions, as the admitted event. -/
theorem deliver_mem_encodeActions {admitted : Option (VerifiedEvent nostr × ℤ)}
    {meshActions : List InvWantAction} {actions : List (FipsInvWantStreamAction nostr)}
    (h : encodeActions config admitted meshActions = .ok actions)
    {peer : String} {event : Event} (hdeliver : .deliver peer event ∈ meshActions) :
    ∃ verified priority, admitted = some (verified, priority) ∧
      .deliver { event := verified, source := .ofFipsEndpoint peer, priority } ∈ actions := by
  unfold encodeActions at h
  induction meshActions generalizing actions with
  | nil => exact absurd hdeliver List.not_mem_nil
  | cons head rest ih =>
    rw [List.mapM_cons] at h
    obtain ⟨first, hfirst, h⟩ := Except.bind_eq_ok.mp h
    obtain ⟨others, hothers, h⟩ := Except.bind_eq_ok.mp h
    cases h
    rcases List.mem_cons.mp hdeliver with rfl | hrest
    · rcases admitted with _ | ⟨verified, priority⟩
      · cases hfirst
      · cases hfirst
        exact ⟨verified, priority, rfl, List.mem_cons_self⟩
    · obtain ⟨verified, priority, hadmitted, hmem⟩ := ih hothers hrest
      exact ⟨verified, priority, hadmitted, List.mem_cons_of_mem _ hmem⟩

/-- Every message of the mesh is among the encoded actions, as a record. -/
theorem send_mem_encodeActions {admitted : Option (VerifiedEvent nostr × ℤ)}
    {meshActions : List InvWantAction} {actions : List (FipsInvWantStreamAction nostr)}
    (h : encodeActions config admitted meshActions = .ok actions)
    {peer : String} {message : InvWantWireMessage} (hsend : .send peer message ∈ meshActions) :
    ∃ bytes, encodeAction config none (.send peer message) = .ok (.send peer bytes) ∧
      .send peer bytes ∈ actions := by
  unfold encodeActions at h
  induction meshActions generalizing actions with
  | nil => exact absurd hsend List.not_mem_nil
  | cons head rest ih =>
    rw [List.mapM_cons] at h
    obtain ⟨first, hfirst, h⟩ := Except.bind_eq_ok.mp h
    obtain ⟨others, hothers, h⟩ := Except.bind_eq_ok.mp h
    cases h
    rcases List.mem_cons.mp hsend with rfl | hrest
    · obtain ⟨payload, hpayload, hrecord⟩ := Except.bind_eq_ok.mp hfirst
      obtain ⟨bytes, hbytes, heq⟩ := Except.bind_eq_ok.mp hrecord
      cases heq
      exact ⟨bytes, hfirst, List.mem_cons_self⟩
    · obtain ⟨bytes, hencode, hmem⟩ := ih hothers hrest
      exact ⟨bytes, hencode, List.mem_cons_of_mem _ hmem⟩

/-- Every message with which the mesh answers a record that is handled is handed on. -/
theorem send_mem_receiveRecord {record : List UInt8} {s : FipsInvWantStream config}
    {actions : List (FipsInvWantStreamAction nostr)}
    (hok : (s.receiveRecord order sourcePeer peers nowMs record).1 = .ok actions)
    {peer : String} {message : InvWantWireMessage}
    (h : .send peer message ∈ ((handledRecord sourcePeer peers nowMs record s).op.apply
      (InvWantMesh.prune order) s.mesh).1.emitted) :
    ∃ bytes, encodeAction config none (.send peer message) = .ok (.send peer bytes) ∧
      .send peer bytes ∈ actions := by
  rcases receiveRecord_ok_cases hok with ⟨claimed, verified, priority, meshActions, hop, hmesh,
    hencode⟩ | ⟨received, meshActions, hop, hmesh, hencode⟩ | ⟨claimed, hop⟩
  · rw [hop] at h
    refine send_mem_encodeActions hencode ?_
    simpa [Op.apply, OpResult.emitted, hmesh] using h
  · rw [hop] at h
    refine send_mem_encodeActions hencode ?_
    simpa [Op.apply, OpResult.emitted, hmesh] using h
  · rw [hop] at h
    exact absurd h List.not_mem_nil

/-! ## Deliveries -/

/-- Pruning only takes ids out of the delivered window. -/
theorem mem_deliveredEvents_of_pruned {m : InvWantMesh} {op : Op nostr} {eventId : String}
    (h : eventId ∈ (op.pruned (InvWantMesh.prune order) m).deliveredEvents) :
    eventId ∈ m.deliveredEvents := by
  unfold Op.pruned at h
  split at h
  · next t _ =>
    unfold InvWantMesh.prune at h
    split at h
    · exact h
    · have hrecorded : (m.recordUnserved (m.expiredProviders order t)).deliveredEvents
          = m.deliveredEvents :=
        @InvWantMesh.recordUnserved_preserves (fun m' => m'.deliveredEvents = m.deliveredEvents)
          (fun _ _ _ _ heq => heq) m rfl _
      obtain ⟨expiry, hlookup⟩ := Finmap.mem_iff.mp h
      have hkept := (Finmap.lookup_filter_eq_some.mp hlookup).1
      change (m.recordUnserved (m.expiredProviders order t)).deliveredEvents.lookup eventId
        = some expiry at hkept
      rw [hrecorded] at hkept
      exact Finmap.mem_of_lookup_eq_some hkept
  · exact h

/-- What a call of the mesh adds to the delivered window it delivers. -/
theorem apply_delivered {m : InvWantMesh} {op : Op nostr} {eventId : String}
    (h : eventId ∈ (op.apply (InvWantMesh.prune order) m).2.deliveredEvents) :
    eventId ∈ m.deliveredEvents ∨
      ∃ peer event, .deliver peer event ∈ (op.apply (InvWantMesh.prune order) m).1.emitted ∧
        event.id.toHex = eventId := by
  rcases Op.apply_delivering (InvWantMesh.prune order) m op with hno | ⟨t, event, _, hyes⟩
  · rw [hno.events_eq] at h
    exact Or.inl (mem_deliveredEvents_of_pruned h)
  · rw [hyes.events_eq, InvWantMesh.rememberDelivered, if_neg hyes.fresh] at h
    simp only [InvWantMesh.trackExpiry, Finmap.mem_insert] at h
    rcases h with rfl | hold
    · obtain ⟨peer, hdeliver⟩ := hyes.emitted
      exact Or.inr ⟨peer, event, hdeliver, rfl⟩
    · obtain ⟨expiry, hlookup⟩ := Finmap.mem_iff.mp hold
      exact Or.inl (mem_deliveredEvents_of_pruned
        (Finmap.mem_of_lookup_eq_some (lookup_evictOldest hlookup)))

/-- The event of a delivery is the event of the frame. -/
theorem eq_of_deliver_receiveVerifiedFrame {m : InvWantMesh} {eventId : String}
    {verified : VerifiedEvent nostr} {meshActions : List InvWantAction}
    (hmesh : (m.receiveVerifiedFrame (InvWantMesh.prune order) nostr sourcePeer eventId verified
      peers nowMs).1 = .ok meshActions)
    {peer : String} {event : Event} (hdeliver : .deliver peer event ∈ meshActions) :
    event = verified.event := by
  have hemitted : (OpResult.returned (m.receiveVerifiedFrame (InvWantMesh.prune order) nostr
      sourcePeer eventId verified peers nowMs).1).emitted = meshActions := by
    rw [hmesh]
    rfl
  have hsigned : false = false → nostr.verify verified.event = .ok () :=
    fun _ => verified.verified
  rcases Op.receiveFrame_delivering hsigned with hno | hyes
  · obtain ⟨_, _, hsend⟩ := hno.sends _ (hemitted ▸ hdeliver)
    cases hsend
  · exact hyes.only peer event (hemitted ▸ hdeliver)

/-- What a record that is handled adds to the delivered window is handed on. -/
theorem receiveRecord_delivered {record : List UInt8} {s : FipsInvWantStream config}
    {actions : List (FipsInvWantStreamAction nostr)}
    (hok : (s.receiveRecord order sourcePeer peers nowMs record).1 = .ok actions)
    {eventId : String}
    (h : eventId
      ∈ (s.receiveRecord order sourcePeer peers nowMs record).2.mesh.deliveredEvents) :
    eventId ∈ s.mesh.deliveredEvents ∨
      ∃ delivered : QueryEvent nostr, .deliver delivered ∈ actions ∧
        delivered.event.event.id.toHex = eventId := by
  obtain ⟨policies, hsnd⟩ := receiveRecord_snd order sourcePeer peers nowMs record s
  rw [hsnd] at h
  rcases apply_delivered h with hold | ⟨peer, event, hdeliver, rfl⟩
  · exact Or.inl hold
  right
  rcases receiveRecord_ok_cases hok with ⟨claimed, verified, priority, meshActions, hop, hmesh,
    hencode⟩ | ⟨message, meshActions, hop, hmesh, hencode⟩ | ⟨claimed, hop⟩
  · rw [hop] at hdeliver
    have hmem : .deliver peer event ∈ meshActions := by
      simpa [Op.apply, OpResult.emitted, hmesh] using hdeliver
    obtain ⟨_, _, hadmitted, hactions⟩ := deliver_mem_encodeActions hencode hmem
    cases hadmitted
    refine ⟨_, hactions, ?_⟩
    rw [eq_of_deliver_receiveVerifiedFrame hmesh hmem]
  · rw [hop] at hdeliver
    have hmem : .deliver peer event ∈ meshActions := by
      simpa [Op.apply, OpResult.emitted, hmesh] using hdeliver
    obtain ⟨_, _, hadmitted, _⟩ := deliver_mem_encodeActions hencode hmem
    cases hadmitted
  · rw [hop] at hdeliver
    exact absurd hdeliver List.not_mem_nil

end FipsInvWantStream

end NostrPubsub
