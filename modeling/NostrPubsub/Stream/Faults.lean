import NostrPubsub.Stream.Records

/-!
# What makes a record fail

A record fails in three ways, each a condition on the record and on the stream before it: it is bad
(`isBad`: undecodable, with an event that does not verify, or rejected by the mesh), the event policy
fails on it (`policyFails`), or a message with which the mesh answers it does not fit into a record
(`answerFits`). It is handled otherwise (`isOk_receiveRecord`). In the third way the mesh has already
booked what the record brought.
-/

namespace NostrPubsub

variable {nostr : NostrCrate} {σ : Type} {config : StreamConfig nostr σ}

/-- The bounds that the checks of `new` leave to the record layer. -/
theorem StreamConfig.limits (config : StreamConfig nostr σ) :
    config.options.maxRecordBytes ≤ u32Max ∧ 0 < config.options.maxRecordBytes ∧
      0 < config.options.maxRecordsPerReceive := by
  have hvalid := config.valid
  unfold FipsInvWantStreamOptions.validate at hvalid
  split_ifs at hvalid with hzero hprotocol hprefix hpeers hrecords hoverflow
  exact ⟨by omega, by omega, by omega⟩

/-! ## Answers that fit -/

/-- The envelope of a message is no longer than a record may be. -/
def StreamConfig.fits (config : StreamConfig nostr σ) (message : InvWantWireMessage) : Bool :=
  match config.serde.toVec
      { protocol := config.codec.protocol, version := config.codec.version, message } with
  | .ok payload => decide (payload.length ≤ config.options.maxRecordBytes)
  | .error _ => false

/-- What the mesh asks for can be handed on. -/
def StreamConfig.actionFits (config : StreamConfig nostr σ) : InvWantAction → Bool
  | .send _ message => config.fits message
  | .deliver _ _ => true

/-- Every message of an answer fits into a record. -/
def StreamConfig.answerFits (config : StreamConfig nostr σ) (actions : List InvWantAction) : Bool :=
  actions.all config.actionFits

/-- A message that fits is encoded, and one that does not is refused. -/
theorem isOk_encodeAction_send (config : StreamConfig nostr σ)
    (admitted : Option (VerifiedEvent nostr × ℤ)) (peerId : String) (message : InvWantWireMessage) :
    (FipsInvWantStream.encodeAction config admitted (.send peerId message)).isOk =
      config.fits message := by
  obtain ⟨hlimit, hpositive, -⟩ := config.limits
  have hwire : config.codec.maxWireBytes = config.options.maxRecordBytes := max_eq_left hpositive
  rw [FipsInvWantStream.encodeAction, StreamConfig.fits, InvWantCodec.encode]
  cases config.serde.toVec
    { protocol := config.codec.protocol, version := config.codec.version, message } with
  | error error => rfl
  | ok payload =>
    -- The codec and the record layer have the same limit, so what one takes the other takes.
    by_cases hlength : payload.length ≤ config.options.maxRecordBytes
    · have hcheck : config.codec.checkWireLen payload.length = .ok () := by
        rw [InvWantCodec.checkWireLen, hwire, if_neg hlength.not_gt]
      have hrecord : encodeRecord payload config.options.maxRecordBytes =
          .ok (LengthPrefix.frame lengthPrefixBytes payload) := by
        rw [encodeRecord, if_neg hlength.not_gt, if_neg (hlength.trans hlimit).not_gt]
      simp only [hcheck, bind, Except.bind, hrecord, decide_eq_true hlength]
      rfl
    · have hcheck : ∃ error, config.codec.checkWireLen payload.length = .error error := by
        rw [InvWantCodec.checkWireLen, hwire, if_pos (not_le.mp hlength)]
        exact ⟨_, rfl⟩
      obtain ⟨error, herror⟩ := hcheck
      simp only [herror, decide_eq_false hlength]
      rfl

/-- What can be encoded: everything, as long as the messages fit and a delivery has its event. -/
theorem isOk_encodeActions (config : StreamConfig nostr σ)
    (admitted : Option (VerifiedEvent nostr × ℤ)) (actions : List InvWantAction)
    (h : admitted = none → ∀ peer event, .deliver peer event ∉ actions) :
    (FipsInvWantStream.encodeActions config admitted actions).isOk = config.answerFits actions := by
  induction actions with
  | nil => rfl
  | cons action actions ih =>
    have hrest := ih fun hnone peer event hmem => h hnone peer event (List.mem_cons_of_mem _ hmem)
    have hfirst : (FipsInvWantStream.encodeAction config admitted action).isOk =
        config.actionFits action := by
      cases action with
      | send peerId message => exact isOk_encodeAction_send config admitted peerId message
      | deliver peer event =>
        cases admitted with
        | none => exact absurd List.mem_cons_self (h rfl peer event)
        | some found => rfl
    rw [StreamConfig.answerFits] at hrest ⊢
    -- The first action that cannot be encoded ends the encoding.
    rw [List.all_cons, ← hfirst, ← hrest, FipsInvWantStream.encodeActions, List.mapM_cons,
      ← FipsInvWantStream.encodeActions]
    cases FipsInvWantStream.encodeAction config admitted action with
    | error error => rfl
    | ok first =>
      cases FipsInvWantStream.encodeActions config admitted actions with
      | error error => rfl
      | ok rest => rfl

/-! ## Bad records -/

/-- What is rejected: a record that is no message or whose event does not verify, and a message that
the mesh refuses. -/
def Handled.isRejected (order : RouteOrder) (m : InvWantMesh) : Handled nostr → Bool
  | .undecodable _ => true
  | .unverified _ _ _ => true
  | .inventory sourcePeer eventId eventKind payloadBytes hopLimit peers nowMs =>
    !(m.receive (InvWantMesh.prune order) nostr sourcePeer
      (.inventory eventId eventKind payloadBytes hopLimit) peers nowMs).1.isOk
  | .want sourcePeer eventId peers nowMs =>
    !(m.receive (InvWantMesh.prune order) nostr sourcePeer (.want eventId) peers nowMs).1.isOk
  | .admitted sourcePeer eventId verified peers nowMs =>
    !(m.receiveVerifiedFrame (InvWantMesh.prune order) nostr sourcePeer eventId verified peers
      nowMs).1.isOk
  | _ => false

/-- The messages with which the mesh answers. -/
def Handled.answer (order : RouteOrder) (m : InvWantMesh) (handled : Handled nostr) :
    List InvWantAction :=
  (handled.op.apply (InvWantMesh.prune order) m).1.emitted

theorem emitted_of_not_isOk {result : Except PubsubError (List InvWantAction)}
    (h : (!result.isOk) = true) : (OpResult.returned result).emitted = [] := by
  cases result with
  | error error => rfl
  | ok actions => cases h

/-- What is rejected is not answered. -/
theorem Handled.answer_of_isRejected {order : RouteOrder} {m : InvWantMesh} {handled : Handled nostr}
    (h : handled.isRejected order m = true) : handled.answer order m = [] := by
  cases handled with
  | undecodable sourcePeer => rfl
  | unverified sourcePeer eventId event => rfl
  | inventory sourcePeer eventId eventKind payloadBytes hopLimit peers nowMs =>
    exact emitted_of_not_isOk h
  | want sourcePeer eventId peers nowMs => exact emitted_of_not_isOk h
  | admitted sourcePeer eventId verified peers nowMs => exact emitted_of_not_isOk h
  | refused sourcePeer eventId verified => cases h
  | published verified peers nowMs => cases h
  | replayed peerId nowMs => cases h
  | seeded verified nowMs => cases h
  | maintained nowMs => cases h

namespace FipsInvWantStream

variable {order : RouteOrder} {sourcePeer : String} {peers : List MeshPeer} {nowMs : ℕ}

/-- A bad record: undecodable, with an event that does not verify, or rejected by the mesh. -/
def isBad (order : RouteOrder) (sourcePeer : String) (peers : List MeshPeer) (nowMs : ℕ)
    (record : List UInt8) (s : FipsInvWantStream config) : Bool :=
  (handledRecord sourcePeer peers nowMs record s).isRejected order s.mesh

/-- The record is the frame of a verified event, and the event policy fails on it. -/
def policyFails (sourcePeer : String) (record : List UInt8) (s : FipsInvWantStream config) : Bool :=
  match config.codec.decode config.serde record with
  | .ok (.frame _ event) =>
    match VerifiedEvent.tryFrom nostr event with
    | .ok verified => !(s.checkEvent verified (.ofFipsEndpoint sourcePeer)).1.isOk
    | .error _ => false
  | _ => false

theorem handledRecord_withInputs (record : List UInt8) (s : FipsInvWantStream config)
    (inputs : Table (RecordDecoder config.options.maxRecordBytes)) :
    handledRecord sourcePeer peers nowMs record (s.withInputs inputs) =
      handledRecord sourcePeer peers nowMs record s := by
  have hcheck : ∀ verified source,
      ((s.withInputs inputs).checkEvent verified source).1 = (s.checkEvent verified source).1 := by
    intro verified source
    unfold checkEvent
    cases config.eventPolicy <;> rfl
  unfold handledRecord handledMessage
  simp only [hcheck]

/-- The input buffers play no part in what a record is. -/
theorem isBad_withInputs (record : List UInt8) (s : FipsInvWantStream config)
    (inputs : Table (RecordDecoder config.options.maxRecordBytes)) :
    isBad order sourcePeer peers nowMs record (s.withInputs inputs) =
      isBad order sourcePeer peers nowMs record s := by
  rw [isBad, isBad, handledRecord_withInputs]
  rfl

/-- Every message with which the mesh answers the record fits into a record. -/
def answerFits (order : RouteOrder) (sourcePeer : String) (peers : List MeshPeer) (nowMs : ℕ)
    (record : List UInt8) (s : FipsInvWantStream config) : Bool :=
  config.answerFits ((handledRecord sourcePeer peers nowMs record s).answer order s.mesh)

/-- Nothing makes the record fail. -/
def isHandled (order : RouteOrder) (sourcePeer : String) (peers : List MeshPeer) (nowMs : ℕ)
    (record : List UInt8) (s : FipsInvWantStream config) : Bool :=
  !isBad order sourcePeer peers nowMs record s && !policyFails sourcePeer record s &&
    answerFits order sourcePeer peers nowMs record s

theorem isOk_encodeResult {admitted : Option (VerifiedEvent nostr × ℤ)}
    {result : Except PubsubError (List InvWantAction)}
    (h : admitted = none → ∀ peer event,
      .deliver peer event ∉ (OpResult.returned result).emitted) :
    (encodeResult config admitted result).isOk =
      (result.isOk && config.answerFits (OpResult.returned result).emitted) := by
  cases result with
  | error error => rfl
  | ok actions =>
    rw [encodeResult]
    exact (isOk_encodeActions config admitted actions h).trans (Bool.true_and _).symm

theorem emitted_recordRejection (result : Except PubsubError (List InvWantAction) × InvWantMesh) :
    (OpResult.returned (InvWantMesh.recordRejection sourcePeer result).1).emitted =
      (OpResult.returned result.1).emitted := by
  obtain ⟨error | actions, m⟩ := result <;> rfl

/-- The mesh delivers nothing for an inventory. -/
theorem inventory_delivers_nothing (m : InvWantMesh) {eventId : String}
    {eventKind payloadBytes hopLimit : ℕ} (peer : String) (event : Event) :
    .deliver peer event ∉ (OpResult.returned (m.receive (InvWantMesh.prune order) nostr sourcePeer
      (.inventory eventId eventKind payloadBytes hopLimit) peers nowMs).1).emitted := by
  intro hmem
  rw [InvWantMesh.receive, emitted_recordRejection] at hmem
  cases InvWantMesh.receiveInventory_emitted hmem

/-- The mesh delivers nothing for a want. -/
theorem want_delivers_nothing (m : InvWantMesh) {eventId : String} (peer : String) (event : Event) :
    .deliver peer event ∉ (OpResult.returned (m.receive (InvWantMesh.prune order) nostr sourcePeer
      (.want eventId) peers nowMs).1).emitted := by
  intro hmem
  rw [InvWantMesh.receive, emitted_recordRejection, InvWantMesh.dispatch,
    InvWantMesh.receiveWant] at hmem
  -- Every branch answers with nothing or with one message.
  dsimp only at hmem
  split at hmem
  · cases hmem
  split at hmem
  · cases List.mem_singleton.mp hmem
  split at hmem
  · cases hmem
  split at hmem
  · cases hmem
  split at hmem
  · cases hmem
  · cases List.mem_singleton.mp hmem

/-- A record is handled if and only if it is not bad, the policy does not fail on it, and what the mesh
answers fits. -/
theorem isOk_receiveRecord (record : List UInt8) (s : FipsInvWantStream config) :
    (s.receiveRecord order sourcePeer peers nowMs record).1.isOk =
      isHandled order sourcePeer peers nowMs record s := by
  unfold receiveRecord isHandled isBad policyFails answerFits handledRecord
  cases config.codec.decode config.serde record with
  | error error => rfl
  | ok message =>
    cases message with
    | inventory eventId eventKind payloadBytes hopLimit =>
      simp only [receiveMessage, handledMessage, Handled.isRejected, Bool.not_not, Bool.not_false,
        Bool.and_true]
      exact isOk_encodeResult fun _ => inventory_delivers_nothing s.mesh
    | want eventId =>
      simp only [receiveMessage, handledMessage, Handled.isRejected, Bool.not_not, Bool.not_false,
        Bool.and_true]
      exact isOk_encodeResult fun _ => want_delivers_nothing s.mesh
    | frame eventId event =>
      simp only [receiveMessage, handledMessage]
      cases VerifiedEvent.tryFrom nostr event with
      | error error => rfl
      | ok verified =>
        simp only
        obtain ⟨policies, hpolicies⟩ := s.checkEvent_snd verified (.ofFipsEndpoint sourcePeer)
        rcases hcheck : s.checkEvent verified (.ofFipsEndpoint sourcePeer) with ⟨decision, s'⟩
        rw [hcheck] at hpolicies
        cases hpolicies
        -- The priority that the policy gives the event plays no part in what fits.
        have hadmitted : ∀ priority,
            (encodeResult config (some (verified, priority))
              (s.mesh.receiveVerifiedFrame (InvWantMesh.prune order) nostr sourcePeer eventId verified
                peers nowMs).1).isOk =
              ((s.mesh.receiveVerifiedFrame (InvWantMesh.prune order) nostr sourcePeer eventId
                verified peers nowMs).1.isOk && config.answerFits (OpResult.returned
                  (s.mesh.receiveVerifiedFrame (InvWantMesh.prune order) nostr sourcePeer eventId
                    verified peers nowMs).1).emitted) := fun priority =>
          isOk_encodeResult fun hnone => by cases hnone
        rcases decision with error | (priority | ⟨priority, reason⟩ | reason)
        · -- the policy failed
          simp [handledFrame, Except.isOk, Except.toBool]
        · simp only [handledFrame, Handled.isRejected, Bool.not_not]
          exact (hadmitted priority).trans (congrArg (· && _) (Bool.and_true _).symm)
        · simp only [handledFrame, Handled.isRejected, Bool.not_not]
          exact (hadmitted priority).trans (congrArg (· && _) (Bool.and_true _).symm)
        · rfl

/-! ## Calls -/

/-- Nothing makes one of the records fail, each on the stream that those before it leave. -/
def allHandled (order : RouteOrder) (sourcePeer : String) (peers : List MeshPeer) (nowMs : ℕ) :
    List (List UInt8) → FipsInvWantStream config → Bool
  | [], _ => true
  | record :: records, s =>
    isHandled order sourcePeer peers nowMs record s &&
      allHandled order sourcePeer peers nowMs records
        (s.receiveRecord order sourcePeer peers nowMs record).2

/-- A batch is handled if and only if each of its records is. -/
theorem isOk_receiveRecords (records : List (List UInt8)) (s : FipsInvWantStream config) :
    (receiveRecords order sourcePeer peers nowMs records s).1.isOk =
      allHandled order sourcePeer peers nowMs records s := by
  induction records generalizing s with
  | nil => rfl
  | cons record records ih =>
    have hrest := ih (s.receiveRecord order sourcePeer peers nowMs record).2
    rw [receiveRecords, allHandled, ← isOk_receiveRecord, ← hrest]
    -- A record that fails takes the answers of those before it away, and those after it are not
    -- handled.
    obtain ⟨error | actions, s'⟩ := s.receiveRecord order sourcePeer peers nowMs record
    · rfl
    · simp only
      obtain ⟨error | output, s''⟩ := receiveRecords order sourcePeer peers nowMs records s'
      · rfl
      · rfl

/-- The records that the bytes of a call complete, with what is left of the input, unless they end in a
length that no record may have. -/
def completes (sourcePeer : String) (bytes : List UInt8) (s : FipsInvWantStream config) :
    Except PubsubError (List (List UInt8) × List UInt8) :=
  takeRecords config.options.maxRecordBytes config.options.maxRecordsPerReceive
    ((s.decoder sourcePeer).buffer ++ bytes)

/-- There is room for the input of the peer, its bytes fit into its buffer, and no length among the
records that they complete is too long. -/
def takesInput (sourcePeer : String) (bytes : List UInt8) (s : FipsInvWantStream config) : Bool :=
  decide (sourcePeer ∈ s.inputs ∨ s.inputs.size < config.options.maxInputPeers) &&
    decide (bytes.length ≤ (s.decoder sourcePeer).remainingCapacity) &&
      (s.completes sourcePeer bytes).isOk

/-- The records of a call: those that its bytes complete. -/
theorem decodeRecords_fst {bytes : List UInt8} {s : FipsInvWantStream config} :
    (s.takesInput sourcePeer bytes = true ∧ ∃ records left,
        s.completes sourcePeer bytes = .ok (records, left) ∧
          (s.decodeRecords sourcePeer bytes).1 = .ok records) ∨
      s.takesInput sourcePeer bytes = false ∧ (s.decodeRecords sourcePeer bytes).1.isOk = false := by
  unfold takesInput decodeRecords
  by_cases hroom : sourcePeer ∈ s.inputs ∨ s.inputs.size < config.options.maxInputPeers
  · have hopen : ¬(sourcePeer ∉ s.inputs ∧ config.options.maxInputPeers ≤ s.inputs.size) := by
      rintro ⟨hout, hfull⟩
      exact hroom.elim hout hfull.not_gt
    rw [if_neg hopen, decide_eq_true hroom, Bool.true_and]
    by_cases hfits : bytes.length ≤ (s.decoder sourcePeer).remainingCapacity
    · rw [decide_eq_true hfits, Bool.true_and, completes]
      cases htake : takeRecords config.options.maxRecordBytes config.options.maxRecordsPerReceive
        ((s.decoder sourcePeer).buffer ++ bytes) with
      | error error =>
        rw [RecordDecoder.push_eq_error hfits htake]
        exact .inr ⟨rfl, rfl⟩
      | ok taken =>
        obtain ⟨records, left⟩ := taken
        obtain ⟨hle, hpush⟩ := RecordDecoder.push_eq_ok hfits htake
        rw [hpush]
        exact .inl ⟨rfl, records, left, rfl, rfl⟩
    · rw [decide_eq_false hfits, Bool.false_and]
      -- A buffer never holds more than it may, so bytes beyond its remaining capacity overflow it.
      have hlong : config.options.maxRecordBytes + lengthPrefixBytes <
          ((s.decoder sourcePeer).buffer ++ bytes).length := by
        have hle := (s.decoder sourcePeer).length_le
        rw [RecordDecoder.remainingCapacity] at hfits
        rw [List.length_append]
        omega
      refine .inr ⟨rfl, ?_⟩
      rw [RecordDecoder.push]
      simp only [hlong, dite_true]
      rfl
  · rw [decide_eq_false hroom]
    rw [not_or, not_lt] at hroom
    rw [if_pos hroom]
    exact .inr ⟨rfl, rfl⟩

/-- Nothing makes a `receive_bytes` fail: the peer policy answers, the bytes are taken, and every record
that they complete is handled. What a peer that is not selected sends is ignored. -/
def handlesBytes (order : RouteOrder) (sourcePeer : String) (bytes : List UInt8)
    (connectedPeers : List String) (nowMs : ℕ) (s : FipsInvWantStream config) : Bool :=
  match s.selectPeer sourcePeer with
  | (.error _, _) => false
  | (.ok none, _) => true
  | (.ok (some _), s) =>
    s.takesInput sourcePeer bytes &&
      match (s.decodeRecords sourcePeer bytes).2.selectPeers connectedPeers with
      | (.error _, _) => false
      | (.ok peers, s') =>
        allHandled order sourcePeer peers nowMs
          ((s.completes sourcePeer bytes).toOption.elim [] Prod.fst) s'

/-- A call of `receive_bytes` succeeds if and only if nothing makes it fail. -/
theorem isOk_receiveBytes (bytes : List UInt8) (connectedPeers : List String)
    (s : FipsInvWantStream config) :
    (s.receiveBytes order sourcePeer bytes connectedPeers nowMs).1.isOk =
      s.handlesBytes order sourcePeer bytes connectedPeers nowMs := by
  unfold receiveBytes handlesBytes
  obtain ⟨error | (_ | peer), s⟩ := s.selectPeer sourcePeer
  · rfl
  · rfl
  simp only
  rcases @decodeRecords_fst _ _ _ sourcePeer bytes s with
    ⟨htakes, records, left, hcompletes, hdecode⟩ | ⟨htakes, hdecode⟩
  · rw [htakes, hcompletes, Bool.true_and]
    generalize s.decodeRecords sourcePeer bytes = decoded at hdecode ⊢
    obtain ⟨result, s'⟩ := decoded
    cases hdecode
    simp only
    obtain ⟨error | peers, s'⟩ := s'.selectPeers connectedPeers
    · rfl
    · exact isOk_receiveRecords records s'
  · rw [htakes, Bool.false_and]
    generalize s.decodeRecords sourcePeer bytes = decoded at hdecode ⊢
    obtain ⟨error | records, s'⟩ := decoded
    · rfl
    · cases hdecode

/-- Nothing makes a `peer_connected` fail: the peer policy answers, and the inventories of the cached
events fit. -/
def handlesConnection (order : RouteOrder) (peerId : String) (nowMs : ℕ)
    (s : FipsInvWantStream config) : Bool :=
  match s.selectPeer peerId with
  | (.error _, _) => false
  | (.ok none, _) => true
  | (.ok (some _), s) =>
    config.answerFits (Handled.answer order s.mesh (.replayed peerId nowMs : Handled nostr))

/-- A call of `peer_connected` succeeds if and only if nothing makes it fail. -/
theorem isOk_peerConnected (peerId : String) (s : FipsInvWantStream config) :
    (s.peerConnected order peerId nowMs).1.isOk = s.handlesConnection order peerId nowMs := by
  unfold peerConnected handlesConnection
  obtain ⟨error | (_ | peer), s⟩ := s.selectPeer peerId
  · rfl
  · rfl
  · refine isOk_encodeActions config none _ fun _ source event hmem => ?_
    obtain ⟨eventId, -, hcached⟩ := List.mem_filterMap.mp hmem
    obtain ⟨cached, -, hsend⟩ := Option.map_eq_some_iff.mp hcached
    cases hsend

end FipsInvWantStream

end NostrPubsub
