import NostrPubsub.Mesh.Operations
import NostrPubsub.Stream.Codec

/-!
# The stream carrier

`FipsInvWantStream` (`nostr-pubsub-fips/src/stream.rs`): the mesh above one byte stream per
peer. What never changes after construction is the `StreamConfig`: the options, `serde_json`
and the two policies. The state is the mesh, the input decoders and whatever the policies
themselves remember.

A call is a function from the state before it to its result and the state after it. An error
returned half way leaves the changes made before it, as `&mut self` does. `order` is the
order in which the prunes of the call visit the mesh's routes.
-/

namespace NostrPubsub

/-- `FipsInvWantStreamOptions`. -/
structure FipsInvWantStreamOptions where
  mesh : InvWantMeshOptions := {}
  protocol : String := "nostr.pubsub"
  protocolVersion : ℕ := 1
  /-- Maximum encoded envelope, excluding its four-byte prefix. -/
  maxRecordBytes : ℕ := defaultInvWantMaxWireBytes
  maxInputPeers : ℕ := 64
  maxRecordsPerReceive : ℕ := 64
  deriving DecidableEq

/-- `char::is_whitespace`. -/
def isWhitespace (c : Char) : Bool :=
  (0x09 ≤ c.toNat && c.toNat ≤ 0x0d) || (0x2000 ≤ c.toNat && c.toNat ≤ 0x200a)
    || [0x20, 0x85, 0xa0, 0x1680, 0x2028, 0x2029, 0x202f, 0x205f, 0x3000].contains c.toNat

/-- `FipsInvWantStreamOptions::validate`. -/
def FipsInvWantStreamOptions.validate (options : FipsInvWantStreamOptions) :
    Except PubsubError Unit :=
  if options.maxRecordBytes = 0 then
    .error (.validation "max_record_bytes must be greater than zero")
  else if options.protocol.toList.all isWhitespace then
    .error (.validation "protocol must not be empty")
  else if u32Max < options.maxRecordBytes then
    .error (.validation "max_record_bytes exceeds the record prefix")
  else if options.maxInputPeers = 0 then
    .error (.validation "max_input_peers must be greater than zero")
  else if options.maxRecordsPerReceive = 0 then
    .error (.validation "max_records_per_receive must be greater than zero")
  else if u64Max < options.maxRecordBytes + lengthPrefixBytes then
    .error (.validation "record buffer size overflows")
  else .ok ()

/-- The parts of a stream that its calls only read. `σ` is what the policies remember. -/
structure StreamConfig (nostr : NostrCrate) (σ : Type) where
  options : FipsInvWantStreamOptions
  /-- `FipsInvWantStream::new` accepted the options. -/
  valid : options.validate = .ok ()
  serde : SerdeJson
  /-- `PubsubPolicy::check_event`. -/
  eventPolicy :
    Option (σ → VerifiedEvent nostr → EventSource → Except PubsubError PolicyDecision × σ)
  /-- `MeshPeerPolicy::select_mesh_peer`. -/
  peerPolicy : Option (σ → String → Except PubsubError (Option MeshPeer) × σ)

variable {nostr : NostrCrate} {σ : Type}

/-- The codec that `FipsInvWantStream::new` builds. -/
def StreamConfig.codec (config : StreamConfig nostr σ) : InvWantCodec :=
  .new config.options.protocol config.options.protocolVersion config.options.maxRecordBytes

/-- `FipsInvWantStream`. -/
structure FipsInvWantStream (config : StreamConfig nostr σ) where
  mesh : InvWantMesh
  inputs : Table (RecordDecoder config.options.maxRecordBytes)
  policies : σ

/-- `FipsInvWantStreamAction`. -/
inductive FipsInvWantStreamAction (nostr : NostrCrate) where
  | send (peerId : String) (record : List UInt8)
  | deliver (event : QueryEvent nostr)

/-- The deliveries among the actions of a call. -/
def deliveries (actions : List (FipsInvWantStreamAction nostr)) : List (QueryEvent nostr) :=
  actions.filterMap fun
    | .deliver event => some event
    | .send _ _ => none

theorem mem_deliveries {actions : List (FipsInvWantStreamAction nostr)}
    {event : QueryEvent nostr} : event ∈ deliveries actions ↔ .deliver event ∈ actions := by
  constructor
  · intro h
    obtain ⟨action, hmem, haction⟩ := List.mem_filterMap.mp h
    cases action with
    | send peerId record => cases haction
    | deliver found =>
      cases haction
      exact hmem
  · intro h
    exact List.mem_filterMap.mpr ⟨_, h, rfl⟩

namespace FipsInvWantStream

variable {config : StreamConfig nostr σ}

/-- `FipsInvWantStream::new`, and the policies in their first state. -/
def new (config : StreamConfig nostr σ) (policies : σ) : FipsInvWantStream config where
  mesh := .new config.options.mesh
  inputs := ∅
  policies := policies

/-! ## Encoding -/

/-- One round of the loop of `encode_actions`. `admitted` is the event of the frame that the
actions answer, with its priority. -/
def encodeAction (config : StreamConfig nostr σ) (admitted : Option (VerifiedEvent nostr × ℤ)) :
    InvWantAction → Except PubsubError (FipsInvWantStreamAction nostr)
  | .send peerId message => do
    let payload ← config.codec.encode config.serde message
    let record ← encodeRecord payload config.options.maxRecordBytes
    .ok (.send peerId record)
  | .deliver sourcePeer _ =>
    match admitted with
    | none => .error (.storage "mesh delivered an event outside frame admission")
    | some (verified, priority) =>
      .ok (.deliver { event := verified, source := .ofFipsEndpoint sourcePeer, priority })

/-- `FipsInvWantStream::encode_actions`. -/
def encodeActions (config : StreamConfig nostr σ) (admitted : Option (VerifiedEvent nostr × ℤ))
    (actions : List InvWantAction) : Except PubsubError (List (FipsInvWantStreamAction nostr)) :=
  actions.mapM (encodeAction config admitted)

/-- `FipsInvWantStream::ensure_event_record_fits`. -/
def ensureEventRecordFits (config : StreamConfig nostr σ) (verified : VerifiedEvent nostr) :
    Except PubsubError Unit :=
  (config.codec.encode config.serde (.frame verified.event.id.toHex verified.event)).map
    fun _ => ()

/-! ## Policies -/

/-- `FipsInvWantStream::select_peer`. -/
def selectPeer (s : FipsInvWantStream config) (peerId : String) :
    Except PubsubError (Option MeshPeer) × FipsInvWantStream config :=
  match config.peerPolicy with
  | none => (.ok (some (.new peerId)), s)
  | some selectMeshPeer =>
    let (selected, policies) := selectMeshPeer s.policies peerId
    (selected.map fun selected => selected.map fun peer => { peer with id := peerId },
      { s with policies })

/-- The loop of `select_peers`, into the map of the peers selected so far. -/
def selectPeersInto : Table MeshPeer → List String → FipsInvWantStream config →
    Except PubsubError (Table MeshPeer) × FipsInvWantStream config
  | selected, [], s => (.ok selected, s)
  | selected, peerId :: peerIds, s =>
    match s.selectPeer peerId with
    | (.error error, s) => (.error error, s)
    | (.ok none, s) => selectPeersInto selected peerIds s
    | (.ok (some peer), s) => selectPeersInto (selected.insert peerId peer) peerIds s

/-- `FipsInvWantStream::select_peers`. -/
def selectPeers (s : FipsInvWantStream config) (peerIds : List String) :
    Except PubsubError (List MeshPeer) × FipsInvWantStream config :=
  let (selected, s) := selectPeersInto ∅ peerIds s
  (selected.map fun selected =>
    ((Finmap.Enumeration.ascending _).visit selected).map Sigma.snd, s)

/-- The event policy's decision on a verified event; without a policy every event is let
through at its source's priority. -/
def checkEvent (s : FipsInvWantStream config) (verified : VerifiedEvent nostr)
    (source : EventSource) : Except PubsubError PolicyDecision × FipsInvWantStream config :=
  match config.eventPolicy with
  | none => (.ok (.allow source.kind.defaultPriority), s)
  | some checkEvent =>
    let (decision, policies) := checkEvent s.policies verified source
    (decision, { s with policies })

/-! ## Input buffers -/

/-- `FipsInvWantStream::disconnect_peer`. -/
def disconnectPeer (s : FipsInvWantStream config) (peerId : String) : FipsInvWantStream config :=
  { s with inputs := s.inputs.erase peerId }

/-- The decoder of a peer, a new one when it has none. -/
def decoder (s : FipsInvWantStream config) (peerId : String) :
    RecordDecoder config.options.maxRecordBytes :=
  (s.inputs.lookup peerId).getD (.new _)

/-- `FipsInvWantStream::remaining_input_capacity`. -/
def remainingInputCapacity (s : FipsInvWantStream config) (peerId : String) : ℕ :=
  match s.inputs.lookup peerId with
  | none => config.options.maxRecordBytes + lengthPrefixBytes
  | some decoder => decoder.remainingCapacity

/-- `FipsInvWantStream::has_ready_input`. -/
def hasReadyInput (s : FipsInvWantStream config) (peerId : String) : Bool :=
  (s.inputs.lookup peerId).any RecordDecoder.hasCompleteRecord

/-- `FipsInvWantStream::decode_records`. -/
def decodeRecords (s : FipsInvWantStream config) (peerId : String) (bytes : List UInt8) :
    Except PubsubError (List (List UInt8)) × FipsInvWantStream config :=
  if peerId ∉ s.inputs ∧ config.options.maxInputPeers ≤ s.inputs.size then
    (.error (.storage s!"FIPS pubsub input peer limit is {config.options.maxInputPeers}"), s)
  else
    let (records, decoder) := (s.decoder peerId).push bytes config.options.maxRecordsPerReceive
    (records, { s with inputs := s.inputs.insert peerId decoder })

/-! ## Receiving -/

/-- Encode what the mesh returned. -/
def encodeResult (config : StreamConfig nostr σ) (admitted : Option (VerifiedEvent nostr × ℤ))
    (result : Except PubsubError (List InvWantAction)) :
    Except PubsubError (List (FipsInvWantStreamAction nostr)) := do
  encodeActions config admitted (← result)

/-- The part of `receive_message` for a frame that the event policy let through. -/
def receiveAdmittedFrame (order : RouteOrder) (sourcePeer eventId : String)
    (verified : VerifiedEvent nostr) (priority : ℤ) (peers : List MeshPeer) (nowMs : ℕ)
    (s : FipsInvWantStream config) :
    Except PubsubError (List (FipsInvWantStreamAction nostr)) × FipsInvWantStream config :=
  let (result, mesh) :=
    s.mesh.receiveVerifiedFrame (InvWantMesh.prune order) nostr sourcePeer eventId verified peers
      nowMs
  (encodeResult config (some (verified, priority)) result, { s with mesh })

/-- `FipsInvWantStream::receive_message`. -/
def receiveMessage (order : RouteOrder) (sourcePeer : String) (message : InvWantWireMessage)
    (peers : List MeshPeer) (nowMs : ℕ) (s : FipsInvWantStream config) :
    Except PubsubError (List (FipsInvWantStreamAction nostr)) × FipsInvWantStream config :=
  match message with
  | .frame eventId event =>
    match VerifiedEvent.tryFrom nostr event with
    | .error error => (.error error, { s with mesh := s.mesh.recordInvalidMessage sourcePeer })
    | .ok verified =>
      match s.checkEvent verified (.ofFipsEndpoint sourcePeer) with
      | (.ok (.allow priority), s) =>
        s.receiveAdmittedFrame order sourcePeer eventId verified priority peers nowMs
      | (.ok (.throttle priority _), s) =>
        s.receiveAdmittedFrame order sourcePeer eventId verified priority peers nowMs
      | (.ok (.drop _), s) => (.ok [], { s with mesh := s.mesh.dismissFrame sourcePeer eventId })
      | (.error error, s) =>
        (.error error, { s with mesh := s.mesh.dismissFrame sourcePeer eventId })
  | message =>
    let (result, mesh) :=
      s.mesh.receive (InvWantMesh.prune order) nostr sourcePeer message peers nowMs
    (encodeResult config none result, { s with mesh })

/-- The body of the loop of `receive_bytes`. -/
def receiveRecord (order : RouteOrder) (sourcePeer : String) (peers : List MeshPeer) (nowMs : ℕ)
    (record : List UInt8) (s : FipsInvWantStream config) :
    Except PubsubError (List (FipsInvWantStreamAction nostr)) × FipsInvWantStream config :=
  match config.codec.decode config.serde record with
  | .error error => (.error error, { s with mesh := s.mesh.recordInvalidMessage sourcePeer })
  | .ok message => s.receiveMessage order sourcePeer message peers nowMs

/-- The loop of `receive_bytes`: the first error returns at once, without the actions of the
records before it. -/
def receiveRecords (order : RouteOrder) (sourcePeer : String) (peers : List MeshPeer)
    (nowMs : ℕ) : List (List UInt8) → FipsInvWantStream config →
    Except PubsubError (List (FipsInvWantStreamAction nostr)) × FipsInvWantStream config
  | [], s => (.ok [], s)
  | record :: records, s =>
    match s.receiveRecord order sourcePeer peers nowMs record with
    | (.error error, s) => (.error error, s)
    | (.ok actions, s) =>
      match receiveRecords order sourcePeer peers nowMs records s with
      | (.error error, s) => (.error error, s)
      | (.ok output, s) => (.ok (actions ++ output), s)

/-- `FipsInvWantStream::receive_bytes`. -/
def receiveBytes (order : RouteOrder) (sourcePeer : String) (bytes : List UInt8)
    (connectedPeers : List String) (nowMs : ℕ) (s : FipsInvWantStream config) :
    Except PubsubError (List (FipsInvWantStreamAction nostr)) × FipsInvWantStream config :=
  match s.selectPeer sourcePeer with
  | (.error error, s) => (.error error, s)
  | (.ok none, s) => (.ok [], s.disconnectPeer sourcePeer)
  | (.ok (some _), s) =>
    match s.decodeRecords sourcePeer bytes with
    | (.error error, s) => (.error error, s)
    | (.ok records, s) =>
      match s.selectPeers connectedPeers with
      | (.error error, s) => (.error error, s)
      | (.ok peers, s) => s.receiveRecords order sourcePeer peers nowMs records

/-! ## The other calls -/

/-- `FipsInvWantStream::seed`. -/
def seed (order : RouteOrder) (verified : VerifiedEvent nostr) (nowMs : ℕ)
    (s : FipsInvWantStream config) : Except PubsubError Unit × FipsInvWantStream config :=
  match ensureEventRecordFits config verified with
  | .error error => (.error error, s)
  | .ok () =>
    let (result, mesh) := s.mesh.seedVerified (InvWantMesh.prune order) nostr verified nowMs
    (result, { s with mesh })

/-- `FipsInvWantStream::publish`. -/
def publish (order : RouteOrder) (verified : VerifiedEvent nostr) (connectedPeers : List String)
    (nowMs : ℕ) (s : FipsInvWantStream config) :
    Except PubsubError (List (FipsInvWantStreamAction nostr)) × FipsInvWantStream config :=
  match ensureEventRecordFits config verified with
  | .error error => (.error error, s)
  | .ok () =>
    match s.selectPeers connectedPeers with
    | (.error error, s) => (.error error, s)
    | (.ok peers, s) =>
      let (result, mesh) :=
        s.mesh.publishVerified (InvWantMesh.prune order) nostr verified peers nowMs
      (encodeResult config none result, { s with mesh })

/-- `FipsInvWantStream::peer_connected`. -/
def peerConnected (order : RouteOrder) (peerId : String) (nowMs : ℕ)
    (s : FipsInvWantStream config) :
    Except PubsubError (List (FipsInvWantStreamAction nostr)) × FipsInvWantStream config :=
  match s.selectPeer peerId with
  | (.error error, s) => (.error error, s)
  | (.ok none, s) => (.ok [], s)
  | (.ok (some _), s) =>
    let (actions, mesh) := s.mesh.replayCachedToPeer (InvWantMesh.prune order) peerId nowMs
    (encodeActions config none actions, { s with mesh })

/-- `FipsInvWantStream::maintain`. -/
def maintain (order : RouteOrder) (nowMs : ℕ) (s : FipsInvWantStream config) :
    FipsInvWantStream config :=
  { s with mesh := s.mesh.maintain (InvWantMesh.prune order) nowMs }

end FipsInvWantStream

/-- A stream with default options and no policies. -/
def noteConfig : StreamConfig noteCrate Unit where
  options := {}
  valid := by decide +kernel
  serde := noteSerde
  eventPolicy := none
  peerPolicy := none

/-- That stream before its first call. -/
def noteStream : FipsInvWantStream noteConfig := .new noteConfig ()

end NostrPubsub
