import NostrPubsub.Stream.Operations

/-!
# The TCP driver

`FipsInvWantTcpDriver` (`nostr-pubsub-fips/src/stream_tcp.rs`): one turn accepts connections,
selects one stream per peer, reads the selected streams into the `FipsInvWantStream`, queues
its answers and writes the queues out.

The TCP adapter (`fips-tcp`) is a parameter, `TcpEndpoint`, with what the driver relies on as
its fields. A turn works on a `Turn`: the driver, the report that the source passes along as
`&mut`, and a trace. The trace is not in the source. It records, with the state before it,
every call that the turn makes of the stream and of the queues, so that a statement can speak
about the calls of a turn.
-/

namespace NostrPubsub

/-! ## The adapter -/

/-- `fips_tcp::State`, as far as the driver looks at it. -/
inductive TcpState where
  | synSent
  | synReceived
  | established
  | closeWait
  | other
  deriving DecidableEq, Repr

/-- `ConnectionId`. -/
abbrev ConnectionId := ℕ

/-- What one receive of the adapter reports. -/
structure TcpReceiveReport where
  datagrams : ℕ
  rejected : ℕ

/-- `FipsTcpEndpoint`: `τ` is its state, peers are named by their npub. -/
structure TcpEndpoint (τ : Type) where
  accept : τ → Option ConnectionId × τ
  peer : τ → ConnectionId → Option String
  state : τ → ConnectionId → Option TcpState
  isReadClosed : τ → ConnectionId → Bool
  read : τ → ConnectionId → ℕ → ℕ → Except String (List UInt8) × τ
  write : τ → ConnectionId → List UInt8 → ℕ → Except String ℕ × τ
  abort : τ → ConnectionId → Except String Unit × τ
  close : τ → ConnectionId → ℕ → Except String Unit × τ
  poll : τ → ℕ → Except String Unit × τ
  /-- `receive_report_filtered`, with the state that its filter keeps. -/
  receiveReportFiltered : τ → ℕ → {S : Type} → (S → String → Bool × S) → S →
    (Except String TcpReceiveReport × τ) × S
  /-- The connections that wait to be accepted. -/
  backlog : τ → ℕ
  accept_lt : ∀ t id t', accept t = (some id, t') → backlog t' < backlog t
  abort_le : ∀ t id, backlog (abort t id).2 ≤ backlog t
  read_le : ∀ t id readMax nowMs bytes t',
    read t id readMax nowMs = (.ok bytes, t') → bytes.length ≤ readMax
  write_le : ∀ t id chunk nowMs accepted t',
    write t id chunk nowMs = (.ok accepted, t') → accepted ≤ chunk.length

/-! ## Data -/

/-- `FipsInvWantTcpDriverOptions`, as far as a turn uses them. -/
structure FipsInvWantTcpDriverOptions where
  maxPeers : ℕ := 64
  maxQueuedRecordsPerPeer : ℕ := 2048
  maxQueuedBytesPerPeer : ℕ := 16 * 1024 * 1024
  maxIoBytesPerDrive : ℕ := 512 * 1024
  deriving DecidableEq

/-- `STREAM_IO_CHUNK_BYTES`. -/
def streamIoChunkBytes : ℕ := 16 * 1024

/-- `MAX_READY_INPUT_TURNS`. -/
def maxReadyInputTurns : ℕ := 16

/-- `Direction`. -/
inductive Direction where
  | inbound
  | outbound
  deriving DecidableEq, Repr

/-- `TrackedConnection`. -/
structure TrackedConnection where
  peer : String
  direction : Direction
  deriving DecidableEq

/-- `QueuedRecord`. -/
structure QueuedRecord where
  bytes : List UInt8
  offset : ℕ
  deriving DecidableEq

/-- `PeerQueue`. -/
structure PeerQueue where
  records : List QueuedRecord := []
  bytes : ℕ := 0
  deriving DecidableEq

/-- `FipsInvWantTcpDriveReport`. -/
structure FipsInvWantTcpDriveReport (nostr : NostrCrate) where
  fipsDatagrams : ℕ := 0
  rejectedTcpSegments : ℕ := 0
  streamBytesRead : ℕ := 0
  streamBytesWritten : ℕ := 0
  connectedPeers : ℕ := 0
  deliveries : List (QueryEvent nostr) := []

/-- The parts of a driver that its calls only read. -/
structure DriverConfig (nostr : NostrCrate) (σ τ : Type) where
  stream : StreamConfig nostr σ
  tcp : TcpEndpoint τ
  options : FipsInvWantTcpDriverOptions
  localNpub : String

variable {nostr : NostrCrate} {σ τ : Type}

/-- `FipsInvWantTcpDriver`. -/
structure FipsInvWantTcpDriver (config : DriverConfig nostr σ τ) where
  tcp : τ
  stream : FipsInvWantStream config.stream
  connections : Finmap fun _ : ConnectionId => TrackedConnection
  active : Table ConnectionId
  queues : Table PeerQueue

/-- The entries of a `BTreeMap`, in its order. -/
def Table.entriesAscending {ν : Type} (table : Table ν) : List (String × ν) :=
  ((Finmap.Enumeration.ascending _).visit table).map fun entry => (entry.1, entry.2)

/-- The entries of a `BTreeMap` are those that its lookups find. -/
theorem Table.mem_entriesAscending {ν : Type} {table : Table ν} {entry : String × ν} :
    entry ∈ table.entriesAscending ↔ table.lookup entry.1 = some entry.2 := by
  rw [Table.entriesAscending, List.mem_map]
  constructor
  · rintro ⟨e, he, rfl⟩
    exact (Finmap.Enumeration.ascending _).mem_visit.mp he
  · intro he
    exact ⟨⟨entry.1, entry.2⟩, (Finmap.Enumeration.ascending _).mem_visit.mpr he, rfl⟩

/-! ## Queue admission -/

/-- `additions` of `apply_actions`: records and bytes to queue, by peer. -/
def queueAdditions (actions : List (FipsInvWantStreamAction nostr)) : Table (ℕ × ℕ) :=
  actions.foldl
    (fun additions action =>
      match action with
      | .send peerId record =>
        let (records, bytes) := (additions.lookup peerId).getD (0, 0)
        additions.insert peerId (records + 1, bytes + record.length)
      | .deliver _ => additions)
    ∅

/-- `queue_full`. -/
def queueFull (peer resource : String) : PubsubError :=
  .storage s!"TCP/FIPS pubsub queue {resource} limit reached for {peer}"

/-- The checks of `apply_actions` for one peer. -/
def admitAddition (options : FipsInvWantTcpDriverOptions) (queues : Table PeerQueue)
    (addition : String × ℕ × ℕ) : Except PubsubError Unit :=
  let (peer, records, bytes) := addition
  let existing := (queues.lookup peer).getD {}
  if options.maxQueuedRecordsPerPeer < existing.records.length + records then
    .error (queueFull peer "record count")
  else if options.maxQueuedBytesPerPeer < existing.bytes + bytes then
    .error (queueFull peer "byte count")
  else .ok ()

/-- The checks of `apply_actions`. -/
def admitActions (options : FipsInvWantTcpDriverOptions) (queues : Table PeerQueue)
    (actions : List (FipsInvWantStreamAction nostr)) : Except PubsubError Unit :=
  let additions := queueAdditions actions
  let newPeers := (additions.keys.filter fun peer => peer ∉ queues).card
  if options.maxPeers < queues.size + newPeers then
    .error (.storage "TCP/FIPS pubsub queue peer limit reached")
  else additions.entriesAscending.forM (admitAddition options queues)

/-- The last loop of `apply_actions`: queue the records. -/
def enqueueActions (queues : Table PeerQueue) (actions : List (FipsInvWantStreamAction nostr)) :
    Table PeerQueue :=
  actions.foldl
    (fun queues action =>
      match action with
      | .send peerId record =>
        let queue := (queues.lookup peerId).getD {}
        queues.insert peerId
          { records := queue.records ++ [{ bytes := record, offset := 0 }]
            bytes := queue.bytes + record.length }
      | .deliver _ => queues)
    queues

/-! ## Turns -/

/-- The two passes of a turn over the active peers: `read_active` and `flush_queues`. -/
inductive Pass where
  | read
  | flush
  deriving DecidableEq, Repr

/-- What a pass does at a peer. -/
inductive PassStep where
  /-- The pass reached the peer. -/
  | visited (peer : String)
  /-- The pass would read from the peer, or write to it a record that waits; it turns the peer away
  if it has no bytes left to spend. -/
  | asked (peer : String) (turnedAway : Bool)
  /-- The adapter read or wrote so many bytes. -/
  | moved (peer : String) (bytes : ℕ)
  deriving DecidableEq, Repr

/-- Something a turn did, with the state before it. -/
inductive TurnEvent (config : DriverConfig nostr σ τ) where
  /-- The adapter returned an error. -/
  | tcpFailed
  /-- The peer policy failed while the adapter filtered its input. -/
  | policyFailed
  /-- The peers with a selected stream, after the first selection of the turn. -/
  | selected (peers : List String)
  /-- `peer_connected` of the stream. -/
  | connected (peer : String) (nowMs : ℕ) (s : FipsInvWantStream config.stream)
  /-- A pass did something at a peer. -/
  | pass (pass : Pass) (step : PassStep)
  /-- `receive_bytes` of the stream. -/
  | received (peer : String) (bytes : List UInt8) (connectedPeers : List String) (nowMs : ℕ)
      (s : FipsInvWantStream config.stream)
  /-- `apply_actions`. -/
  | applied (queues : Table PeerQueue) (actions : List (FipsInvWantStreamAction nostr))

/-- A turn under way. -/
structure Turn (config : DriverConfig nostr σ τ) where
  driver : FipsInvWantTcpDriver config
  report : FipsInvWantTcpDriveReport nostr
  trace : List (TurnEvent config)

/-- A part of a turn: it may fail, and leaves its changes when it does. -/
def TurnM (config : DriverConfig nostr σ τ) (α : Type) : Type :=
  Turn config → Except PubsubError α × Turn config

namespace TurnM

variable {config : DriverConfig nostr σ τ} {α β : Type}

/-- `pure` and the `?` of the source. -/
instance : Monad (TurnM config) where
  pure a := fun t => (.ok a, t)
  bind x f := fun t =>
    match x t with
    | (.error error, t) => (.error error, t)
    | (.ok a, t) => f a t

theorem bind_of_ok {x : TurnM config α} {f : α → TurnM config β} {a : α} {t t' : Turn config}
    (h : x t = (.ok a, t')) : (x >>= f) t = f a t' := by
  show (match x t with
    | (.error error, t) => (.error error, t)
    | (.ok a, t) => f a t) = f a t'
  rw [h]

theorem bind_of_error {x : TurnM config α} {f : α → TurnM config β} {error : PubsubError}
    {t t' : Turn config} (h : x t = (.error error, t')) : (x >>= f) t = (.error error, t') := by
  show (match x t with
    | (.error error, t) => (.error error, t)
    | (.ok a, t) => f a t) = (.error error, t')
  rw [h]

/-- Return an error. -/
def fail (error : PubsubError) : TurnM config α := fun t => (.error error, t)

/-- Look at the driver. -/
def getDriver : TurnM config (FipsInvWantTcpDriver config) := fun t => (.ok t.driver, t)

/-- Change the driver. -/
def modifyDriver (change : FipsInvWantTcpDriver config → FipsInvWantTcpDriver config) :
    TurnM config Unit :=
  fun t => (.ok (), { t with driver := change t.driver })

/-- Record an event. -/
def note (event : TurnEvent config) : TurnM config Unit :=
  fun t => (.ok (), { t with trace := t.trace ++ [event] })

/-- Call the adapter, and turn its error into a storage error. -/
def callTcp (context : String) (call : τ → Except String α × τ) : TurnM config α := fun t =>
  match call t.driver.tcp with
  | (.ok a, tcp) => (.ok a, { t with driver := { t.driver with tcp } })
  | (.error error, tcp) =>
    (.error (.storage s!"{context}: {error}"),
      { t with driver := { t.driver with tcp }, trace := t.trace ++ [.tcpFailed] })

/-- Call the stream, and record the call. -/
def callStream (event : FipsInvWantStream config.stream → TurnEvent config)
    (call : FipsInvWantStream config.stream →
      Except PubsubError α × FipsInvWantStream config.stream) : TurnM config α := fun t =>
  let (result, stream) := call t.driver.stream
  (result,
    { t with driver := { t.driver with stream }, trace := t.trace ++ [event t.driver.stream] })

/-- Do something for every element of a list, in order. -/
def forEach {ι : Type} (body : ι → TurnM config Unit) : List ι → TurnM config Unit
  | [] => pure ()
  | first :: rest => do
    body first
    forEach body rest

/-- The same with a budget that every turn of the loop hands on. -/
def forEachWithin {ι : Type} (body : ι → ℕ → TurnM config ℕ) : List ι → ℕ → TurnM config ℕ
  | [], budget => pure budget
  | first :: rest, budget => do
    let budget ← body first budget
    forEachWithin body rest budget

end TurnM

namespace FipsInvWantTcpDriver

open TurnM

variable {config : DriverConfig nostr σ τ}

/-- `FipsInvWantTcpDriver::apply_actions`. -/
def applyActions (actions : List (FipsInvWantStreamAction nostr)) : TurnM config Unit := fun t =>
  let t := { t with trace := t.trace ++ [.applied t.driver.queues actions] }
  match admitActions config.options t.driver.queues actions with
  | .error error => (.error error, t)
  | .ok () =>
    (.ok (),
      { t with
        driver := { t.driver with queues := enqueueActions t.driver.queues actions }
        report := { t.report with deliveries := t.report.deliveries ++ deliveries actions } })

theorem applyActions_trace (actions : List (FipsInvWantStreamAction nostr)) (t : Turn config) :
    (applyActions actions t).2.trace = t.trace ++ [.applied t.driver.queues actions] := by
  unfold applyActions
  rcases h : admitActions config.options t.driver.queues actions with error | _
  · simp only [h]
  · simp only [h]

theorem applyActions_isOk (actions : List (FipsInvWantStreamAction nostr)) (t : Turn config) :
    (applyActions actions t).1.isOk
      = (admitActions config.options t.driver.queues actions).isOk := by
  unfold applyActions
  rcases h : admitActions config.options t.driver.queues actions with error | _
  · simp only [h]
  · simp only [h]

theorem applyActions_deliveries {actions : List (FipsInvWantStreamAction nostr)}
    {t : Turn config} (hok : (applyActions actions t).1.isOk = true) :
    (applyActions actions t).2.report.deliveries
      = t.report.deliveries ++ deliveries actions := by
  rw [applyActions_isOk] at hok
  unfold applyActions
  rcases h : admitActions config.options t.driver.queues actions with error | _
  · rw [h] at hok
    cases hok
  · simp only [h]

/-- Call the stream and apply the actions that it returns. -/
def applyCall (event : FipsInvWantStream config.stream → TurnEvent config)
    (call : FipsInvWantStream config.stream →
      Except PubsubError (List (FipsInvWantStreamAction nostr)) × FipsInvWantStream config.stream) :
    TurnM config Unit := do
  let actions ← callStream event call
  applyActions actions

/-- `FipsInvWantTcpDriver::ensure_peer_capacity`. -/
def hasPeerCapacity (d : FipsInvWantTcpDriver config) (peer : String) : Bool :=
  let peers := (d.connections.keys.image fun id =>
    ((d.connections.lookup id).map TrackedConnection.peer).getD "")
  decide (peer ∈ peers ∨ peers.card < config.options.maxPeers)

/-- `FipsInvWantTcpDriver::accept_connections`, for a backlog of that many connections. -/
def acceptConnections : ℕ → TurnM config Unit
  | 0 => pure ()
  | backlog + 1 => do
    match ← callTcp "accept" fun tcp => let (id, tcp) := config.tcp.accept tcp; (.ok id, tcp) with
    | none => pure ()
    | some id =>
      match config.tcp.peer (← getDriver).tcp id with
      | none =>
        note .tcpFailed
        fail (.storage "accepted TCP/FIPS stream has no authenticated peer")
      | some peer =>
        if (← getDriver).hasPeerCapacity peer then
          modifyDriver fun d =>
            if id ∈ d.connections then d
            else
              { d with connections := d.connections.insert id { peer, direction := .inbound } }
          acceptConnections backlog
        else
          callTcp "reject excess TCP/FIPS peer" fun tcp => config.tcp.abort tcp id
          acceptConnections backlog

/-- The established streams of a peer, the one to keep first: those in the direction that the
two npubs agree on, by id, then the others. -/
def peerStreams (d : FipsInvWantTcpDriver config) (peer : String) : List ConnectionId :=
  let established := d.connections.keys.ascending.filter fun id =>
    (config.tcp.state d.tcp id == some .established || config.tcp.state d.tcp id == some .closeWait)
      && (d.connections.lookup id).any fun connection => connection.peer == peer
  let preferred := fun id => (d.connections.lookup id).any fun connection =>
    (connection.direction == .outbound) == decide (config.localNpub < peer)
  established.filter preferred ++ established.filter fun id => !preferred id

/-- The peers with a tracked connection, in order. -/
def trackedPeers (d : FipsInvWantTcpDriver config) : List String :=
  (d.connections.keys.image fun id =>
    ((d.connections.lookup id).map TrackedConnection.peer).getD "").ascending

/-- `next_active` of `refresh_active`: the first stream of every peer that has one. -/
def nextActive (d : FipsInvWantTcpDriver config) : Table ConnectionId :=
  d.trackedPeers.foldl
    (fun next peer =>
      match d.peerStreams peer with
      | [] => next
      | selected :: _ => next.insert peer selected)
    ∅

/-- The part of `refresh_active` for a peer whose stream changed. -/
def activatePeer (order : RouteOrder) (nowMs : ℕ) (peer : String) : TurnM config Unit := do
  modifyDriver fun d =>
    { d with stream := d.stream.disconnectPeer peer, queues := d.queues.erase peer }
  if peer ∈ (← getDriver).active then
    applyCall (.connected peer nowMs) fun s => s.peerConnected order peer nowMs

/-- `FipsInvWantTcpDriver::refresh_active`. -/
def refreshActive (order : RouteOrder) (nowMs : ℕ) : TurnM config Unit := do
  modifyDriver fun d =>
    { d with
      connections := d.connections.filter fun id _ => (config.tcp.state d.tcp id).isSome }
  let d ← getDriver
  let next := d.nextActive
  forEach
    (fun id => do
      callTcp "deduplicate TCP/FIPS pubsub stream" fun tcp => config.tcp.abort tcp id
      modifyDriver fun d => { d with connections := d.connections.erase id })
    (d.trackedPeers.flatMap fun peer => (d.peerStreams peer).drop 1)
  let changed := (d.active.keys ∪ next.keys).ascending.filter fun peer =>
    decide (d.active.lookup peer ≠ next.lookup peer)
  modifyDriver fun d => { d with active := next }
  forEach (activatePeer order nowMs) changed

/-- Record that a pass with so many bytes left came to a peer that waits for it. -/
def noteAsked (pass : Pass) (peer : String) (budget : ℕ) : TurnM config Unit :=
  note (.pass pass (.asked peer (decide (budget = 0))))

/-- The read loop of `read_active` for one peer, for so many more turns. -/
def readPeer (order : RouteOrder) (connectedPeers : List String) (nowMs : ℕ) (peer : String)
    (id : ConnectionId) : ℕ → ℕ → TurnM config ℕ
  | 0, budget => pure budget
  | turns + 1, budget => do
    let d ← getDriver
    if d.stream.hasReadyInput peer then
      applyCall (.received peer [] connectedPeers nowMs) fun s =>
        s.receiveBytes order peer [] connectedPeers nowMs
      readPeer order connectedPeers nowMs peer id turns budget
    else
      noteAsked .read peer budget
      if budget = 0 then pure budget
      else
        let readMax := min (min (d.stream.remainingInputCapacity peer) streamIoChunkBytes) budget
        if readMax = 0 then pure budget
        else
          let bytes ← callTcp "read TCP/FIPS pubsub stream" fun tcp =>
            config.tcp.read tcp id readMax nowMs
          if bytes.isEmpty then pure budget
          else
            note (.pass .read (.moved peer bytes.length))
            countRead bytes.length
            applyCall (.received peer bytes connectedPeers nowMs) fun s =>
              s.receiveBytes order peer bytes connectedPeers nowMs
            readPeer order connectedPeers nowMs peer id turns (budget - bytes.length)
where
  /-- `report.stream_bytes_read += bytes.len()`. -/
  countRead (bytes : ℕ) : TurnM config Unit := fun t =>
    (.ok (),
      { t with report := { t.report with streamBytesRead := t.report.streamBytesRead + bytes } })

/-- `FipsInvWantTcpDriver::read_active`. -/
def readActive (order : RouteOrder) (nowMs : ℕ) : TurnM config Unit := do
  let d ← getDriver
  let streams := d.active.entriesAscending
  let connectedPeers := streams.map Prod.fst
  let _ ← forEachWithin
    (fun stream budget => do
      note (.pass .read (.visited stream.1))
      readPeer order connectedPeers nowMs stream.1 stream.2 maxReadyInputTurns budget)
    streams config.options.maxIoBytesPerDrive

/-- The front record of a queue after so many of its bytes were written. -/
def PeerQueue.advance (queue : PeerQueue) (accepted : ℕ) : PeerQueue :=
  match queue.records with
  | [] => queue
  | record :: records =>
    let record := { record with offset := record.offset + accepted }
    { records := if record.offset = record.bytes.length then records else record :: records
      bytes := queue.bytes - accepted }

/-- The first record that waits for a peer. -/
def frontRecord (d : FipsInvWantTcpDriver config) (peer : String) : Option QueuedRecord :=
  (d.queues.lookup peer).bind fun queue => queue.records.head?

/-- Record that a pass with so many bytes left came to a peer, if a record waits for it. -/
def noteWaiting (peer : String) (budget : ℕ) : TurnM config Unit := fun t =>
  if (t.driver.frontRecord peer).isSome then noteAsked .flush peer budget t else (.ok (), t)

/-- The write loop of `flush_queues` for one peer. Every turn of it that goes on takes at least
one byte off the budget, so `fuel` may start at the budget. -/
def flushPeer (nowMs : ℕ) (peer : String) (id : ConnectionId) : ℕ → ℕ → TurnM config ℕ
  | 0, budget => do
    noteWaiting peer budget
    pure budget
  | fuel + 1, budget => do
    noteWaiting peer budget
    if budget = 0 then pure budget
    else
      match (← getDriver).frontRecord peer with
      | none => pure budget
      | some record =>
        let chunk := (record.bytes.drop record.offset).take (min streamIoChunkBytes budget)
        let accepted ← callTcp "write TCP/FIPS pubsub stream" fun tcp =>
          config.tcp.write tcp id chunk nowMs
        if accepted = 0 then pure budget
        else
          note (.pass .flush (.moved peer accepted))
          countWritten accepted
          modifyDriver fun d =>
            { d with
              queues := d.queues.insert peer
                (PeerQueue.advance ((d.queues.lookup peer).getD {}) accepted) }
          flushPeer nowMs peer id fuel (budget - accepted)
where
  /-- `report.stream_bytes_written += accepted`. -/
  countWritten (bytes : ℕ) : TurnM config Unit := fun t =>
    (.ok (),
      { t with
        report := { t.report with streamBytesWritten := t.report.streamBytesWritten + bytes } })

/-- `FipsInvWantTcpDriver::flush_queues`. -/
def flushQueues (nowMs : ℕ) : TurnM config Unit := do
  let d ← getDriver
  let _ ← forEachWithin
    (fun stream budget => do
      note (.pass .flush (.visited stream.1))
      let budget ← flushPeer nowMs stream.1 stream.2 budget budget
      modifyDriver fun d =>
        if (d.queues.lookup stream.1).any fun queue => queue.records.isEmpty then
          { d with queues := d.queues.erase stream.1 }
        else d
      pure budget)
    d.active.entriesAscending config.options.maxIoBytesPerDrive

/-- `FipsInvWantTcpDriver::finish_remote_closes`. -/
def finishRemoteCloses (nowMs : ℕ) : TurnM config Unit := do
  let d ← getDriver
  forEach
    (fun id => callTcp "close TCP/FIPS pubsub stream" fun tcp => config.tcp.close tcp id nowMs)
    ((d.active.entriesAscending.filter fun stream =>
      config.tcp.isReadClosed d.tcp stream.2 && decide (stream.1 ∉ d.queues)).map Prod.snd)

/-- Record the selected streams. -/
def noteSelection : TurnM config Unit := fun t =>
  note (.selected (t.driver.active.entriesAscending.map Prod.fst)) t

/-- `FipsInvWantTcpDriver::drive_ready`. -/
def driveReady (order : RouteOrder) (nowMs : ℕ) : TurnM config Unit := do
  modifyDriver fun d => { d with stream := d.stream.maintain order nowMs }
  acceptConnections (config.tcp.backlog (← getDriver).tcp)
  refreshActive order nowMs
  noteSelection
  readActive order nowMs
  flushQueues nowMs
  finishRemoteCloses nowMs
  refreshActive order nowMs
  fun t =>
    (.ok (), { t with report := { t.report with connectedPeers := t.driver.active.size } })

/-- The filter that `receive` hands to the adapter: the stream's peer selection, and the first
error of it. -/
def filterPeer (state : FipsInvWantStream config.stream × Option PubsubError) (peer : String) :
    Bool × FipsInvWantStream config.stream × Option PubsubError :=
  match state.1.selectPeer peer with
  | (.ok selected, s) => (selected.isSome, s, state.2)
  | (.error error, s) => (false, s, some (state.2.getD error))

/-- The part of `receive` before `drive_ready`. -/
def receiveDatagrams (nowMs : ℕ) : TurnM config Unit := fun t =>
  let ((received, tcp), stream, policyError) :=
    config.tcp.receiveReportFiltered t.driver.tcp nowMs filterPeer (t.driver.stream, none)
  let t := { t with driver := { t.driver with tcp, stream } }
  match received with
  | .error error =>
    (.error (.storage s!"receive TCP/FIPS pubsub batch: {error}"),
      { t with trace := t.trace ++ [.tcpFailed] })
  | .ok received =>
    match policyError with
    | some error => (.error error, { t with trace := t.trace ++ [.policyFailed] })
    | none =>
      (.ok (),
        { t with
          report :=
            { t.report with
              fipsDatagrams := received.datagrams, rejectedTcpSegments := received.rejected } })

/-- The two kinds of turn. -/
inductive TurnKind where
  | receive
  | poll
  deriving DecidableEq, Repr

/-- `FipsInvWantTcpDriver::receive` and `FipsInvWantTcpDriver::poll`, without the report they
return. -/
def turn (kind : TurnKind) (order : RouteOrder) (nowMs : ℕ) : TurnM config Unit := do
  match kind with
  | .receive => receiveDatagrams nowMs
  | .poll => callTcp "poll TCP/FIPS pubsub transport" fun tcp => config.tcp.poll tcp nowMs
  driveReady order nowMs

/-- A turn from the driver's state: the report it returns, or its error, and how it ended. -/
def runTurn (kind : TurnKind) (order : RouteOrder) (nowMs : ℕ) (d : FipsInvWantTcpDriver config) :
    Except PubsubError (FipsInvWantTcpDriveReport nostr) × Turn config :=
  let (result, t) := turn kind order nowMs { driver := d, report := {}, trace := [] }
  (result.map fun _ => t.report, t)

end FipsInvWantTcpDriver

end NostrPubsub
