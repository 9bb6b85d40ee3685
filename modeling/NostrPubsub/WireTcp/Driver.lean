import NostrPubsub.WireTcp.Records
import NostrPubsub.WireTcp.Selection

/-!
# The wire driver

`WireTcpDriver` (`nostr-pubsub-fips/src/wire_tcp.rs`): frames are queued for peers and written to the
selected stream of each, and the input of the selected streams is cut into frames.

The TCP adapter is a parameter, `WireTcpEndpoint`. The driver keeps times to retry a service and to
retire an inbound client: of these there are only the sets of peers, and what the clock says is an
argument where it matters. Peers are named by their npub, so that `PeerIdentity::from_npub` is the
identity.

A call works on a `WireTurn`: the driver and a trace, which is not in the source. It records what
statements about a run of calls speak of.
-/

namespace NostrPubsub.WireTcp

/-- The part of `FipsTcpEndpoint` that this driver uses and `FipsInvWantTcpDriver` does not. -/
structure WireTcpEndpoint (τ : Type) extends TcpEndpoint τ where
  connect : τ → String → ℕ → Except String ConnectionId × τ
  abortPeer : τ → String → Except String Unit × τ

/-- `WireTcpOptions`. -/
structure WireTcpOptions where
  frameCapacity : ℕ
  peerCapacity : ℕ
  inboundPeerCapacity : ℕ
  queueRecordsPerPeer : ℕ
  queueBytesPerPeer : ℕ
  driveIoBytes : ℕ
  driveFrames : ℕ

/-- The parts of a driver that its calls only read. The limit on the turns of a read loop is a constant
of the source. -/
structure WireConfig (τ : Type) where
  endpoint : WireTcpEndpoint τ
  options : WireTcpOptions
  localNpub : String
  maxReadyInputTurns : ℕ := NostrPubsub.maxReadyInputTurns

/-- `WireTcpDriver`. -/
structure WireTcpDriver (τ : Type) where
  selectedPeers : Finset String
  inbound : Finset String
  tcp : τ
  connections : Connections
  active : Table ConnectionId
  queues : Table PeerQueue
  inputs : Table RecordDecoder
  continueReady : Bool

/-- Something a call did. -/
inductive WireEvent where
  /-- `queue_frame` took a frame. -/
  | queued (peer : String) (frame : List UInt8)
  /-- The adapter accepted bytes of a peer's queue. -/
  | wrote (peer : String) (id : ConnectionId) (bytes : List UInt8)
  /-- The stream of a peer changed, and its queue was restarted. -/
  | changed (peer : String) (next : Option ConnectionId)
  /-- The queue of a peer was dropped. -/
  | forgotten (peer : String)
  /-- `read_active` begins with these streams. -/
  | reading (streams : List (String × ConnectionId))
  /-- A read of a stream returned these bytes. -/
  | read (id : ConnectionId) (bytes : List UInt8)
  /-- `read_active` aborted the peer of a stream. -/
  | rejected (id : ConnectionId)
  deriving DecidableEq

/-- A call under way. -/
structure WireTurn (τ : Type) where
  driver : WireTcpDriver τ
  trace : List WireEvent

variable {τ : Type}

/-- A part of a call: it may fail, and leaves its changes when it does. -/
def WireM (τ α : Type) : Type := WireTurn τ → Except PubsubError α × WireTurn τ

namespace WireM

variable {α β : Type}

/-- `pure` and the `?` of the source. -/
instance : Monad (WireM τ) where
  pure a := fun t => (.ok a, t)
  bind x f := fun t =>
    match x t with
    | (.error error, t) => (.error error, t)
    | (.ok a, t) => f a t

/-- Return an error. -/
def fail (error : PubsubError) : WireM τ α := fun t => (.error error, t)

/-- Look at the driver. -/
def getDriver : WireM τ (WireTcpDriver τ) := fun t => (.ok t.driver, t)

/-- Change the driver. -/
def modifyDriver (change : WireTcpDriver τ → WireTcpDriver τ) : WireM τ Unit :=
  fun t => (.ok (), { t with driver := change t.driver })

/-- Record an event. -/
def note (event : WireEvent) : WireM τ Unit :=
  fun t => (.ok (), { t with trace := t.trace ++ [event] })

/-- Call the adapter, and turn its error into a storage error. -/
def callTcp (context : String) (call : τ → Except String α × τ) : WireM τ α := fun t =>
  let (result, tcp) := call t.driver.tcp
  (result.mapError (storageContext context), { t with driver := { t.driver with tcp } })

/-- Do something for every element of a list, in order. -/
def forEach {ι : Type} (body : ι → WireM τ Unit) : List ι → WireM τ Unit
  | [] => pure ()
  | first :: rest => do
    body first
    forEach body rest

/-- Go on when something failed. -/
def ignoreError (x : WireM τ Unit) : WireM τ Unit := fun t => (.ok (), (x t).2)

theorem bind_apply (x : WireM τ α) (f : α → WireM τ β) (t : WireTurn τ) :
    (x >>= f) t = match x t with
      | (.error error, t) => (.error error, t)
      | (.ok a, t) => f a t := rfl

theorem bind_pure_state (x : WireM τ α) (f : α → β) (t : WireTurn τ) :
    ((x >>= fun a => pure (f a)) t).2 = (x t).2 := by
  rw [bind_apply]
  split
  · rename_i heq
    rw [heq]
  · rename_i heq
    rw [heq]
    rfl

@[simp]
theorem getDriver_bind (f : WireTcpDriver τ → WireM τ β) (t : WireTurn τ) :
    (getDriver >>= f) t = f t.driver t := rfl

@[simp]
theorem modifyDriver_bind (change : WireTcpDriver τ → WireTcpDriver τ) (f : Unit → WireM τ β)
    (t : WireTurn τ) :
    (modifyDriver change >>= f) t = f () { t with driver := change t.driver } := rfl

@[simp]
theorem note_bind (event : WireEvent) (f : Unit → WireM τ β) (t : WireTurn τ) :
    (note event >>= f) t = f () { t with trace := t.trace ++ [event] } := rfl

/-! ### What a call preserves -/

/-- A call keeps a property, also when it fails. -/
def Preserves (I : WireTurn τ → Prop) (x : WireM τ α) : Prop := ∀ t, I t → I (x t).2

variable {I : WireTurn τ → Prop}

theorem Preserves.apply {x : WireM τ α} (h : Preserves I x) {t t' : WireTurn τ}
    {result : Except PubsubError α} (ht : I t) (hx : x t = (result, t')) : I t' := by
  have hI := h t ht
  rwa [hx] at hI

theorem preserves_pure (a : α) : Preserves I (pure a : WireM τ α) := fun _ h => h

theorem preserves_fail (error : PubsubError) : Preserves I (fail error : WireM τ α) := fun _ h => h

theorem preserves_getDriver : Preserves I (getDriver : WireM τ (WireTcpDriver τ)) := fun _ h => h

/-- A call, and what follows it: a property that the call keeps may be needed to show another in the
end. -/
theorem Preserves.bind_to {J : WireTurn τ → Prop} {x : WireM τ α} {f : α → WireM τ β}
    (hx : Preserves J x) (hJI : ∀ t, J t → I t) (hf : ∀ a t, J t → I (f a t).2) {t : WireTurn τ}
    (ht : J t) : I ((x >>= f) t).2 := by
  have hx' := hx t ht
  rw [bind_apply]
  split
  · rename_i heq
    rw [heq] at hx'
    exact hJI _ hx'
  · rename_i heq
    rw [heq] at hx'
    exact hf _ _ hx'

theorem Preserves.bind {x : WireM τ α} {f : α → WireM τ β} (hx : Preserves I x)
    (hf : ∀ a, Preserves I (f a)) : Preserves I (x >>= f) :=
  fun _ ht => hx.bind_to (fun _ h => h) (fun a => hf a) ht

theorem Preserves.and {J : WireTurn τ → Prop} {x : WireM τ α} (hI : Preserves I x)
    (hJ : Preserves J x) : Preserves (fun t => I t ∧ J t) x := fun t h => ⟨hI t h.1, hJ t h.2⟩

theorem preserves_forEach_of_mem {ι : Type} {body : ι → WireM τ Unit} {list : List ι}
    (h : ∀ i ∈ list, Preserves I (body i)) : Preserves I (forEach body list) := by
  induction list with
  | nil => exact preserves_pure ()
  | cons first rest ih =>
    exact (h first List.mem_cons_self).bind fun _ => ih fun i hi => h i (List.mem_cons_of_mem _ hi)

theorem preserves_forEach {ι : Type} {body : ι → WireM τ Unit} (h : ∀ i, Preserves I (body i))
    (list : List ι) : Preserves I (forEach body list) :=
  preserves_forEach_of_mem fun i _ => h i

theorem Preserves.ignoreError {x : WireM τ Unit} (h : Preserves I x) : Preserves I (ignoreError x) := h

theorem preserves_ite {p : Prop} [Decidable p] {x y : WireM τ α} (hx : Preserves I x)
    (hy : Preserves I y) : Preserves I (if p then x else y) := by
  split
  · exact hx
  · exact hy

theorem state_ite {p : Prop} [Decidable p] {x y : WireM τ α} {t : WireTurn τ} (hx : p → I (x t).2)
    (hy : ¬ p → I (y t).2) : I ((if p then x else y) t).2 := by
  split
  · exact hx ‹p›
  · exact hy ‹¬ p›

/-- A call that went through did so in its parts. -/
theorem bind_eq_ok {x : WireM τ α} {f : α → WireM τ β} {b : β} {t t'' : WireTurn τ}
    (h : (x >>= f) t = (.ok b, t'')) : ∃ a t', x t = (.ok a, t') ∧ f a t' = (.ok b, t'') := by
  rw [bind_apply] at h
  split at h
  · cases h
  · rename_i a t' heq
    exact ⟨a, t', heq, h⟩

theorem callTcp_bind (context : String) (call : τ → Except String α × τ) (f : α → WireM τ β)
    (t : WireTurn τ) :
    (callTcp context call >>= f) t = match call t.driver.tcp with
      | (.error error, tcp) =>
        (.error (storageContext context error), { t with driver := { t.driver with tcp } })
      | (.ok a, tcp) => f a { t with driver := { t.driver with tcp } } := by
  rw [bind_apply]
  unfold callTcp
  rcases call t.driver.tcp with ⟨_ | a, tcp⟩
  · rfl
  · rfl

theorem callTcp_eq_ok {context : String} {call : τ → Except String α × τ} {a : α}
    {t t' : WireTurn τ} (h : callTcp context call t = (.ok a, t')) :
    ∃ tcp, call t.driver.tcp = (.ok a, tcp) ∧
      t' = { t with driver := { t.driver with tcp } } := by
  unfold callTcp at h
  rcases hcall : call t.driver.tcp with ⟨_ | result, tcp⟩
  · rw [hcall] at h
    cases h
  · rw [hcall] at h
    cases h
    exact ⟨tcp, rfl, rfl⟩

end WireM

namespace WireTcpDriver

open WireM

variable (config : WireConfig τ)

/-- What the driver sees of its connections. -/
def view (d : WireTcpDriver τ) : View where
  localNpub := config.localNpub
  state := config.endpoint.state d.tcp
  connections := d.connections

/-- `WireTcpDriver::ensure_peer_selected`. -/
def ensurePeerSelected (d : WireTcpDriver τ) (peer : String) : Except PubsubError Unit :=
  if peer ∈ d.selectedPeers ∨ peer ∈ d.inbound then .ok ()
  else .error (.storage "TCP/FIPS Nostr pubsub peer is no longer selected")

/-- `WireTcpDriver::ensure_peer_capacity`. -/
def ensurePeerCapacity (d : WireTcpDriver τ) (peer : String) : Except PubsubError Unit := do
  d.ensurePeerSelected peer
  let peers := (d.view config).trackedPeers
  if peer ∉ peers ∧ config.options.peerCapacity ≤ peers.length then
    .error (.storage s!"TCP/FIPS pubsub peer limit is {config.options.peerCapacity}")
  else .ok ()

/-- `WireTcpDriver::has_peer_connection`. -/
def hasPeerConnection (d : WireTcpDriver τ) (peer : String) : Bool :=
  d.connections.keys.ascending.any fun id =>
    (d.connections.lookup id).any (fun connection => connection.peer == peer) &&
      (config.endpoint.state d.tcp id).any fun state => state != .other

/-- The outcome of a check. -/
def check (result : Except PubsubError Unit) : WireM τ Unit :=
  match result with
  | .ok () => pure ()
  | .error error => fail error

/-! ## Connections -/

/-- `WireTcpDriver::connect_peer`. `isWaiting` tells that the peer is not to be retried yet. -/
def connectPeer (peer : String) (isWaiting : Bool) (nowMs : ℕ) : WireM τ Unit := do
  let d ← getDriver
  check (d.ensurePeerSelected peer)
  if d.hasPeerConnection config peer then pure ()
  else if peer ∈ d.inbound then fail (.storage "Inbound client has no live TCP connection")
  else if isWaiting then pure ()
  else
    check (d.ensurePeerCapacity config peer)
    let id ← callTcp "connect TCP/FIPS Nostr pubsub peer" fun tcp =>
      config.endpoint.connect tcp peer nowMs
    modifyDriver fun d =>
      { d with connections := d.connections.insert id { peer, direction := .outbound } }

/-- `WireTcpDriver::accept_connections`, for a backlog of that many connections. -/
def acceptConnections : ℕ → WireM τ Unit
  | 0 => pure ()
  | backlog + 1 => do
    match ← callTcp "accept" fun tcp =>
      let (id, tcp) := config.endpoint.accept tcp
      (.ok id, tcp) with
    | none => pure ()
    | some id =>
      match config.endpoint.peer (← getDriver).tcp id with
      | none => fail (.storage "accepted TCP/FIPS stream has no authenticated peer")
      | some peer =>
        match (← getDriver).ensurePeerCapacity config peer with
        | .error _ =>
          callTcp "reject excess TCP/FIPS peer" fun tcp => config.endpoint.abort tcp id
          acceptConnections backlog
        | .ok () =>
          modifyDriver fun d =>
            if id ∈ d.connections then d
            else { d with connections := d.connections.insert id { peer, direction := .inbound } }
          acceptConnections backlog

/-- The queue of a peer starts again. -/
def restartQueue (d : WireTcpDriver τ) (peer : String) : WireTcpDriver τ :=
  match d.queues.lookup peer with
  | none => d
  | some queue => { d with queues := d.queues.insert peer (PeerQueue.restart queue) }

/-- `WireTcpDriver::abort_peer`. -/
def abortPeer (peer : String) : WireM τ Unit := fun t =>
  let (result, tcp) := config.endpoint.abortPeer t.driver.tcp peer
  let d :=
    { t.driver with
      tcp
      connections := t.driver.connections.filter fun _ connection => connection.peer != peer
      active := t.driver.active.erase peer
      inputs := t.driver.inputs.erase peer }
  (result.mapError (storageContext "abort TCP/FIPS Nostr pubsub peer"),
    { driver := d.restartQueue peer, trace := t.trace ++ [.changed peer none] })

/-- `WireTcpDriver::forget_peer`. -/
def forgetPeer (peer : String) : WireM τ Unit := do
  modifyDriver fun d =>
    { d with
      selectedPeers := d.selectedPeers.erase peer
      inbound := d.inbound.erase peer
      queues := d.queues.erase peer }
  note (.forgotten peer)
  abortPeer config peer

/-- `WireTcpDriver::select_peers`. `expired` are the inbound clients that were silent too long. -/
def selectPeers (peers expired : Finset String) : WireM τ (List String) := do
  let retired := ((← getDriver).inbound.filter fun peer => peer ∈ peers ∨ peer ∈ expired).ascending
  modifyDriver fun d => { d with inbound := d.inbound.filter fun peer => peer ∉ retired }
  forEach (fun peer => if peer ∈ peers then pure () else ignoreError (forgetPeer config peer)) retired
  let removed := ((← getDriver).selectedPeers.filter fun peer => peer ∉ peers).ascending
  modifyDriver fun d => { d with selectedPeers := peers }
  forEach (fun peer => ignoreError (forgetPeer config peer)) removed
  return retired

/-- The streams are those of the last time, all established. -/
def isUnchanged (d : WireTcpDriver τ) : Bool :=
  d.connections.size = d.active.size ∧ d.connections.keys.ascending.all fun id =>
    config.endpoint.state d.tcp id == some .established &&
      (d.connections.lookup id).any fun connection => d.active.lookup connection.peer == some id

/-- The part of `refresh_active` for a peer whose stream changed. -/
def activatePeer (next : Table ConnectionId) (peer : String) : WireM τ Unit := fun t =>
  let d := { t.driver with inputs := t.driver.inputs.erase peer }
  (.ok (), { driver := d.restartQueue peer, trace := t.trace ++ [.changed peer (next.lookup peer)] })

/-- `WireTcpDriver::refresh_active`. -/
def refreshActive : WireM τ (List String) := do
  let d ← getDriver
  if d.isUnchanged config then return []
  modifyDriver fun d =>
    { d with connections := retainLive (config.endpoint.state d.tcp) d.connections }
  let d ← getDriver
  let next := (d.view config).nextActive
  forEach
    (fun id => do
      callTcp "deduplicate TCP/FIPS pubsub stream" fun tcp => config.endpoint.abort tcp id
      modifyDriver fun d => { d with connections := d.connections.erase id })
    (d.view config).extras
  let changed := changedPeers d.active next
  modifyDriver fun d => { d with active := next }
  forEach (activatePeer next) changed
  return changed.filter fun peer => decide (peer ∈ next)

/-! ## Output -/

/-- `WireTcpDriver::queue_frame`. -/
def queueFrame (peer : String) (frame : List UInt8) : WireM τ Unit := do
  let d ← getDriver
  check (d.ensurePeerSelected peer)
  if config.options.frameCapacity < frame.length then
    fail (.storage (s!"Nostr pubsub frame is {frame.length} bytes, maximum is " ++
      s!"{config.options.frameCapacity}"))
  else
    match encodeRecord frame with
    | .error error => fail error
    | .ok record =>
      if peer ∉ d.queues ∧ config.options.peerCapacity ≤ d.queues.size then
        fail (.storage "TCP/FIPS Nostr pubsub queue peer limit reached")
      else
        let queue := (d.queues.lookup peer).getD {}
        -- the entry is there from now on, also when the frame is refused
        modifyDriver fun d => { d with queues := d.queues.insert peer queue }
        if config.options.queueRecordsPerPeer ≤ queue.records.length then
          fail (.storage s!"TCP/FIPS Nostr pubsub record queue is full for {peer}")
        else if config.options.queueBytesPerPeer < satAdd queue.bytes record.length then
          fail (.storage s!"TCP/FIPS Nostr pubsub byte queue is full for {peer}")
        else
          pushRecord peer frame queue { bytes := record, offset := 0 }
where
  /-- The record is put at the end of the queue. -/
  pushRecord (peer : String) (frame : List UInt8) (queue : PeerQueue) (record : QueuedRecord) :
      WireM τ Unit := fun t =>
    let queue : PeerQueue :=
      { records := queue.records ++ [record], bytes := satAdd queue.bytes record.bytes.length }
    (.ok (),
      { driver := { t.driver with queues := t.driver.queues.insert peer queue }
        trace := t.trace ++ [.queued peer frame] })

/-- The write loop of `flush_queues` for one peer. Every turn of it that goes on takes at least one
byte off the budget, so `fuel` may start at the budget. -/
def flushPeer (nowMs : ℕ) (peer : String) (id : ConnectionId) : ℕ → ℕ → WireM τ ℕ
  | 0, budget => pure budget
  | fuel + 1, budget => do
    if budget = 0 then pure budget
    else
      match (← getDriver).queues.lookup peer with
      | none => pure budget
      | some queue =>
        if queue.records.isEmpty then pure budget
        else
          let chunk := (PeerQueue.unsent queue.records).take (min ioChunkBytes budget)
          let accepted ← callTcp "write TCP/FIPS pubsub stream" fun tcp =>
            config.endpoint.write tcp id chunk nowMs
          if accepted = 0 then pure budget
          else
            takeWritten peer id queue (chunk.take accepted)
            flushPeer nowMs peer id fuel (budget - accepted)
where
  /-- The accepted bytes are taken off the queue. -/
  takeWritten (peer : String) (id : ConnectionId) (queue : PeerQueue) (accepted : List UInt8) :
      WireM τ Unit := fun t =>
    let queue : PeerQueue :=
      { records := PeerQueue.consume queue.records accepted.length
        bytes := queue.bytes - accepted.length }
    (.ok (),
      { driver := { t.driver with queues := t.driver.queues.insert peer queue }
        trace := t.trace ++ [.wrote peer id accepted] })

/-- An empty queue is removed. -/
def dropEmptyQueue (d : WireTcpDriver τ) (peer : String) : WireTcpDriver τ :=
  if (d.queues.lookup peer).any fun queue => queue.records.isEmpty then
    { d with queues := d.queues.erase peer }
  else d

/-- The loop of `flush_queues` over the streams. -/
def flushStreams (nowMs : ℕ) : List (String × ConnectionId) → ℕ → WireM τ ℕ
  | [], budget => pure budget
  | (peer, id) :: streams, budget => do
    let budget ← flushPeer config nowMs peer id budget budget
    modifyDriver fun d => d.dropEmptyQueue peer
    flushStreams nowMs streams budget

/-- `WireTcpDriver::flush_queues`. -/
def flushQueues (nowMs alreadyWritten : ℕ) : WireM τ ℕ := do
  let initialBudget := config.options.driveIoBytes - alreadyWritten
  let d ← getDriver
  if d.queues.size = 0 then return 0
  let budget ← flushStreams config nowMs d.active.entriesAscending initialBudget
  modifyDriver fun d =>
    { d with
      continueReady := d.continueReady ||
        decide (budget = 0 ∧ ∃ peer ∈ d.active.keys, peer ∈ d.queues) }
  return initialBudget - budget

/-- `WireTcpDriver::finish_remote_closes`. -/
def finishRemoteCloses (nowMs : ℕ) : WireM τ Unit := do
  let d ← getDriver
  forEach
    (fun id => callTcp "close TCP/FIPS pubsub stream" fun tcp => config.endpoint.close tcp id nowMs)
    ((d.active.entriesAscending.filter fun stream =>
      config.endpoint.isReadClosed d.tcp stream.2 && decide (stream.1 ∉ d.queues)).map Prod.snd)

/-! ## Input -/

/-- What `read_active` has read. -/
structure Reading where
  budget : ℕ
  frames : List (String × List UInt8)
  rejected : ℕ

/-- How the loop over one stream ends: with so many turns left, or in an abort. -/
inductive StreamEnd where
  | finished (turnsLeft : ℕ)
  | aborted
  deriving DecidableEq

/-- The turn of the read loop that takes frames out of the decoder. A peer whose input is refused is
aborted. -/
def takeDecoded (peer : String) (id : ConnectionId) (decoder : RecordDecoder) (r : Reading) :
    WireM τ (Option Reading) := do
  let result := decoder.take (config.options.driveFrames - r.frames.length)
  modifyDriver fun d => { d with inputs := d.inputs.insert peer result.2 }
  match config.endpoint.peer (← getDriver).tcp id with
  | none => fail (.storage "active TCP/FIPS stream has no authenticated peer")
  | some identity =>
    match result.1 with
    | .error _ =>
      note (.rejected id)
      abortPeer config identity
      return none
    | .ok decoded =>
      return some { r with frames := r.frames ++ decoded.map fun frame => (identity, frame) }

/-- The turn of the read loop that reads the stream, unless there is nothing to read. -/
def readChunk (nowMs : ℕ) (peer : String) (id : ConnectionId) (decoder : RecordDecoder)
    (r : Reading) : WireM τ (Option Reading) := do
  modifyDriver fun d => { d with inputs := d.inputs.insert peer decoder }
  let readMax := min (min decoder.remainingCapacity ioChunkBytes) r.budget
  if readMax = 0 then return none
  else
    let bytes ← callTcp "read TCP/FIPS pubsub stream" fun tcp =>
      config.endpoint.read tcp id readMax nowMs
    note (.read id bytes)
    if bytes.isEmpty then return none
    else
      modifyDriver fun d => { d with inputs := d.inputs.insert peer (decoder.push bytes).2 }
      check (decoder.push bytes).1
      return some { r with budget := r.budget - bytes.length }

/-- The read loop of `read_active` for one peer, for so many more turns. -/
def readPeer (nowMs : ℕ) (peer : String) (id : ConnectionId) :
    ℕ → Reading → WireM τ (StreamEnd × Reading)
  | 0, r => pure (.finished 0, r)
  | turns + 1, r => do
    if config.options.driveFrames ≤ r.frames.length then pure (.finished (turns + 1), r)
    else
      let decoder := ((← getDriver).inputs.lookup peer).getD
        { maxFrameBytes := config.options.frameCapacity }
      if decoder.hasCompleteRecord then
        match ← takeDecoded config peer id decoder r with
        | none => pure (.aborted, { r with rejected := r.rejected + 1 })
        | some r => readPeer nowMs peer id turns r
      else if r.budget = 0 then pure (.finished (turns + 1), r)
      else
        match ← readChunk config nowMs peer id decoder r with
        | none => pure (.finished (turns + 1), r)
        | some r => readPeer nowMs peer id turns r

/-- The loop of `read_active` over the streams. -/
def readStreams (nowMs : ℕ) : List (String × ConnectionId) → Reading → WireM τ Reading
  | [], r => pure r
  | (peer, id) :: streams, r => do
    match ← readPeer config nowMs peer id config.maxReadyInputTurns r with
    | (.aborted, r) => readStreams nowMs streams r
    | (.finished turnsLeft, r) =>
      modifyDriver fun d =>
        { d with
          continueReady := d.continueReady || decide (r.budget = 0 ∨ turnsLeft = 0 ∨
            r.frames.length = config.options.driveFrames) }
      readStreams nowMs streams r

/-- `WireTcpDriver::read_active`. -/
def readActive (nowMs : ℕ) : WireM τ (List (String × List UInt8) × ℕ) := do
  let streams := (← getDriver).active.entriesAscending
  note (.reading streams)
  let r ← readStreams config nowMs streams
    { budget := config.options.driveIoBytes, frames := [], rejected := 0 }
  return (r.frames, r.rejected)

/-! ## Turns -/

/-- `WireTcpReport`, as `drive_ready` fills it. -/
structure WireTcpReport where
  frames : List (String × List UInt8)
  newlyConnected : List String
  disconnected : List String
  connectedPeers : ℕ
  rejectedFrames : ℕ
  writtenBytes : ℕ
  deriving DecidableEq

/-- `WireTcpDriver::drive_ready`. -/
def driveReady (nowMs : ℕ) : WireM τ WireTcpReport := do
  modifyDriver fun d => { d with continueReady := false }
  let d ← getDriver
  let previousInbound := d.active.keys.filter fun peer => peer ∈ d.inbound
  acceptConnections config (config.endpoint.backlog d.tcp)
  let newlyConnected ← refreshActive config
  let (frames, rejectedFrames) ← readActive config nowMs
  let writtenBytes ← flushQueues config nowMs 0
  finishRemoteCloses config nowMs
  let moreConnected ← refreshActive config
  let newlyConnected := newlyConnected.toFinset ∪ moreConnected.toFinset
  let d ← getDriver
  let disconnected := ((previousInbound ∪ newlyConnected).filter fun peer =>
    peer ∈ d.inbound ∧ peer ∉ d.active).ascending
  forEach (fun peer => ignoreError (forgetPeer config peer)) disconnected
  return {
    frames, newlyConnected := newlyConnected.ascending, disconnected
    connectedPeers := (← getDriver).active.size
    rejectedFrames, writtenBytes }

end WireTcpDriver

end NostrPubsub.WireTcp
