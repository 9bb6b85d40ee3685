import NostrPubsub.WireTcp.Lossless

/-!
# What the calls of the wire driver change

`Change` says once which changes of its peers, connections, streams and queues a driver makes. A
property that every change keeps is kept by the calls; the calls that admit a frame or select peers
are left to the modules that need them, since they keep less.
-/

open NostrPubsub.WireTcp.PeerQueue (unsent consume)

namespace NostrPubsub.WireTcp

variable {τ : Type}

namespace WireTcpDriver

open WireM

/-- A peer has a tracked connection. -/
def Tracks (d : WireTcpDriver τ) (peer : String) : Prop :=
  ∃ id connection, d.connections.lookup id = some connection ∧ connection.peer = peer

/-- One change of a driver. -/
inductive Change (config : WireConfig τ) : WireTcpDriver τ → WireTcpDriver τ → Prop
  /-- The adapter, the inputs and the wish to be polled. -/
  | aside {d d' : WireTcpDriver τ} (selectedPeers : d'.selectedPeers = d.selectedPeers)
    (inbound : d'.inbound = d.inbound) (connections : d'.connections = d.connections)
    (active : d'.active = d.active) (queues : d'.queues = d.queues) : Change config d d'
  /-- A connection is tracked for a peer that may have one. -/
  | tracked {d : WireTcpDriver τ} (id : ConnectionId) (peer : String) (direction : Direction)
    (h : d.ensurePeerCapacity config peer = .ok ()) :
    Change config d { d with connections := d.connections.insert id { peer, direction } }
  /-- Connections are tracked no longer. -/
  | untracked {d : WireTcpDriver τ} (connections : Connections)
    (h : ∀ id connection, connections.lookup id = some connection →
      d.connections.lookup id = some connection) : Change config d { d with connections }
  /-- The streams change; a peer that has one had one, or has a tracked connection. -/
  | activated {d : WireTcpDriver τ} (active : Table ConnectionId)
    (h : ∀ peer ∈ active, peer ∈ d.active ∨ d.Tracks peer) : Change config d { d with active }
  /-- A peer without a connection is no longer a peer of the driver. -/
  | dismissed {d : WireTcpDriver τ} (peer : String) (htracks : ¬ d.Tracks peer)
    (hactive : peer ∉ d.active) :
    Change config d { d with
      selectedPeers := d.selectedPeers.erase peer
      inbound := d.inbound.erase peer }
  /-- The queue of a peer starts again. -/
  | restarted {d : WireTcpDriver τ} (peer : String) : Change config d (d.restartQueue peer)
  /-- The queue of a peer is dropped. -/
  | dropped {d : WireTcpDriver τ} (peer : String) :
    Change config d { d with queues := d.queues.erase peer }
  /-- Bytes of a queue are written. -/
  | wrote {d : WireTcpDriver τ} {queue : PeerQueue} (peer : String) (n : ℕ)
    (hqueue : d.queues.lookup peer = some queue) (hn : n ≤ (unsent queue.records).length) :
    Change config d { d with
      queues := d.queues.insert peer
        { records := consume queue.records n, bytes := queue.bytes - n } }

/-- A property that no change breaks. -/
def Stable (config : WireConfig τ) (I : WireTcpDriver τ → Prop) : Prop :=
  ∀ {d d' : WireTcpDriver τ}, Change config d d' → I d → I d'

/-- A call keeps a property of the driver. -/
abbrev Keeps {α : Type} (I : WireTcpDriver τ → Prop) (x : WireM τ α) : Prop :=
  Preserves (fun t => I t.driver) x

/-- The driver without the connections and the stream of a peer. -/
def disconnect (d : WireTcpDriver τ) (peer : String) : WireTcpDriver τ :=
  { d with
    connections := d.connections.filter fun _ connection => connection.peer != peer
    active := d.active.erase peer }

theorem not_tracks_disconnect (d : WireTcpDriver τ) (peer : String) :
    ¬ (d.disconnect peer).Tracks peer := by
  rintro ⟨id, connection, hlookup, rfl⟩
  simpa using (Finmap.lookup_filter_eq_some.mp hlookup).2

theorem notMem_active_disconnect (d : WireTcpDriver τ) (peer : String) :
    peer ∉ (d.disconnect peer).active := fun hmem => (Finmap.mem_erase.mp hmem).1 rfl

/-- The driver after a peer was forgotten, but for its adapter and inputs. -/
def dismiss (d : WireTcpDriver τ) (peer : String) : WireTcpDriver τ :=
  { d.disconnect peer with
    selectedPeers := d.selectedPeers.erase peer
    inbound := d.inbound.erase peer
    queues := d.queues.erase peer }

namespace Stable

variable {config : WireConfig τ} {I : WireTcpDriver τ → Prop} {α : Type}

theorem aside (h : Stable config I) {d d' : WireTcpDriver τ} (hd : I d)
    (selectedPeers : d'.selectedPeers = d.selectedPeers) (inbound : d'.inbound = d.inbound)
    (connections : d'.connections = d.connections) (active : d'.active = d.active)
    (queues : d'.queues = d.queues) : I d' :=
  h (.aside selectedPeers inbound connections active queues) hd

theorem modifyDriver (h : Stable config I) {change : WireTcpDriver τ → WireTcpDriver τ}
    (hchange : ∀ d, Change config d (change d)) : Keeps I (modifyDriver change) :=
  fun t => h (hchange t.driver)

/-- A call of the adapter changes nothing else. -/
theorem callTcp (h : Stable config I) (context : String) (call : τ → Except String α × τ) :
    Keeps I (callTcp context call) :=
  fun _ ht => h.aside ht rfl rfl rfl rfl rfl

theorem note (event : WireEvent) : Keeps I (note event : WireM τ Unit) := fun _ h => h

theorem check (result : Except PubsubError Unit) : Keeps I (check result : WireM τ Unit) := by
  cases result with
  | ok _ => exact preserves_pure ()
  | error error => exact preserves_fail error

/-! ### Streams -/

theorem disconnect (h : Stable config I) (d : WireTcpDriver τ) (peer : String) (hd : I d) :
    I (disconnect d peer) := by
  have hkept : I { d with
      connections := d.connections.filter fun _ connection => connection.peer != peer } :=
    h (.untracked _ fun _ _ hlookup => (Finmap.lookup_filter_eq_some.mp hlookup).1) hd
  exact h (.activated _ fun other hother => .inl (Finmap.mem_erase.mp hother).2) hkept

theorem abortPeer (h : Stable config I) (peer : String) : Keeps I (abortPeer config peer) :=
  fun t ht => h (.restarted peer) (h.aside (h.disconnect t.driver peer ht) rfl rfl rfl rfl rfl)

theorem dismiss (h : Stable config I) (d : WireTcpDriver τ) (peer : String) (hd : I d) :
    I (d.dismiss peer) := by
  have hdismissed : I { d.disconnect peer with
      selectedPeers := d.selectedPeers.erase peer
      inbound := d.inbound.erase peer } :=
    h (.dismissed peer (d.not_tracks_disconnect peer) (d.notMem_active_disconnect peer))
      (h.disconnect d peer hd)
  exact h (.dropped peer) hdismissed

/-- The connections of a forgotten peer go as well, though they go last. -/
theorem forgetPeer (h : Stable config I) (peer : String) : Keeps I (forgetPeer config peer) :=
  fun t ht => h (.restarted peer) (h.aside (h.dismiss t.driver peer ht) rfl rfl rfl rfl rfl)

theorem activatePeer (h : Stable config I) (next : Table ConnectionId) (peer : String) :
    Keeps I (activatePeer next peer : WireM τ Unit) :=
  fun _ ht => h (.restarted peer) (h.aside ht rfl rfl rfl rfl rfl)

end Stable

/-! ### Refreshing -/

theorem retainLive_lookup {state : ConnectionId → Option TcpState} {connections : Connections}
    {id : ConnectionId} {connection : TrackedConnection}
    (h : (retainLive state connections).lookup id = some connection) :
    connections.lookup id = some connection :=
  (Finmap.lookup_filter_eq_some.mp h).1

/-- The streams that are kept have tracked connections. -/
def Selects (d : WireTcpDriver τ) (next : Table ConnectionId) : Prop :=
  ∀ peer id, next.lookup peer = some id →
    ∃ connection, d.connections.lookup id = some connection ∧ connection.peer = peer

theorem selects_nextActive (d : WireTcpDriver τ) (config : WireConfig τ) :
    d.Selects (d.view config).nextActive := by
  intro peer id hid
  rw [View.lookup_nextActive] at hid
  have hmem : id ∈ (d.view config).peerStreams peer := List.mem_of_mem_head? hid
  exact (View.mem_openStreams.mp (View.mem_peerStreams.mp hmem)).2

/-- A stream that is kept is not aborted. -/
theorem notMem_extras {v : View} {peer : String} {id : ConnectionId}
    (h : v.nextActive.lookup peer = some id) : id ∉ v.extras := by
  intro hextra
  obtain ⟨other, hother⟩ := View.mem_extras.mp hextra
  rw [View.lookup_nextActive] at h
  -- the stream belongs to one peer only
  obtain ⟨-, connection, hlookup, hpeer⟩ :=
    View.mem_openStreams.mp (View.mem_peerStreams.mp (List.mem_of_mem_head? h))
  obtain ⟨-, connection', hlookup', hpeer'⟩ :=
    View.mem_openStreams.mp (View.mem_peerStreams.mp (List.mem_of_mem_drop hother))
  have hsame : other = peer := by
    rw [← hpeer, ← hpeer', Option.some.inj (hlookup.symm.trans hlookup')]
  subst hsame
  -- and stands in the list of its streams once
  have hnodup : (v.peerStreams other).Nodup := View.nodup_peerStreams
  rcases hstreams : v.peerStreams other with _ | ⟨first, rest⟩
  · rw [hstreams] at h
    cases h
  · rw [hstreams] at h hother hnodup
    cases h
    exact (List.nodup_cons.mp hnodup).1 hother

theorem Selects.erase {d : WireTcpDriver τ} {next : Table ConnectionId} (h : d.Selects next)
    {id : ConnectionId} (hid : ∀ peer, next.lookup peer ≠ some id) :
    ({ d with connections := d.connections.erase id } : WireTcpDriver τ).Selects next := by
  intro peer stream hstream
  obtain ⟨connection, hlookup, hpeer⟩ := h peer stream hstream
  have hne : stream ≠ id := fun heq => hid peer (heq ▸ hstream)
  exact ⟨connection, (Finmap.lookup_erase_ne hne).trans hlookup, hpeer⟩

variable {config : WireConfig τ} {I : WireTcpDriver τ → Prop}

/-- Aborting the other streams of a peer leaves the kept ones tracked. -/
theorem Stable.abortExtras (h : Stable config I) {next : Table ConnectionId} {extras : List ConnectionId}
    (hnext : ∀ peer id, next.lookup peer = some id → id ∉ extras) :
    Keeps (fun d => I d ∧ d.Selects next) (forEach (fun id => do
      WireM.callTcp "deduplicate TCP/FIPS pubsub stream" fun tcp => config.endpoint.abort tcp id
      WireM.modifyDriver fun d => { d with connections := d.connections.erase id }) extras) := by
  refine preserves_forEach_of_mem fun id hid => ?_
  have hcall : Keeps (fun d => I d ∧ d.Selects next)
      (WireM.callTcp "deduplicate TCP/FIPS pubsub stream" fun tcp => config.endpoint.abort tcp id) :=
    fun _ ht => ⟨h.aside ht.1 rfl rfl rfl rfl rfl, ht.2⟩
  refine hcall.bind fun _ t ht => ⟨h (.untracked _ fun other connection hlookup => ?_) ht.1, ?_⟩
  · have hne : other ≠ id := by
      rintro rfl
      rw [Finmap.lookup_erase] at hlookup
      cases hlookup
    rwa [Finmap.lookup_erase_ne hne] at hlookup
  · exact ht.2.erase fun peer heq => hnext peer id heq hid

theorem Stable.refreshActive (h : Stable config I) : Keeps I (refreshActive config) := by
  intro t ht
  rw [WireTcpDriver.refreshActive, getDriver_bind]
  split
  · exact ht
  · rw [modifyDriver_bind, getDriver_bind]
    have hretained : I { t.driver with
        connections := retainLive (config.endpoint.state t.driver.tcp) t.driver.connections } :=
      h (.untracked _ fun _ _ => retainLive_lookup) ht
    refine (h.abortExtras fun _ _ => notMem_extras).bind_to (I := fun t => I t.driver) (fun _ h => h.1)
      (fun _ t₁ ht₁ => ?_) ⟨hretained, selects_nextActive _ config⟩
    rw [modifyDriver_bind, bind_pure_state]
    have htracked : ∀ peer ∈ (view config { t.driver with
        connections := retainLive (config.endpoint.state t.driver.tcp)
          t.driver.connections }).nextActive, t₁.driver.Tracks peer := by
      intro peer hpeer
      obtain ⟨id, hid⟩ := Finmap.mem_iff.mp hpeer
      exact ⟨id, ht₁.2 peer id hid⟩
    exact preserves_forEach (fun peer => h.activatePeer _ peer) _ _
      (h (.activated _ fun peer hpeer => .inr (htracked peer hpeer)) ht₁.1)

/-! ### Connections -/

/-- What follows a check knows that it passed. -/
theorem state_check {α : Type} {J : WireTurn τ → Prop} {result : Except PubsubError Unit}
    {f : Unit → WireM τ α} {t : WireTurn τ} (ht : J t) (hf : result = .ok () → J (f () t).2) :
    J ((check result >>= f) t).2 := by
  cases result with
  | ok _ => exact hf rfl
  | error error => exact ht

/-- What follows a call of the adapter finds the driver as it was but for the adapter. -/
theorem state_callTcp {α β : Type} {J : WireTurn τ → Prop} {context : String}
    {call : τ → Except String α × τ} {f : α → WireM τ β} {t : WireTurn τ}
    (ht : ∀ tcp, J { t with driver := { t.driver with tcp } })
    (hf : ∀ a tcp, call t.driver.tcp = (.ok a, tcp) →
      J (f a { t with driver := { t.driver with tcp } }).2) :
    J ((callTcp context call >>= f) t).2 := by
  rw [callTcp_bind]
  rcases hcall : call t.driver.tcp with ⟨_ | a, tcp⟩
  · exact ht tcp
  · exact hf a tcp hcall

theorem Stable.connectPeer (h : Stable config I) (peer : String) (isWaiting : Bool) (nowMs : ℕ) :
    Keeps I (connectPeer config peer isWaiting nowMs) := by
  intro t ht
  rw [WireTcpDriver.connectPeer, getDriver_bind]
  refine state_check (J := fun t => I t.driver) ht fun _ => ?_
  split
  · exact ht
  · split
    · exact ht
    · split
      · exact ht
      · refine state_check (J := fun t => I t.driver) ht fun hcapacity => ?_
        have haside : ∀ tcp, I { t.driver with tcp } := fun tcp => h.aside ht rfl rfl rfl rfl rfl
        refine state_callTcp (J := fun t => I t.driver) haside fun id tcp _ => ?_
        exact h (.tracked id peer .outbound hcapacity) (haside tcp)

theorem Stable.acceptConnections (h : Stable config I) (backlog : ℕ) :
    Keeps I (acceptConnections config backlog) := by
  induction backlog with
  | zero => exact preserves_pure ()
  | succ backlog ih =>
    refine (h.callTcp _ _).bind fun accepted => ?_
    cases accepted with
    | none => exact preserves_pure ()
    | some id =>
      refine preserves_getDriver.bind fun d => ?_
      cases config.endpoint.peer d.tcp id with
      | none => exact preserves_fail _
      | some peer =>
        intro t ht
        dsimp only
        rw [getDriver_bind]
        rcases hcapacity : t.driver.ensurePeerCapacity config peer with error | _
        · exact (h.callTcp _ _).bind (fun _ => ih) t ht
        · have hentry : I (if id ∈ t.driver.connections then t.driver
              else { t.driver with
                connections := t.driver.connections.insert id { peer, direction := .inbound } }) := by
            split
            · exact ht
            · exact h (.tracked id peer .inbound hcapacity) ht
          exact ih { t with driver := _ } hentry

theorem Stable.finishRemoteCloses (h : Stable config I) (nowMs : ℕ) :
    Keeps I (finishRemoteCloses config nowMs) :=
  preserves_getDriver.bind fun _ => preserves_forEach (fun _ => h.callTcp _ _) _

/-! ### Input -/

theorem Stable.setInputs (h : Stable config I) (inputs : Table RecordDecoder → Table RecordDecoder) :
    Keeps I (WireM.modifyDriver fun d => { d with inputs := inputs d.inputs }) :=
  h.modifyDriver fun _ => .aside rfl rfl rfl rfl rfl

theorem Stable.setContinueReady (h : Stable config I) (wish : WireTcpDriver τ → Bool) :
    Keeps I (WireM.modifyDriver fun d => { d with continueReady := wish d }) :=
  h.modifyDriver fun _ => .aside rfl rfl rfl rfl rfl

theorem Stable.takeDecoded (h : Stable config I) (peer : String) (id : ConnectionId)
    (decoder : RecordDecoder) (r : Reading) : Keeps I (takeDecoded config peer id decoder r) := by
  refine (h.setInputs fun inputs => inputs.insert peer _).bind fun _ =>
    preserves_getDriver.bind fun d => ?_
  cases config.endpoint.peer d.tcp id with
  | none => exact preserves_fail _
  | some identity =>
    cases (decoder.take (config.options.driveFrames - r.frames.length)).1 with
    | error _ =>
      exact (Stable.note _).bind fun _ => (h.abortPeer identity).bind fun _ => preserves_pure _
    | ok decoded => exact preserves_pure _

theorem Stable.readChunk (h : Stable config I) (nowMs : ℕ) (peer : String) (id : ConnectionId)
    (decoder : RecordDecoder) (r : Reading) : Keeps I (readChunk config nowMs peer id decoder r) := by
  refine (h.setInputs fun inputs => inputs.insert peer decoder).bind fun _ =>
    preserves_ite (preserves_pure _) ?_
  refine (h.callTcp _ _).bind fun bytes => (Stable.note _).bind fun _ =>
    preserves_ite (preserves_pure _) ?_
  exact (h.setInputs fun inputs => inputs.insert peer _).bind fun _ =>
    (Stable.check _).bind fun _ => preserves_pure _

theorem Stable.readPeer (h : Stable config I) (nowMs : ℕ) (peer : String) (id : ConnectionId)
    (turns : ℕ) (r : Reading) : Keeps I (readPeer config nowMs peer id turns r) := by
  induction turns generalizing r with
  | zero => exact preserves_pure _
  | succ turns ih =>
    refine preserves_ite (preserves_pure _) (preserves_getDriver.bind fun d => ?_)
    refine preserves_ite ?_ (preserves_ite (preserves_pure _) ?_)
    · refine (h.takeDecoded peer id _ r).bind fun result => ?_
      cases result with
      | none => exact preserves_pure _
      | some r => exact ih r
    · refine (h.readChunk nowMs peer id _ r).bind fun result => ?_
      cases result with
      | none => exact preserves_pure _
      | some r => exact ih r

theorem Stable.readStreams (h : Stable config I) (nowMs : ℕ) (streams : List (String × ConnectionId))
    (r : Reading) : Keeps I (readStreams config nowMs streams r) := by
  induction streams generalizing r with
  | nil => exact preserves_pure r
  | cons stream streams ih =>
    obtain ⟨peer, id⟩ := stream
    refine (h.readPeer nowMs peer id config.maxReadyInputTurns r).bind fun result => ?_
    obtain ⟨streamEnd, r⟩ := result
    cases streamEnd with
    | aborted => exact ih r
    | finished turnsLeft =>
      exact (h.setContinueReady fun d => d.continueReady || _).bind fun _ => ih r

theorem Stable.readActive (h : Stable config I) (nowMs : ℕ) : Keeps I (readActive config nowMs) :=
  preserves_getDriver.bind fun _ => (Stable.note _).bind fun _ =>
    (h.readStreams nowMs _ _).bind fun _ => preserves_pure _

/-! ### Output -/

theorem Stable.flushPeer (h : Stable config I) (nowMs : ℕ) (peer : String) (id : ConnectionId)
    (fuel budget : ℕ) : Keeps I (flushPeer config nowMs peer id fuel budget) := by
  induction fuel generalizing budget with
  | zero => exact preserves_pure _
  | succ fuel ih =>
    refine preserves_ite (preserves_pure _) fun t ht => ?_
    rw [getDriver_bind]
    cases hqueue : t.driver.queues.lookup peer with
    | none => exact ht
    | some queue =>
      dsimp only
      split
      · exact ht
      · set chunk := (unsent queue.records).take (min ioChunkBytes budget) with hchunk
        have haside : ∀ tcp, I { t.driver with tcp } := fun tcp => h.aside ht rfl rfl rfl rfl rfl
        refine state_callTcp (J := fun t => I t.driver) haside fun accepted tcp hwrite => ?_
        split
        · exact haside tcp
        · have haccepted : accepted ≤ chunk.length := config.endpoint.write_le _ _ _ _ _ _ hwrite
          have hlength : (chunk.take accepted).length ≤ (unsent queue.records).length :=
            (List.length_take_le' _ _).trans (List.length_take_le' _ _)
          exact ih (budget - accepted) _ (h (.wrote peer _ hqueue hlength) (haside tcp))

theorem Stable.flushStreams (h : Stable config I) (nowMs : ℕ)
    (streams : List (String × ConnectionId)) (budget : ℕ) :
    Keeps I (flushStreams config nowMs streams budget) := by
  induction streams generalizing budget with
  | nil => exact preserves_pure budget
  | cons stream streams ih =>
    refine (h.flushPeer nowMs stream.1 stream.2 budget budget).bind fun budget => ?_
    have hdrop : Keeps I (WireM.modifyDriver fun d => d.dropEmptyQueue stream.1 : WireM τ Unit) := by
      intro t ht
      show I (dropEmptyQueue t.driver stream.1)
      rw [dropEmptyQueue]
      split
      · exact h (.dropped stream.1) ht
      · exact ht
    exact hdrop.bind fun _ => ih budget

theorem Stable.flushQueues (h : Stable config I) (nowMs alreadyWritten : ℕ) :
    Keeps I (flushQueues config nowMs alreadyWritten) := by
  refine preserves_getDriver.bind fun d => preserves_ite (preserves_pure _) ?_
  refine (h.flushStreams nowMs _ _).bind fun budget => ?_
  exact (h.setContinueReady fun d => d.continueReady || _).bind fun _ => preserves_pure _

/-! ### Turns -/

theorem Stable.driveReady (h : Stable config I) (nowMs : ℕ) : Keeps I (driveReady config nowMs) := by
  refine (h.setContinueReady fun _ => false).bind fun _ => preserves_getDriver.bind fun d => ?_
  refine (h.acceptConnections _).bind fun _ => h.refreshActive.bind fun _ => ?_
  refine (h.readActive nowMs).bind fun _ => (h.flushQueues nowMs 0).bind fun _ => ?_
  refine (h.finishRemoteCloses nowMs).bind fun _ => h.refreshActive.bind fun _ => ?_
  refine preserves_getDriver.bind fun d => ?_
  refine (preserves_forEach (fun peer => (h.forgetPeer peer).ignoreError) _).bind fun _ => ?_
  exact preserves_getDriver.bind fun _ => preserves_pure _

end WireTcpDriver

end NostrPubsub.WireTcp
