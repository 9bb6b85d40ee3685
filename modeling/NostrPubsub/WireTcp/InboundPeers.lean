import NostrPubsub.WireTcp.Changes

/-!
# Inbound clients of the wire driver

`InboundPeers` (`nostr-pubsub-fips/src/wire_tcp/inbound.rs`): a bounded number of clients that nobody
selected hold a lease, which the first segment of a connection reserves and silence ends. The driver
model has the set of these clients; `admitPeer_fst`, `keys_admitPeer` and `retire_eq` say that with the times
of the leases the source does the same.

The decoder of segments is a parameter.
-/

namespace NostrPubsub.WireTcp

/-- `FIPS_NOSTR_PUBSUB_SERVICE_PORT`. -/
def servicePort : ℕ := 7368

/-- `IDLE_TIMEOUT`, in nanoseconds: thirty seconds. -/
def idleTimeout : ℕ := 30 * 10 ^ 9

/-- What is looked at of a segment that `fips_tcp` decoded. -/
structure Segment where
  dstPort : ℕ
  /-- `flags == Flags::SYN`. -/
  isSyn : Bool
  ack : Option ℕ
  payload : List UInt8
  /-- `supports_fips_version(FIPS_VERSION)`. -/
  supportsFipsVersion : Bool

/-- `initial_syn`, the decoder being `decode`. -/
def initialSyn (decode : List UInt8 → Option Segment) (bytes : List UInt8) : Bool :=
  if ¬ (20 ≤ bytes.length ∧ bytes.length ≤ 60) then false
  else (decode bytes).any fun segment => segment.dstPort == servicePort && segment.isSyn &&
    segment.ack.isNone && segment.payload.isEmpty && segment.supportsFipsVersion

/-- `InboundPeers`: when each client was last seen. -/
abbrev InboundPeers := Table ℕ

namespace InboundPeers

variable (decode : List UInt8 → Option Segment) (peers : InboundPeers)

/-- `InboundPeers::admit`. -/
def admitPeer (identity : String) (bytes : List UInt8) (selected : Finset String)
    (options : WireTcpOptions) (now : ℕ) : Bool × InboundPeers :=
  if identity ∈ selected then (true, peers)
  else if identity ∈ peers then (true, peers.insert identity now)
  else if options.inboundPeerCapacity ≤ peers.size ∨
      options.peerCapacity ≤ peers.size + selected.card ∨ ¬ initialSyn decode bytes then
    (false, peers)
  else (true, peers.insert identity now)

/-- The clients that were silent for too long. -/
def expired (now : ℕ) : Finset String :=
  peers.keys.filter fun peer => (peers.lookup peer).any fun last => idleTimeout ≤ now - last

/-- `InboundPeers::retire`: the leases that end, and the others. -/
def retire (selected : Finset String) (now : ℕ) : List String × InboundPeers :=
  let ends := fun peer (last : ℕ) => decide (peer ∈ selected ∨ idleTimeout ≤ now - last)
  ((peers.filter ends).keys.ascending, peers.filter fun peer last => !ends peer last)

end InboundPeers

variable {τ : Type}

namespace WireTcpDriver

variable (config : WireConfig τ) (decode : List UInt8 → Option Segment)

/-- `InboundPeers::admit` on the set of the inbound clients. -/
def admitPeer (d : WireTcpDriver τ) (peer : String) (bytes : List UInt8) : Bool × WireTcpDriver τ :=
  if peer ∈ d.selectedPeers then (true, d)
  else if peer ∈ d.inbound then (true, d)
  else if config.options.inboundPeerCapacity ≤ d.inbound.card ∨
      config.options.peerCapacity ≤ d.inbound.card + d.selectedPeers.card ∨
      ¬ initialSyn decode bytes then (false, d)
  else (true, { d with inbound := insert peer d.inbound })

end WireTcpDriver

namespace InboundPeers

variable {decode : List UInt8 → Option Segment} {peers : InboundPeers} {config : WireConfig τ}
  {d : WireTcpDriver τ}

/-- Whether a client is admitted does not depend on when the others were seen. -/
theorem admitPeer_fst (h : peers.keys = d.inbound) (identity : String) (bytes : List UInt8) (now : ℕ) :
    (peers.admitPeer decode identity bytes d.selectedPeers config.options now).1 =
      (d.admitPeer config decode identity bytes).1 := by
  have hmem : identity ∈ peers ↔ identity ∈ d.inbound := by rw [← h, Finmap.mem_keys]
  have hsize : peers.size = d.inbound.card := by rw [Finmap.size, h]
  simp only [admitPeer, WireTcpDriver.admitPeer, hmem, hsize]
  split_ifs <;> rfl

theorem keys_admitPeer (h : peers.keys = d.inbound) (identity : String) (bytes : List UInt8) (now : ℕ) :
    (peers.admitPeer decode identity bytes d.selectedPeers config.options now).2.keys =
      (d.admitPeer config decode identity bytes).2.inbound := by
  have hmem : identity ∈ peers ↔ identity ∈ d.inbound := by rw [← h, Finmap.mem_keys]
  have hsize : peers.size = d.inbound.card := by rw [Finmap.size, h]
  simp only [admitPeer, WireTcpDriver.admitPeer, hmem, hsize]
  split
  · exact h
  · split
    · next hknown =>
      rw [Finmap.keys_insert, h]
      exact Finset.insert_eq_of_mem hknown
    · split
      · exact h
      · rw [Finmap.keys_insert, h]

/-- The leases that end are those of selected peers and of silent clients. -/
theorem retire_eq (h : peers.keys = d.inbound) (selected : Finset String) (now : ℕ) :
    (peers.retire selected now).1 =
        (d.inbound.filter fun peer => peer ∈ selected ∨ peer ∈ peers.expired now).ascending ∧
      (peers.retire selected now).2.keys = d.inbound.filter fun peer =>
        peer ∉ (d.inbound.filter fun peer => peer ∈ selected ∨ peer ∈ peers.expired now).ascending := by
  have hends : ∀ peer last, peers.lookup peer = some last →
      (peer ∈ peers.expired now ↔ idleTimeout ≤ now - last) := by
    intro peer last hlast
    have hkey : peer ∈ peers.keys := Finmap.mem_keys.mpr (Finmap.mem_of_lookup_eq_some hlast)
    simp [expired, hlast, hkey]
  have hmem : ∀ peer, peer ∈ d.inbound ↔ ∃ last, peers.lookup peer = some last := by
    intro peer
    rw [← h, Finmap.mem_keys, Finmap.mem_iff]
  constructor
  · refine congrArg Finset.ascending ?_
    ext peer
    simp only [Finmap.mem_keys, Finmap.mem_filter, Finset.mem_filter, hmem]
    constructor
    · rintro ⟨last, hlast, hend⟩
      exact ⟨⟨last, hlast⟩, by simpa [hends peer last hlast] using hend⟩
    · rintro ⟨⟨last, hlast⟩, hend⟩
      exact ⟨last, hlast, by simpa [hends peer last hlast] using hend⟩
  · ext peer
    simp only [retire, Finmap.mem_keys, Finmap.mem_filter, Finset.mem_filter, Finset.mem_ascending,
      hmem]
    constructor
    · rintro ⟨last, hlast, hkeep⟩
      exact ⟨⟨last, hlast⟩, by simpa [hends peer last hlast, hlast] using hkeep⟩
    · rintro ⟨⟨last, hlast⟩, hkeep⟩
      exact ⟨last, hlast, by simpa [hends peer last hlast, hlast] using hkeep⟩

end InboundPeers

/-! ## Runs of a driver -/

/-- A call of the driver, a datagram that asks for admission, or new input of the adapter. -/
inductive DriverCall (τ : Type) where
  | selectPeers (peers expired : Finset String)
  | admitPeer (peer : String) (bytes : List UInt8)
  | received (tcp : τ)
  | connectPeer (peer : String) (isWaiting : Bool) (nowMs : ℕ)
  | acceptConnections
  | queueFrame (peer : String) (frame : List UInt8)
  | flushQueues (nowMs alreadyWritten : ℕ)
  | abortPeer (peer : String)
  | forgetPeer (peer : String)
  | refreshActive
  | driveReady (nowMs : ℕ)

/-- The client selects no more peers than leave room for the inbound clients. -/
def DriverCall.LeavesRoom (options : WireTcpOptions) : DriverCall τ → Prop
  | .selectPeers peers _ => peers.card ≤ options.peerCapacity - options.inboundPeerCapacity
  | _ => True

/-- The driver after a part of a call, which leaves its changes when it fails. -/
def WireM.driverAfter {α : Type} (x : WireM τ α) (d : WireTcpDriver τ) : WireTcpDriver τ :=
  (x { driver := d, trace := [] }).2.driver

/-- A call as one of those that also record their trace. Admission changes the inbound clients only. -/
def DriverCall.wire (config : WireConfig τ) (decode : List UInt8 → Option Segment)
    (d : WireTcpDriver τ) : DriverCall τ → WireTcpDriver.WireCall τ
  | .selectPeers peers expired => .selectPeers peers expired
  | .admitPeer peer bytes => .input d.tcp (d.admitPeer config decode peer bytes).2.inbound
  | .received tcp => .input tcp d.inbound
  | .connectPeer peer isWaiting nowMs => .connectPeer peer isWaiting nowMs
  | .acceptConnections => .acceptConnections
  | .queueFrame peer frame => .queueFrame peer frame
  | .flushQueues nowMs alreadyWritten => .flushQueues nowMs alreadyWritten
  | .abortPeer peer => .abortPeer peer
  | .forgetPeer peer => .forgetPeer peer
  | .refreshActive => .refreshActive
  | .driveReady nowMs => .driveReady nowMs

/-- The driver after a call. -/
def DriverCall.run (config : WireConfig τ) (decode : List UInt8 → Option Segment)
    (d : WireTcpDriver τ) (call : DriverCall τ) : WireTcpDriver τ :=
  ((call.wire config decode d).run config { driver := d, trace := [] }).driver

theorem DriverCall.run_admitPeer (config : WireConfig τ) (decode : List UInt8 → Option Segment)
    (d : WireTcpDriver τ) (peer : String) (bytes : List UInt8) :
    DriverCall.run config decode d (.admitPeer peer bytes) =
      (d.admitPeer config decode peer bytes).2 := by
  change { d with inbound := (d.admitPeer config decode peer bytes).2.inbound } = _
  unfold WireTcpDriver.admitPeer
  split_ifs <;> rfl

/-- A new driver after some calls. -/
def runDriver (config : WireConfig τ) (decode : List UInt8 → Option Segment) (tcp : τ)
    (calls : List (DriverCall τ)) : WireTcpDriver τ :=
  calls.foldl (DriverCall.run config decode) (WireTcpDriver.bind tcp)

namespace WireTcpDriver

variable {config : WireConfig τ} {decode : List UInt8 → Option Segment}
  {I : WireTcpDriver τ → Prop}

theorem Keeps.driverAfter {α : Type} {x : WireM τ α} (h : Keeps I x) {d : WireTcpDriver τ}
    (hd : I d) : I (x.driverAfter d) :=
  h { driver := d, trace := [] } hd

/-- A property that no change breaks is kept by the calls that neither select peers, admit a client
nor take a frame. -/
theorem Stable.run (h : Stable config I) {d : WireTcpDriver τ} (hd : I d) (call : DriverCall τ)
    (hselect : ∀ peers expired, call = .selectPeers peers expired →
      I (call.run config decode d))
    (hclient : ∀ peer bytes, call = .admitPeer peer bytes → I (call.run config decode d))
    (hqueue : ∀ peer frame, call = .queueFrame peer frame → I (call.run config decode d)) :
    I (call.run config decode d) := by
  cases call with
  | selectPeers peers expired => exact hselect peers expired rfl
  | admitPeer peer bytes => exact hclient peer bytes rfl
  | received tcp => exact h.aside hd rfl rfl rfl rfl rfl
  | connectPeer peer isWaiting nowMs => exact (h.connectPeer peer isWaiting nowMs).driverAfter hd
  | acceptConnections => exact (h.acceptConnections _).driverAfter hd
  | queueFrame peer frame => exact hqueue peer frame rfl
  | flushQueues nowMs alreadyWritten => exact (h.flushQueues nowMs alreadyWritten).driverAfter hd
  | abortPeer peer => exact (h.abortPeer peer).driverAfter hd
  | forgetPeer peer => exact (h.forgetPeer peer).driverAfter hd
  | refreshActive => exact h.refreshActive.driverAfter hd
  | driveReady nowMs => exact (h.driveReady nowMs).driverAfter hd

end WireTcpDriver

end NostrPubsub.WireTcp
