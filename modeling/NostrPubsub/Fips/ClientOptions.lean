import NostrPubsub.Mesh.Defs
import NostrPubsub.WireTcp.Driver

/-!
# Options of a FIPS client

`FipsPubsubClientOptions` of `nostr-pubsub-fips/src/lib.rs`, what `validate` refuses, and the bounds of
the wire driver that `wire_tcp_options` makes of them. Sums and products saturate; a queue of a driver
made from valid options holds any one frame that the options allow.
-/

namespace NostrPubsub.Fips

open NostrPubsub.WireTcp

/-- `FIPS_NOSTR_PUBSUB_MAX_REPLAY_EVENTS`. -/
def maxReplayEventsDefault : ℕ := 8

/-- `FIPS_NOSTR_PUBSUB_DEFAULT_MAX_HOPS`. -/
def defaultMaxHops : UInt8 := 4

/-- `FIPS_NOSTR_PUBSUB_MAX_FRAME_BYTES`. -/
def maxFrameBytesLimit : ℕ := 65535 - 10

/-- `FipsPubsubClientOptions`. The timeout is in nanoseconds. -/
structure FipsPubsubClientOptions where
  queryTimeout : ℕ := 500 * 10 ^ 6
  maxFrameBytes : ℕ := maxFrameBytesLimit
  maxConnectedPeers : ℕ := 64
  routedPeers : List String := []
  maxInboundRoutedPeers : ℕ := 0
  acceptAnonymousPublications : Bool := false
  fanout : ℕ := defaultInvWantFanout
  maxActiveSubscriptions : ℕ := 64
  maxFiltersPerSubscription : ℕ := 4
  maxReplayEvents : ℕ := maxReplayEventsDefault
  receiveBatchSize : ℕ := 64
  maxHops : UInt8 := defaultMaxHops
  deriving DecidableEq, Repr

/-- `invalid_option`. -/
def invalidOption (message : String) : PubsubError :=
  .validation s!"invalid FIPS pubsub client option: {message}"

namespace FipsPubsubClientOptions

variable (options : FipsPubsubClientOptions)

/-- `FipsPubsubClientOptions::outbound_peer_capacity`. -/
def outboundPeerCapacity : ℕ := options.maxConnectedPeers - options.maxInboundRoutedPeers

/-- The options that `validate` wants greater than zero, with their names. -/
def positive : List (String × ℕ) :=
  [("max_frame_bytes", options.maxFrameBytes),
    ("max_connected_peers", options.maxConnectedPeers),
    ("fanout", options.fanout),
    ("max_active_subscriptions", options.maxActiveSubscriptions),
    ("max_filters_per_subscription", options.maxFiltersPerSubscription),
    ("max_replay_events", options.maxReplayEvents),
    ("receive_batch_size", options.receiveBatchSize)]

/-- `FipsPubsubClientOptions::validate`. -/
def validate : Except PubsubError Unit :=
  if options.acceptAnonymousPublications ∧ options.maxInboundRoutedPeers = 0 then
    .error (invalidOption "anonymous publication admission requires bounded inbound slots")
  else if options.maxConnectedPeers < options.maxInboundRoutedPeers then
    .error (invalidOption "max_inbound_routed_peers cannot exceed max_connected_peers")
  else if options.queryTimeout = 0 then
    .error (invalidOption "query_timeout must be greater than zero")
  else
    match options.positive.find? fun named => named.2 = 0 with
    | some (name, _) => .error (invalidOption s!"{name} must be greater than zero")
    | none =>
      if maxFrameBytesLimit < options.maxFrameBytes then
        .error (invalidOption
          s!"max_frame_bytes cannot exceed TCP/FIPS record limit {maxFrameBytesLimit}")
      else if options.maxConnectedPeers < options.fanout then
        .error (invalidOption "fanout cannot exceed max_connected_peers")
      else if options.maxHops = 0 then
        .error (invalidOption "max_hops must be greater than zero")
      else .ok ()

/-- The records that a peer's queue may hold. -/
def queueRecords : ℕ :=
  satAdd (satAdd (satAdd options.maxActiveSubscriptions 1) options.maxReplayEvents) 1

/-- `FipsPubsubClientOptions::wire_tcp_options`. -/
def wireTcpOptions : WireTcpOptions where
  frameCapacity := options.maxFrameBytes
  peerCapacity := options.maxConnectedPeers
  inboundPeerCapacity := options.maxInboundRoutedPeers
  queueRecordsPerPeer := options.queueRecords
  queueBytesPerPeer := satMul (satAdd options.maxFrameBytes 4) options.queueRecords
  driveIoBytes := 512 * 1024
  driveFrames := options.receiveBatchSize

variable {options}

/-- What valid options satisfy. -/
structure Valid (options : FipsPubsubClientOptions) : Prop where
  anonymous : options.acceptAnonymousPublications → 0 < options.maxInboundRoutedPeers
  inbound : options.maxInboundRoutedPeers ≤ options.maxConnectedPeers
  timeout : 0 < options.queryTimeout
  positive : ∀ named ∈ options.positive, 0 < named.2
  frame : options.maxFrameBytes ≤ maxFrameBytesLimit
  fanout : options.fanout ≤ options.maxConnectedPeers
  hops : options.maxHops ≠ 0

theorem valid_of_validate (h : options.validate = .ok ()) : options.Valid := by
  rw [validate] at h
  split at h
  · cases h
  · next hanonymous =>
    split at h
    · cases h
    · next hinbound =>
      split at h
      · cases h
      · next htimeout =>
        split at h
        · cases h
        · next hpositive =>
          split_ifs at h with hframe hfanout hhops
          exact
            { anonymous := fun hon => Nat.pos_of_ne_zero fun hzero => hanonymous ⟨hon, hzero⟩
              inbound := Nat.not_lt.mp hinbound
              timeout := Nat.pos_of_ne_zero htimeout
              positive := fun named hnamed => Nat.pos_of_ne_zero fun hzero =>
                List.find?_eq_none.mp hpositive named hnamed (decide_eq_true hzero)
              frame := Nat.not_lt.mp hframe
              fanout := Nat.not_lt.mp hfanout
              hops := hhops }

/-- The default options are valid. -/
theorem validate_default : ({} : FipsPubsubClientOptions).validate = .ok () := by
  decide

end FipsPubsubClientOptions

end NostrPubsub.Fips
