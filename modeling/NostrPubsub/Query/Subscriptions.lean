import Mathlib.Data.String.Basic
import NostrPubsub.Core
import NostrPubsub.ToMathlib.Mealy
import NostrPubsub.ToMathlib.Recency

/-!
# Subscriptions of peers

The bounded store of `nostr-pubsub/src/subscriptions.rs`: for each peer its subscriptions, for
each subscription its filters. Peers, and the subscriptions of a peer, are dropped in the
order of their last upsert. The store counts what it retains as it goes.

The JSON forms of filters and of `REQ` messages belong to the `nostr` crate; they are the
fields of `SubscriptionJson`.
-/

namespace NostrPubsub

/-- What the store uses of the JSON encoding of the `nostr` crate. -/
structure SubscriptionJson where
  /-- `Filter::try_as_json`. -/
  filter : Filter → Except String String
  /-- `ClientMessage::req(id, filters).try_as_json()`. -/
  req : String → List Filter → Except String String

/-- `PubsubSubscriptionLimits`. -/
structure PubsubSubscriptionLimits where
  maxPeers : ℕ
  maxSubscriptionsPerPeer : ℕ
  maxFiltersPerSubscription : ℕ

/-- `PubsubPeerSubscription`. -/
structure PubsubPeerSubscription where
  subscriptionId : String
  filters : List Filter

/-- `PeerSubscriptionSet`. -/
structure PeerSubscriptionSet where
  subscriptions : Table PubsubPeerSubscription
  order : List String

/-- `PubsubPeerSubscriptionSnapshot`. -/
@[ext]
structure PubsubPeerSubscriptionSnapshot where
  peerCount : ℕ
  subscriptionCount : ℕ
  filterCount : ℕ
  encodedFilterBytes : ℕ
  encodedReqBytes : ℕ
  deriving DecidableEq

/-- `PubsubPeerSubscriptionStore`. -/
structure PubsubPeerSubscriptionStore where
  limits : PubsubSubscriptionLimits
  peers : Table PeerSubscriptionSet
  peerOrder : List String
  retained : PubsubPeerSubscriptionSnapshot

/-- `SubscriptionContribution`. -/
structure SubscriptionContribution where
  filterCount : ℕ
  encodedFilterBytes : ℕ
  encodedReqBytes : ℕ

/-- `ClientMessage`, as far as the store reads it. -/
inductive ClientMessage where
  | req (subscriptionId : String) (filters : List Filter)
  | close (subscriptionId : String)
  | other

/-- `PubsubSubscriptionUpdate`. -/
inductive PubsubSubscriptionUpdate where
  | subscribed
  | closed
  | ignored

/-! ## Contributions -/

/-- `encoded_state_error`. -/
def encodedStateError (kind error : String) : PubsubError :=
  .storage s!"failed to encode retained peer subscription {kind}: {error}"

/-- The bytes of the filters of a subscription. -/
def encodedFilterBytes (json : SubscriptionJson) : List Filter → ℕ → Except PubsubError ℕ
  | [], total => .ok total
  | filter :: rest, total =>
    match json.filter filter with
    | .ok encoded => encodedFilterBytes json rest (satAdd total encoded.utf8ByteSize)
    | .error error => .error (encodedStateError "filter" error)

/-- `subscription_contribution`. -/
def subscriptionContribution (json : SubscriptionJson) (subscription : PubsubPeerSubscription) :
    Except PubsubError SubscriptionContribution := do
  let filterBytes ← encodedFilterBytes json subscription.filters 0
  match json.req subscription.subscriptionId subscription.filters with
  | .ok encoded =>
    .ok
      { filterCount := subscription.filters.length
        encodedFilterBytes := filterBytes
        encodedReqBytes := encoded.utf8ByteSize }
  | .error error => .error (encodedStateError "REQ" error)

/-- `subscription_contribution_infallible`. The `expect` holds of every retained subscription;
nothing is subtracted for others here. -/
def subscriptionContributionInfallible (json : SubscriptionJson)
    (subscription : PubsubPeerSubscription) : SubscriptionContribution :=
  match subscriptionContribution json subscription with
  | .ok contribution => contribution
  | .error _ => { filterCount := 0, encodedFilterBytes := 0, encodedReqBytes := 0 }

/-! ## The subscriptions of one peer -/

namespace PeerSubscriptionSet

/-- `PeerSubscriptionSet::default`. -/
def empty : PeerSubscriptionSet := { subscriptions := ∅, order := [] }

/-- `PeerSubscriptionSet::evict_oldest_over_limit`. -/
def evictOldestOverLimit (self : PeerSubscriptionSet) (limit : ℕ) :
    Option PubsubPeerSubscription × PeerSubscriptionSet :=
  let popped := popOver (fun size => limit < size) self.order self.subscriptions
  (popped.1.map (·.2), { subscriptions := popped.2.2, order := popped.2.1 })

/-- `PeerSubscriptionSet::upsert`: what was replaced, what was evicted, and the new set. -/
def upsert (self : PeerSubscriptionSet) (subscription : PubsubPeerSubscription)
    (limits : PubsubSubscriptionLimits) :
    Option PubsubPeerSubscription × Option PubsubPeerSubscription × PeerSubscriptionSet :=
  let id := subscription.subscriptionId
  let replaced := self.subscriptions.lookup id
  let upserted : PeerSubscriptionSet :=
    { subscriptions := self.subscriptions.insert id subscription
      order := moveToBack self.order id }
  if replaced.isNone then
    let evicted := upserted.evictOldestOverLimit limits.maxSubscriptionsPerPeer
    (replaced, evicted.1, evicted.2)
  else
    (replaced, none, upserted)

/-- `PeerSubscriptionSet::remove`. -/
def remove (self : PeerSubscriptionSet) (subscriptionId : String) :
    Option PubsubPeerSubscription × PeerSubscriptionSet :=
  (self.subscriptions.lookup subscriptionId,
    { subscriptions := self.subscriptions.erase subscriptionId
      order := self.order.filter (· ≠ subscriptionId) })

/-- `subscriptions.into_values()`, in the order of the ids. -/
def intoValues (self : PeerSubscriptionSet) : List PubsubPeerSubscription :=
  ((Finmap.Enumeration.ascending _).visit self.subscriptions).map (·.2)

end PeerSubscriptionSet

/-! ## The store -/

namespace PubsubPeerSubscriptionStore

/-- `PubsubPeerSubscriptionStore::new`. -/
def new (limits : PubsubSubscriptionLimits) : PubsubPeerSubscriptionStore where
  limits := limits
  peers := ∅
  peerOrder := []
  retained :=
    { peerCount := 0, subscriptionCount := 0, filterCount := 0, encodedFilterBytes := 0
      encodedReqBytes := 0 }

variable (json : SubscriptionJson)

/-- `PubsubPeerSubscriptionStore::touch_peer`. -/
def touchPeer (self : PubsubPeerSubscriptionStore) (peerId : String) :
    PubsubPeerSubscriptionStore :=
  { self with peerOrder := moveToBack self.peerOrder peerId }

/-- `PubsubPeerSubscriptionStore::evict_peers_over_limit`. -/
def evictPeersOverLimit (self : PubsubPeerSubscriptionStore) :
    List PubsubPeerSubscription × PubsubPeerSubscriptionStore :=
  let popped := popOver (fun size => self.limits.maxPeers ≤ size) self.peerOrder self.peers
  (popped.1.elim [] (·.2.intoValues),
    { self with peers := popped.2.2, peerOrder := popped.2.1 })

/-- `PubsubPeerSubscriptionStore::add_retained`. -/
def addRetained (self : PubsubPeerSubscriptionStore) (added : SubscriptionContribution) :
    PubsubPeerSubscriptionStore :=
  { self with
    retained :=
      { self.retained with
        subscriptionCount := satAdd self.retained.subscriptionCount 1
        filterCount := satAdd self.retained.filterCount added.filterCount
        encodedFilterBytes := satAdd self.retained.encodedFilterBytes added.encodedFilterBytes
        encodedReqBytes := satAdd self.retained.encodedReqBytes added.encodedReqBytes } }

/-- `PubsubPeerSubscriptionStore::subtract_retained`. -/
def subtractRetained (self : PubsubPeerSubscriptionStore) (removed : PubsubPeerSubscription) :
    PubsubPeerSubscriptionStore :=
  let contribution := subscriptionContributionInfallible json removed
  { self with
    retained :=
      { self.retained with
        subscriptionCount := self.retained.subscriptionCount - 1
        filterCount := self.retained.filterCount - contribution.filterCount
        encodedFilterBytes :=
          self.retained.encodedFilterBytes - contribution.encodedFilterBytes
        encodedReqBytes := self.retained.encodedReqBytes - contribution.encodedReqBytes } }

/-- `subtract_retained` of each subscription of a list. -/
def subtractAll (self : PubsubPeerSubscriptionStore) (removed : List PubsubPeerSubscription) :
    PubsubPeerSubscriptionStore :=
  removed.foldl (subtractRetained json) self

/-- `self.retained.peer_count = self.peers.len()`. -/
def countPeers (self : PubsubPeerSubscriptionStore) : PubsubPeerSubscriptionStore :=
  { self with retained := { self.retained with peerCount := self.peers.size } }

/-- The part of `upsert` that touches the peer and makes room for it if it is new. -/
def makeRoom (self : PubsubPeerSubscriptionStore) (peerId : String) :
    PubsubPeerSubscriptionStore :=
  let touched := self.touchPeer peerId
  if (self.peers.lookup peerId).isNone then
    let evicted := touched.evictPeersOverLimit
    evicted.2.subtractAll json evicted.1
  else
    touched

/-- The part of `upsert` after its checks. -/
def accept (self : PubsubPeerSubscriptionStore) (peerId : String)
    (subscription : PubsubPeerSubscription) (added : SubscriptionContribution) :
    Option PubsubPeerSubscription × PubsubPeerSubscriptionStore :=
  let roomy := self.makeRoom json peerId
  let peer := (roomy.peers.lookup peerId).getD .empty
  let upserted := peer.upsert subscription self.limits
  let stored := { roomy with peers := roomy.peers.insert peerId upserted.2.2 }
  let stored := stored.subtractAll json upserted.1.toList
  let stored := stored.subtractAll json upserted.2.1.toList
  (upserted.2.1, (stored.addRetained added).countPeers)

/-- `PubsubPeerSubscriptionStore::upsert`. -/
def upsert (self : PubsubPeerSubscriptionStore) (peerId : String)
    (subscription : PubsubPeerSubscription) :
    Except PubsubError (Option PubsubPeerSubscription) × PubsubPeerSubscriptionStore :=
  if self.limits.maxPeers = 0 then
    (.error (.validation "peer subscription store max_peers must be greater than zero"), self)
  else if self.limits.maxSubscriptionsPerPeer = 0 then
    (.error (.validation
      "peer subscription store max_subscriptions_per_peer must be greater than zero"), self)
  else if self.limits.maxFiltersPerSubscription < subscription.filters.length then
    (.error (.validation s!"subscription {subscription.subscriptionId} has {subscription.filters.length} filters, limit is {self.limits.maxFiltersPerSubscription}"), self)
  else
    match subscriptionContribution json subscription with
    | .error error => (.error error, self)
    | .ok added =>
      let accepted := self.accept json peerId subscription added
      (.ok accepted.1, accepted.2)

/-- `PubsubPeerSubscriptionStore::upsert_filters`. -/
def upsertFilters (self : PubsubPeerSubscriptionStore) (peerId subscriptionId : String)
    (filters : List Filter) :
    Except PubsubError (Option PubsubPeerSubscription) × PubsubPeerSubscriptionStore :=
  self.upsert json peerId { subscriptionId, filters }

/-- `PubsubPeerSubscriptionStore::remove_peer`. -/
def removePeer (self : PubsubPeerSubscriptionStore) (peerId : String) :
    List PubsubPeerSubscription × PubsubPeerSubscriptionStore :=
  let removed := (self.peers.lookup peerId).elim [] (·.intoValues)
  let remaining :=
    { self with
      peerOrder := self.peerOrder.filter (· ≠ peerId)
      peers := self.peers.erase peerId }
  (removed, (remaining.subtractAll json removed).countPeers)

/-- The first part of `remove`: the subscription goes from those of its peer. -/
def shrinkPeer (self : PubsubPeerSubscriptionStore) (peerId : String)
    (peer : PeerSubscriptionSet) (subscriptionId : String) : PubsubPeerSubscriptionStore :=
  let removed := peer.remove subscriptionId
  let stored := { self with peers := self.peers.insert peerId removed.2 }
  stored.subtractAll json removed.1.toList

/-- `PubsubPeerSubscriptionStore::remove`. -/
def remove (self : PubsubPeerSubscriptionStore) (peerId subscriptionId : String) :
    Option PubsubPeerSubscription × PubsubPeerSubscriptionStore :=
  match self.peers.lookup peerId with
  | none => (none, self)
  | some peer =>
    let removed := peer.remove subscriptionId
    let stored := self.shrinkPeer json peerId peer subscriptionId
    if removed.2.subscriptions.size = 0 then
      (removed.1, (stored.removePeer json peerId).2)
    else
      (removed.1, stored)

/-- `PubsubPeerSubscriptionStore::apply_client_message`. -/
def applyClientMessage (self : PubsubPeerSubscriptionStore) (peerId : String) :
    ClientMessage → Except PubsubError PubsubSubscriptionUpdate × PubsubPeerSubscriptionStore
  | .req subscriptionId filters =>
    let upserted := self.upsertFilters json peerId subscriptionId filters
    (upserted.1.map fun _ => .subscribed, upserted.2)
  | .close subscriptionId => (.ok .closed, (self.remove json peerId subscriptionId).2)
  | .other => (.ok .ignored, self)

end PubsubPeerSubscriptionStore

end NostrPubsub
