import Mathlib.Data.String.Basic
import NostrPubsub.Core
import NostrPubsub.ToMathlib.Leading
import NostrPubsub.ToMathlib.Mealy

/-!
# Pending requests for announced events

`pending_wants.rs` of the FIPS client. An announced event is requested from the peer that
announced it first. Further peers that announce it stand by as alternatives, and the request
rotates among them when it is not answered.
-/

namespace NostrPubsub.Fips

/-- `InventoryProvider`. -/
structure InventoryProvider where
  peerNpub : String
  subscriptionIds : List String
  requested : Bool
  deriving DecidableEq, Repr

/-- `PendingInventory`. -/
structure PendingInventory where
  selected : InventoryProvider
  alternatives : List InventoryProvider
  eventKind : ℕ
  payloadBytes : ℕ
  hopLimit : ℕ
  requestedAtMs : ℕ
  retryCount : ℕ
  deriving DecidableEq, Repr

/-- `MAX_WANT_RETRIES`. -/
def maxWantRetries : ℕ := 5

/-- `merge_subscription_ids`: the ids of both lists, sorted, each once. -/
def mergeSubscriptionIds (existing incoming : List String) : List String :=
  sortedSet id (existing ++ incoming)

/-- A provider without a subscription. -/
def InventoryProvider.dropSubscription (subscriptionId : String)
    (provider : InventoryProvider) : InventoryProvider :=
  { provider with subscriptionIds := provider.subscriptionIds.filter (· ≠ subscriptionId) }

/-- A provider with the subscriptions of another announcement. -/
def InventoryProvider.merge (existing provider : InventoryProvider) : InventoryProvider :=
  { existing with
    subscriptionIds := mergeSubscriptionIds existing.subscriptionIds provider.subscriptionIds }

namespace PendingInventory

/-- The selected provider and the alternatives. -/
def providers (pending : PendingInventory) : List InventoryProvider :=
  pending.selected :: pending.alternatives

/-- `requested_provider`. -/
def requestedProvider (peerNpub : String) (pending : PendingInventory) : Option InventoryProvider :=
  pending.providers.find? fun provider => provider.requested ∧ provider.peerNpub = peerNpub

/-- The first alternative of the same peer, with the subscriptions of `provider` merged in. -/
def mergeAlternative (provider : InventoryProvider) :
    List InventoryProvider → Option (List InventoryProvider)
  | [] => none
  | existing :: rest =>
    if existing.peerNpub = provider.peerNpub then
      some (existing.merge provider :: rest)
    else (mergeAlternative provider rest).map (existing :: ·)

/-- `PendingWants::insert` for an event that is pending already. -/
def announce (maxAlternatives : ℕ) (provider : InventoryProvider) (pending : PendingInventory) :
    PendingInventory :=
  if provider.peerNpub = pending.selected.peerNpub then
    { pending with selected := pending.selected.merge provider }
  else
    match mergeAlternative provider pending.alternatives with
    | some alternatives => { pending with alternatives }
    | none =>
      if pending.alternatives.length < maxAlternatives then
        let alternative : InventoryProvider :=
          ⟨provider.peerNpub, sortedSet id provider.subscriptionIds, false⟩
        { pending with alternatives := pending.alternatives ++ [alternative] }
      else pending

/-- The closure of `remove_subscription`: what is left of a pending event, if anything. -/
def dropSubscription (subscriptionId : String) (pending : PendingInventory) :
    Option PendingInventory :=
  let selected := pending.selected.dropSubscription subscriptionId
  let alternatives := (pending.alternatives.map (·.dropSubscription subscriptionId)).filter
    fun provider => provider.subscriptionIds ≠ []
  if selected.subscriptionIds = [] then
    match alternatives with
    | next :: rest => some { pending with selected := next, alternatives := rest }
    | [] => none
  else some { pending with selected, alternatives }

/-- The closure of `remove_peer`. -/
def dropPeer (peerNpub : String) (nowMs : ℕ) (pending : PendingInventory) :
    Option PendingInventory :=
  let alternatives := pending.alternatives.filter fun provider => provider.peerNpub ≠ peerNpub
  if pending.selected.peerNpub = peerNpub then
    match alternatives with
    | next :: rest =>
      some { pending with
        selected := next, alternatives := rest, retryCount := 0, requestedAtMs := nowMs }
    | [] => none
  else some { pending with alternatives }

end PendingInventory

/-- What `retry_due` does with a pending event. -/
inductive Retry where
  | waiting
  | expired
  | retried (pending : PendingInventory)
  deriving DecidableEq, Repr

/-- The body of the loop in `retry_due`. -/
def PendingInventory.retry (nowMs retryAfterMs : ℕ) (pending : PendingInventory) : Retry :=
  let retryDelay := satMul retryAfterMs (2 ^ min pending.retryCount maxWantRetries)
  if nowMs - pending.requestedAtMs < retryDelay then .waiting
  else if maxWantRetries ≤ pending.retryCount then .expired
  else
    let rotated : PendingInventory := match pending.alternatives with
      | next :: rest => { pending with selected := next, alternatives := rest ++ [pending.selected] }
      | [] => pending
    .retried { rotated with
      selected := { rotated.selected with requested := true }
      requestedAtMs := nowMs
      retryCount := pending.retryCount + 1 }

/-- `PendingWantRetryBatch`. -/
structure PendingWantRetryBatch where
  retries : List (String × InventoryProvider)
  expiredProviders : List InventoryProvider
  expiredEventCount : ℕ
  deriving DecidableEq, Repr

/-- `PendingWants`. -/
structure PendingWants where
  maxEvents : ℕ
  maxAlternatives : ℕ
  entries : Table PendingInventory
  order : List String

/-- What `accept_inventory` inserts: the first request to a peer that announced an event under
one or more subscriptions. -/
structure Announcement where
  eventId : String
  peerNpub : String
  subscriptionIds : List String
  eventKind : ℕ
  payloadBytes : ℕ
  hopLimit : ℕ
  requestedAtMs : ℕ
  nonempty : subscriptionIds ≠ []
  nodup : subscriptionIds.Nodup
  deriving DecidableEq

/-- The provider of an announcement. -/
def Announcement.provider (announcement : Announcement) : InventoryProvider where
  peerNpub := announcement.peerNpub
  subscriptionIds := announcement.subscriptionIds
  requested := true

/-- The pending inventory of an announcement. -/
def Announcement.inventory (announcement : Announcement) : PendingInventory where
  selected := announcement.provider
  alternatives := []
  eventKind := announcement.eventKind
  payloadBytes := announcement.payloadBytes
  hopLimit := announcement.hopLimit
  requestedAtMs := announcement.requestedAtMs
  retryCount := 0

namespace PendingWants

/-- `PendingWants::new`. -/
def new (maxEvents maxAlternatives : ℕ) : PendingWants := ⟨maxEvents, maxAlternatives, ∅, []⟩

/-- `insert`, of what `accept_inventory` builds. -/
def insert (announcement : Announcement) (wants : PendingWants) : Bool × PendingWants :=
  let incoming := announcement.inventory
  match wants.entries.lookup announcement.eventId with
  | some pending =>
    if pending.eventKind ≠ incoming.eventKind ∨ pending.payloadBytes ≠ incoming.payloadBytes then
      (false, wants)
    else
      let pending := pending.announce wants.maxAlternatives incoming.selected
      (false, { wants with entries := wants.entries.insert announcement.eventId pending })
  | none =>
    -- the oldest events go while there are more than `max_events`
    let (order, entries) := evictOldest (wants.maxEvents + 1)
      (wants.order ++ [announcement.eventId])
      (wants.entries.insert announcement.eventId incoming)
    (true, { wants with entries, order })

/-- `take_matching`. -/
def takeMatching (eventId sourceNpub subscriptionId : String) (eventKind payloadBytes : ℕ)
    (wants : PendingWants) : Option PendingInventory × PendingWants :=
  match wants.entries.lookup eventId with
  | none => (none, wants)
  | some pending =>
    match pending.requestedProvider sourceNpub with
    | none => (none, wants)
    | some provider =>
      if subscriptionId ∉ provider.subscriptionIds ∨ pending.eventKind ≠ eventKind
          ∨ pending.payloadBytes ≠ payloadBytes then
        (none, wants)
      else
        (some pending, { wants with
          order := wants.order.filter (· ≠ eventId), entries := wants.entries.erase eventId })

/-- Change or drop the entries, and keep the ids of those that are left in the queue. -/
def retain (f : String → PendingInventory → Option PendingInventory) (wants : PendingWants) :
    PendingWants :=
  let entries := wants.entries.filterMapValues f
  { wants with entries, order := wants.order.filter (· ∈ entries) }

/-- `remove_subscription`. -/
def removeSubscription (subscriptionId : String) : PendingWants → PendingWants :=
  retain fun _ pending => pending.dropSubscription subscriptionId

/-- `remove_peer`. The clock is read for each entry that loses its selected provider. -/
def removePeer (peerNpub : String) (nowMs : String → ℕ) : PendingWants → PendingWants :=
  retain fun eventId pending => pending.dropPeer peerNpub (nowMs eventId)

/-- `clear`. -/
def clear (wants : PendingWants) : PendingWants := { wants with entries := ∅, order := [] }

variable (iter : Finmap.Enumeration fun _ : String => PendingInventory)

/-- `retry_due`. The entries are visited in the order of the hash map. -/
def retryDue (nowMs retryAfterMs : ℕ) (wants : PendingWants) :
    PendingWantRetryBatch × PendingWants :=
  let visited := iter.visit wants.entries
  let expired := visited.filter fun entry => entry.2.retry nowMs retryAfterMs = .expired
  let batch : PendingWantRetryBatch :=
    { retries := visited.filterMap fun entry =>
        match entry.2.retry nowMs retryAfterMs with
        | .retried pending => some (entry.1, pending.selected)
        | _ => none
      expiredProviders := expired.flatMap fun entry => entry.2.providers.filter (·.requested)
      expiredEventCount := expired.length }
  let wants := wants.retain fun _ pending =>
    match pending.retry nowMs retryAfterMs with
    | .waiting => some pending
    | .expired => none
    | .retried pending => some pending
  (batch, wants)

/-- A call on the pending requests. -/
inductive Op where
  | insert (announcement : Announcement)
  | takeMatching (eventId sourceNpub subscriptionId : String) (eventKind payloadBytes : ℕ)
  | removeSubscription (subscriptionId : String)
  | retryDue (nowMs retryAfterMs : ℕ)
  | removePeer (peerNpub : String) (nowMs : String → ℕ)
  | clear

/-- What a call returns. -/
inductive Output where
  | inserted (requested : Bool)
  | taken (pending : Option PendingInventory)
  | due (batch : PendingWantRetryBatch)
  | nothing
  deriving DecidableEq

/-- One call. -/
def step : Op → PendingWants → Output × PendingWants
  | .insert announcement, wants => (wants.insert announcement).map .inserted fun w => w
  | .takeMatching eventId source subscription kind bytes, wants =>
    (wants.takeMatching eventId source subscription kind bytes).map .taken fun w => w
  | .removeSubscription subscription, wants => (.nothing, wants.removeSubscription subscription)
  | .retryDue now after, wants => (wants.retryDue iter now after).map .due fun w => w
  | .removePeer peer now, wants => (.nothing, wants.removePeer peer now)
  | .clear, wants => (.nothing, wants.clear)

end PendingWants

end NostrPubsub.Fips
