import Mathlib.Data.String.Basic
import NostrPubsub.Core
import NostrPubsub.ToMathlib.Lifetime

/-!
# The want table of the TypeScript client

`FipsPubsubInvWantState` of `ts/packages/nostr-pubsub/src/fips-pubsub-invwant.ts`. An announced event
is requested from the peer that announced it first. Further peers stand by as alternatives, and the
peers that were asked before the selected one stay acceptable. When the selected peer is lost, the
next one takes its place and waits for its own request.
-/

namespace NostrPubsub.Fips.TypeScript

/-- `InventoryProvider`. -/
structure InventoryProvider where
  peerId : String
  subscriptionIds : Finset String
  deriving DecidableEq

/-- `PendingWant`. -/
structure PendingWant where
  selected : InventoryProvider
  alternatives : List InventoryProvider
  previous : List InventoryProvider
  expiresAtMs : ℤ
  eventKind : ℕ
  payloadBytes : ℕ
  hopLimit : ℕ
  requestedAtMs : ℤ
  needsRequest : Bool
  deriving DecidableEq

/-- `WANT_LIFETIME_MS`. -/
def wantLifetimeMs : ℤ := 10000

/-- `WantRequest`. -/
structure WantRequest where
  peerId : String
  eventId : String
  deriving DecidableEq

/-- An inventory as `accept` is given it: the callers pass on only inventories with a subscription
that is open. -/
structure Inventory where
  peerId : String
  eventId : String
  eventKind : ℕ
  payloadBytes : ℕ
  hopLimit : ℕ
  validSubscriptionIds : Finset String
  nonempty : validSubscriptionIds.Nonempty
  deriving DecidableEq

/-- The provider of an inventory. -/
def Inventory.provider (inventory : Inventory) : InventoryProvider :=
  ⟨inventory.peerId, inventory.validSubscriptionIds⟩

/-- The pending event of an inventory that is the first for its event. -/
def Inventory.want (inventory : Inventory) (nowMs : ℤ) : PendingWant where
  selected := inventory.provider
  alternatives := []
  previous := []
  expiresAtMs := nowMs + wantLifetimeMs
  eventKind := inventory.eventKind
  payloadBytes := inventory.payloadBytes
  hopLimit := inventory.hopLimit
  requestedAtMs := nowMs
  needsRequest := false

/-- A provider without a subscription. -/
def InventoryProvider.dropSubscription (subscriptionId : String) (provider : InventoryProvider) :
    InventoryProvider :=
  { provider with subscriptionIds := provider.subscriptionIds.erase subscriptionId }

/-- A provider with the subscriptions of another announcement. -/
def InventoryProvider.add (existing provider : InventoryProvider) : InventoryProvider :=
  { existing with subscriptionIds := existing.subscriptionIds ∪ provider.subscriptionIds }

/-- The first provider of the same peer, with the subscriptions of `provider` added. -/
def addTo (provider : InventoryProvider) : List InventoryProvider → Option (List InventoryProvider)
  | [] => none
  | existing :: rest =>
    if existing.peerId = provider.peerId then some (existing.add provider :: rest)
    else (addTo provider rest).map (existing :: ·)

namespace PendingWant

/-- The selected provider, the alternatives and the previous ones. -/
def providers (pending : PendingWant) : List InventoryProvider :=
  pending.selected :: (pending.alternatives ++ pending.previous)

/-- The providers whose answer is acceptable. -/
def answerable (pending : PendingWant) : List InventoryProvider := pending.selected :: pending.previous

/-- `accept` for an event that is pending already. -/
def announce (maxAlternatives : ℕ) (provider : InventoryProvider) (pending : PendingWant) :
    PendingWant :=
  if pending.selected.peerId = provider.peerId then
    { pending with selected := pending.selected.add provider }
  else
    match addTo provider pending.alternatives, addTo provider pending.previous with
    | some alternatives, _ => { pending with alternatives }
    | none, some previous => { pending with previous }
    | none, none =>
      if pending.alternatives.length + pending.previous.length < maxAlternatives then
        { pending with alternatives := pending.alternatives ++ [provider] }
      else pending

/-- `alternatives.shift() ?? previous.shift()` for the selected provider, which then waits for its
request. -/
def promote (pending : PendingWant) : Option PendingWant :=
  match pending.alternatives, pending.previous with
  | next :: rest, _ =>
    some { pending with selected := next, alternatives := rest, needsRequest := true }
  | [], next :: rest =>
    some { pending with selected := next, previous := rest, needsRequest := true }
  | [], [] => none

/-- The body of the loop in `removeSubscription`: what is left of a pending event, if anything. -/
def dropSubscription (subscriptionId : String) (pending : PendingWant) : Option PendingWant :=
  let drop (providers : List InventoryProvider) :=
    (providers.map (·.dropSubscription subscriptionId)).filter fun p => p.subscriptionIds ≠ ∅
  let pending := { pending with
    selected := pending.selected.dropSubscription subscriptionId
    alternatives := drop pending.alternatives
    previous := drop pending.previous }
  if pending.selected.subscriptionIds ≠ ∅ then some pending else pending.promote

/-- The body of the loop in `dropPeer`. -/
def dropPeer (peerId : String) (pending : PendingWant) : Option PendingWant :=
  let pending := { pending with
    alternatives := pending.alternatives.filter fun p => p.peerId ≠ peerId
    previous := pending.previous.filter fun p => p.peerId ≠ peerId }
  if pending.selected.peerId ≠ peerId then some pending else pending.promote

end PendingWant

/-- What `retryDue` does with a pending event. -/
inductive WantRetry where
  | waiting
  | expired
  | retried (pending : PendingWant)
  deriving DecidableEq

/-- The body of the loop in `retryDue`. -/
def PendingWant.retry (nowMs retryAfterMs : ℤ) (pending : PendingWant) : WantRetry :=
  if pending.expiresAtMs ≤ nowMs then .expired
  else if pending.needsRequest then
    .retried { pending with needsRequest := false, requestedAtMs := nowMs }
  else if nowMs - pending.requestedAtMs < retryAfterMs then .waiting
  else
    match pending.alternatives with
    -- the request that is under way stays acceptable when nobody else can be asked
    | [] => .waiting
    | next :: rest =>
      .retried { pending with
        previous := pending.previous ++ [pending.selected]
        selected := next
        alternatives := rest
        requestedAtMs := nowMs }

/-- `FipsPubsubInvWantState`. -/
structure FipsPubsubInvWantState where
  maxEvents : ℕ
  maxAlternatives : ℕ
  pending : Table PendingWant
  order : List String

namespace FipsPubsubInvWantState

/-- The constructor. -/
def new (maxEvents maxAlternatives : ℕ) : FipsPubsubInvWantState := ⟨maxEvents, maxAlternatives, ∅, []⟩

/-- `accept`. -/
def accept (inventory : Inventory) (nowMs : ℤ) (state : FipsPubsubInvWantState) :
    Option WantRequest × FipsPubsubInvWantState :=
  match state.pending.lookup inventory.eventId with
  | some existing =>
    if existing.eventKind ≠ inventory.eventKind ∨ existing.payloadBytes ≠ inventory.payloadBytes then
      (none, state)
    else
      let existing := existing.announce state.maxAlternatives inventory.provider
      (none, { state with pending := state.pending.insert inventory.eventId existing })
  | none =>
    -- `trim`: the oldest events go while there are more than `maxEvents`
    let (order, pending) := evictOldest (state.maxEvents + 1) (state.order ++ [inventory.eventId])
      (state.pending.insert inventory.eventId (inventory.want nowMs))
    (some ⟨inventory.peerId, inventory.eventId⟩, { state with pending, order })

/-- `complete`: the hop limit that is left, and the subscriptions that the provider offered the event
under. -/
def complete (peerId subscriptionId eventId : String) (eventKind payloadBytes : ℕ)
    (state : FipsPubsubInvWantState) : Option (ℕ × Finset String) × FipsPubsubInvWantState :=
  match state.pending.lookup eventId with
  | none => (none, state)
  | some pending =>
    match pending.answerable.find? fun p => p.peerId = peerId ∧ subscriptionId ∈ p.subscriptionIds with
    | none => (none, state)
    | some provider =>
      if pending.eventKind ≠ eventKind ∨ pending.payloadBytes ≠ payloadBytes then (none, state)
      else
        (some (pending.hopLimit - 1, provider.subscriptionIds), { state with
          pending := state.pending.erase eventId, order := state.order.filter (· ≠ eventId) })

/-- Change or delete the entries, and keep the ids of those that are left in the queue. -/
def retain (f : PendingWant → Option PendingWant) (state : FipsPubsubInvWantState) :
    FipsPubsubInvWantState :=
  let pending := state.pending.filterMapValues fun _ pending => f pending
  { state with pending, order := state.order.filter (· ∈ pending) }

/-- `removeSubscription`. -/
def removeSubscription (subscriptionId : String) : FipsPubsubInvWantState → FipsPubsubInvWantState :=
  retain fun pending => pending.dropSubscription subscriptionId

/-- `dropPeer`. -/
def dropPeer (peerId : String) : FipsPubsubInvWantState → FipsPubsubInvWantState :=
  retain fun pending => pending.dropPeer peerId

/-- `clear`. -/
def clear (state : FipsPubsubInvWantState) : FipsPubsubInvWantState :=
  { state with pending := ∅, order := [] }

variable (iter : Finmap.Enumeration fun _ : String => PendingWant)

/-- `retryDue`. -/
def retryDue (nowMs retryAfterMs : ℤ) (state : FipsPubsubInvWantState) :
    List WantRequest × FipsPubsubInvWantState :=
  let retries := (iter.visit state.pending).filterMap fun entry =>
    match entry.2.retry nowMs retryAfterMs with
    | .retried pending => some ⟨pending.selected.peerId, entry.1⟩
    | _ => none
  let state := state.retain fun pending =>
    match pending.retry nowMs retryAfterMs with
    | .waiting => some pending
    | .expired => none
    | .retried pending => some pending
  (retries, state)

/-- A call on the table. -/
inductive Op where
  | accept (inventory : Inventory) (nowMs : ℤ)
  | complete (peerId subscriptionId eventId : String) (eventKind payloadBytes : ℕ)
  | retryDue (nowMs retryAfterMs : ℤ)
  | removeSubscription (subscriptionId : String)
  | dropPeer (peerId : String)
  | clear
  deriving DecidableEq

/-- What a call returns. -/
inductive Output where
  | requested (request : Option WantRequest)
  | completed (result : Option (ℕ × Finset String))
  | due (retries : List WantRequest)
  | nothing
  deriving DecidableEq

/-- One call. -/
def step : Op → FipsPubsubInvWantState → Output × FipsPubsubInvWantState
  | .accept inventory now, state => (state.accept inventory now).map .requested fun s => s
  | .complete peer subscription id kind bytes, state =>
    (state.complete peer subscription id kind bytes).map .completed fun s => s
  | .retryDue now after, state => (state.retryDue iter now after).map .due fun s => s
  | .removeSubscription subscription, state => (.nothing, state.removeSubscription subscription)
  | .dropPeer peer, state => (.nothing, state.dropPeer peer)
  | .clear, state => (.nothing, state.clear)

end FipsPubsubInvWantState

end NostrPubsub.Fips.TypeScript
