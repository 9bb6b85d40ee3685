import NostrPubsub.Core
import NostrPubsub.ToMathlib.Mealy
import NostrPubsub.ToMathlib.Window

/-!
# Local delivery to a subscription

`local_delivery.rs` of the FIPS client. Events for a subscription go into a bounded channel, and
into an overflow queue when the channel is full. The queue and what belongs to it is guarded by a
mutex. The consumer takes from the channel without it.

A `System` is one subscription with the code that runs on it: producers that call `enqueue` and
`close`, and the consumer that calls `recv` or `try_recv` again and again. A call that holds the
mutex is cut where it calls `try_send`, since a take of the consumer can fall between any two of
these calls.
-/

namespace NostrPubsub.Fips

/-! ## The channel -/

/-- A bounded `tokio::sync::mpsc` channel with one sender. -/
structure Channel (α : Type) where
  capacity : ℕ
  buffer : List α
  receiverDropped : Bool

/-- The result of `try_send`. -/
inductive Sent where
  | ok
  | full
  | closed
  deriving DecidableEq, Repr

/-- `Sender::try_send`. -/
def Channel.trySend {α : Type} (a : α) (channel : Channel α) : Sent × Channel α :=
  if channel.receiverDropped then (.closed, channel)
  else if channel.buffer.length < channel.capacity then
    (.ok, { channel with buffer := channel.buffer ++ [a] })
  else (.full, channel)

/-! ## The guarded state -/

/-- `SubscriptionDeliveryStatus`. -/
inductive SubscriptionDeliveryStatus where
  | active
  | lagged
  | closed
  deriving DecidableEq, Repr

/-- `FIPS_NOSTR_PUBSUB_MAX_SEEN_EVENT_IDS`. -/
@[irreducible]
def maxSeenEventIds : ℕ := 4096

variable {nostr : NostrCrate}

/-- The id of the event of a query result. -/
def eventKey (event : QueryEvent nostr) : String := event.event.event.id.toHex

variable (nostr) in
/-- `DeliveryState`. -/
structure DeliveryState where
  /-- `sender.is_some()`. -/
  senderOpen : Bool
  pending : List (QueryEvent nostr)
  pendingIds : Finset String
  deliveredIds : Finset String
  deliveredOrder : List String
  maximumPending : ℕ
  status : SubscriptionDeliveryStatus

namespace DeliveryState

/-- The state in `LocalDelivery::new`. -/
def new (maximumPending : ℕ) : DeliveryState nostr where
  senderOpen := true
  pending := []
  pendingIds := ∅
  deliveredIds := ∅
  deliveredOrder := []
  maximumPending
  status := .active

/-- `mark_delivered`. -/
def markDelivered (id : String) (state : DeliveryState nostr) : DeliveryState nostr :=
  let (order, ids) := keepLast maxSeenEventIds (state.deliveredOrder ++ [id])
    (insert id state.deliveredIds)
  { state with deliveredOrder := order, deliveredIds := ids }

/-- `close`. -/
def close (state : DeliveryState nostr) : DeliveryState nostr :=
  { state with
    status := if state.status = .active then .closed else state.status
    senderOpen := if state.pending = [] then false else state.senderOpen }

/-- The end of `refill`, after its loop. -/
def finishRefill (state : DeliveryState nostr) : DeliveryState nostr :=
  if state.status ≠ .active ∧ state.pending = [] then { state with senderOpen := false } else state

/-- One turn of the loop in `refill`. Tells whether the loop goes on. -/
def refillTurn (state : DeliveryState nostr) (channel : Channel (QueryEvent nostr)) :
    Bool × DeliveryState nostr × Channel (QueryEvent nostr) :=
  match state.pending with
  | [] => (false, state.finishRefill, channel)
  | event :: rest =>
    if state.senderOpen then
      match channel.trySend event with
      | (.ok, channel) =>
        let state := { state with
          pending := rest, pendingIds := state.pendingIds.erase (eventKey event) }
        (true, state.markDelivered (eventKey event), channel)
      | (.full, channel) => (false, state.finishRefill, channel)
      | (.closed, channel) =>
        let state := { state with pending := [], pendingIds := ∅ }
        (false, state.close.finishRefill, channel)
    else (false, state.finishRefill, channel)

/-- The checks of `enqueue` before its `refill`. -/
def Admits (event : QueryEvent nostr) (state : DeliveryState nostr) : Prop :=
  state.status = .active ∧ eventKey event ∉ state.deliveredIds ∧ eventKey event ∉ state.pendingIds

instance (event : QueryEvent nostr) (state : DeliveryState nostr) :
    Decidable (state.Admits event) :=
  inferInstanceAs (Decidable (_ ∧ _ ∧ _))

/-- `enqueue` from its `try_send` on. Tells what it returns. -/
def send (event : QueryEvent nostr) (state : DeliveryState nostr)
    (channel : Channel (QueryEvent nostr)) :
    Bool × DeliveryState nostr × Channel (QueryEvent nostr) :=
  if state.senderOpen then
    match channel.trySend event with
    | (.ok, channel) => (true, state.markDelivered (eventKey event), channel)
    | (.full, channel) =>
      if state.pending.length = state.maximumPending then
        (false, { state with status := .lagged }, channel)
      else
        (true, { state with
          pending := state.pending ++ [event]
          pendingIds := insert (eventKey event) state.pendingIds }, channel)
    | (.closed, channel) => (false, state.close, channel)
  else (false, state, channel)

end DeliveryState

/-! ## Producers and the consumer -/

variable (nostr) in
/-- Who holds the mutex, and where that call stands. -/
inductive Lock where
  | free
  /-- In the loop of `refill`: for the `enqueue` of an event, or for the consumer. -/
  | refilling (enqueued : Option (QueryEvent nostr))
  /-- Between the `refill` of an `enqueue` and its `try_send`. -/
  | sending (event : QueryEvent nostr)

/-- Where the consumer stands in `recv` or `try_recv`. -/
inductive Phase where
  /-- Before the first `refill`, or in it. -/
  | idle
  /-- Between the first `refill` and the take. -/
  | taking
  /-- Between the take and the end of the second `refill`. -/
  | taken
  deriving DecidableEq, Repr

variable (nostr) in
/-- One subscription, with what `enqueue` returned `true` for and what the consumer took so far. -/
structure System where
  delivery : DeliveryState nostr
  channel : Channel (QueryEvent nostr)
  lock : Lock nostr
  phase : Phase
  accepted : List (QueryEvent nostr)
  taken : List (QueryEvent nostr)

variable (nostr) in
/-- What can happen next. -/
inductive Action where
  /-- A producer calls `enqueue` and gets the mutex. -/
  | enqueue (event : QueryEvent nostr)
  /-- A producer calls `close`. -/
  | close
  /-- The holder of the mutex goes on to its next `try_send`, or to its end. -/
  | proceed
  /-- The consumer calls `refill` and gets the mutex. -/
  | refill
  /-- The consumer takes from the channel. -/
  | take
  /-- The application drops the receiver. -/
  | dropReceiver

namespace System

/-- A new subscription. -/
def new (capacity maximumPending : ℕ) : System nostr where
  delivery := DeliveryState.new maximumPending
  channel := ⟨capacity, [], false⟩
  lock := .free
  phase := .idle
  accepted := []
  taken := []

/-- After `refill` an `enqueue` goes on to its `try_send`, and the consumer to its take or to the
end of its call. -/
def afterRefill (s : System nostr) : Option (QueryEvent nostr) → System nostr
  | some event => { s with lock := .sending event }
  | none => { s with lock := .free, phase := if s.phase = .idle then .taking else .idle }

/-- The holder of the mutex goes on. -/
def proceed (s : System nostr) : System nostr :=
  match s.lock with
  | .free => s
  | .refilling enqueued =>
    let (goesOn, delivery, channel) := s.delivery.refillTurn s.channel
    if goesOn then { s with delivery, channel }
    else { s with delivery, channel }.afterRefill enqueued
  | .sending event =>
    let (accepts, delivery, channel) := s.delivery.send event s.channel
    { s with
      delivery, channel, lock := .free
      accepted := if accepts then s.accepted ++ [event] else s.accepted }

/-- The consumer takes the next item. On an empty channel `recv` waits, until the sender is gone;
`try_recv` returns with nothing. -/
def take (s : System nostr) : System nostr :=
  match s.channel.buffer with
  | [] => { s with phase := .taken }
  | event :: rest =>
    { s with
      phase := .taken, taken := s.taken ++ [event], channel := { s.channel with buffer := rest } }

/-- One action. Nothing happens where it is not possible: a call that needs the mutex waits for it,
and the consumer makes one call after the other. -/
def step (action : Action nostr) (s : System nostr) : Unit × System nostr :=
  match action, s.lock with
  | .enqueue event, .free =>
    if s.delivery.Admits event then ((), { s with lock := .refilling (some event) }) else ((), s)
  | .close, .free => ((), { s with delivery := s.delivery.close })
  | .proceed, _ => ((), s.proceed)
  | .refill, .free =>
    if s.phase = .taking ∨ s.channel.receiverDropped then ((), s)
    else ((), { s with lock := .refilling none })
  | .take, _ => if s.phase = .taking ∧ ¬ s.channel.receiverDropped then ((), s.take) else ((), s)
  | .dropReceiver, .refilling none => ((), s)
  | .dropReceiver, _ =>
    if s.phase = .idle then ((), { s with channel := { s.channel with receiverDropped := true } })
    else ((), s)
  | _, _ => ((), s)

/-- What entered the channel, in that order. -/
def admitted (s : System nostr) : List (QueryEvent nostr) := s.taken ++ s.channel.buffer

/-- An `enqueue` stands between its `refill` and its `try_send` while older events are pending. -/
def Overtaking (s : System nostr) : Prop :=
  match s.lock with
  | .sending _ => s.delivery.pending ≠ []
  | _ => False

instance (s : System nostr) : Decidable s.Overtaking := by
  unfold Overtaking
  split <;> infer_instance

/-- An action that is not a take at the wrong moment. -/
def Keeps (s : System nostr) : Action nostr → Prop
  | .take => ¬ s.Overtaking
  | _ => True

instance (s : System nostr) (action : Action nostr) : Decidable (s.Keeps action) := by
  unfold Keeps
  split <;> infer_instance

/-- The consumer took nothing while an `enqueue` stood between its `refill` and its `try_send` with
older events pending. -/
def Undisturbed : System nostr → List (Action nostr) → Prop
  | _, [] => True
  | s, action :: rest => s.Keeps action ∧ Undisturbed (step action s).2 rest

instance decidableUndisturbed (s : System nostr) (actions : List (Action nostr)) :
    Decidable (Undisturbed s actions) :=
  match actions with
  | [] => inferInstanceAs (Decidable True)
  | action :: rest =>
    have := decidableUndisturbed (step action s).2 rest
    inferInstanceAs (Decidable (_ ∧ _))

end System

end NostrPubsub.Fips
