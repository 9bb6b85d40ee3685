import NostrPubsub.Fips.ClientOptions
import NostrPubsub.ToMathlib.Finmap
import NostrPubsub.ToMathlib.Mealy

/-!
# Anonymous publication

`anonymous_publication.rs` of the FIPS client. An event is sent to every selected provider, and the
publication is pending until a provider accepts it or all of them rejected it.

`Publishing` is the call `publish_inner` with the receipts that are handled while it runs: they
arrive on the transport task, so a receipt can be handled between any two of its sends.
-/

namespace NostrPubsub.Fips

/-- `storage_error`. -/
def storageError (operation error : String) : PubsubError := .storage s!"{operation}: {error}"

/-! ## Pending publications -/

/-- `FipsRemotePublication`. -/
structure FipsRemotePublication where
  eventId : EventId
  provider : String
  deriving DecidableEq

/-- What a publication ends with. -/
abbrev PublicationResult := Except PubsubError FipsRemotePublication

/-- `PendingPublication`. -/
structure PendingPublication where
  providers : Finset String
  /-- `reply.is_some()`. -/
  reply : Bool
  deriving DecidableEq

/-- The pending publications of a client. -/
abbrev Publications := Finmap fun _ : EventId => PendingPublication

/-- The error when all providers rejected an event, with the message of the last one. -/
def rejection (message : String) : PubsubError :=
  .storage s!"provider rejected anonymous publication: {message}"

/-- `handle_publication_receipt`. Returns what it sends to the caller that waits. -/
def handlePublicationReceipt (peer : String) (eventId : EventId) (accepted : Bool)
    (message : String) (pending : Publications) : Option PublicationResult × Publications :=
  match pending.lookup eventId with
  | none => (none, pending)
  | some operation =>
    if peer ∉ operation.providers then (none, pending)
    else
      let providers := operation.providers.erase peer
      if accepted ∨ providers = ∅ then
        let result : PublicationResult :=
          if accepted then .ok ⟨eventId, peer⟩ else .error (rejection message)
        (if operation.reply then some result else none, pending.erase eventId)
      else (none, pending.insert eventId { operation with providers })

/-- The check of `validate_outbound` for an event that a publisher sends. -/
def maySendPublication (eventId : EventId) (peer : String) (pending : Publications) : Bool :=
  (pending.lookup eventId).any fun publication => decide (peer ∈ publication.providers)

/-- `is_private`. -/
def isPrivate (kind : ℕ) : Bool := kind = 1059 ∨ kind = 1060 ∨ kind = 21111

/-- `u8::is_ascii_hexdigit`, of a byte of a text. -/
def isAsciiHexDigit (c : Char) : Bool :=
  ('0' ≤ c ∧ c ≤ '9') ∨ ('a' ≤ c ∧ c ≤ 'f') ∨ ('A' ≤ c ∧ c ≤ 'F')

/-- `validate_envelope`: a private event for exactly one recipient. -/
def validateEnvelope (event : Event) : Except PubsubError Unit :=
  let recipients := event.tags.filter fun tag => tag.head? = some "p"
  let recipientOk : Bool := match recipients with
    | [[_, recipient]] => recipient.utf8ByteSize == 64 && recipient.toList.all isAsciiHexDigit
    | _ => false
  let v2 := event.tags.filter fun tag => tag.head? = some "v"
  let version2 : Bool := match v2 with
    | [[_, version]] => version == "2"
    | _ => false
  if ¬ isPrivate event.kind ∨ ¬ recipientOk ∨ (event.kind = 1060 ∧ ¬ version2) then
    .error (invalidOption "anonymous publisher requires one recipient-bound private envelope")
  else .ok ()

/-! ## One publication -/

/-- A receipt of a provider: the peer it came from and what its `OK` frame says. -/
structure Receipt where
  peer : String
  eventId : EventId
  accepted : Bool
  message : String
  deriving DecidableEq

/-- `publish_inner` while it sends and waits. -/
structure Publishing where
  publications : Publications
  /-- The providers that are still to be sent to, in the order of the loop. -/
  unsent : List String
  /-- What was sent on the `oneshot` channel. -/
  response : Option PublicationResult
  /-- What `publish_inner` returned. -/
  returned : Option PublicationResult
  /-- The time is up. -/
  timedOut : Bool
  /-- The receipts that were handled before the time was up. -/
  receipts : List Receipt

/-- What can happen next. -/
inductive PublishAction where
  /-- The next `send_frame` of the loop, and what the transport queue answers if it gets there. -/
  | send (queued : Except String Unit)
  /-- The transport task handles a receipt. -/
  | receipt (receipt : Receipt)
  /-- The timeout after the loop. -/
  | timeout

namespace Publishing

variable (eventId : EventId)

/-- `publish_inner` before its loop. -/
def start (peers : List String) : Publishing where
  publications := (∅ : Publications).insert eventId ⟨peers.toFinset, true⟩
  unsent := peers
  response := none
  returned := none
  timedOut := false
  receipts := []

/-- `publish_inner` up to its loop, with what its caller and its environment give it. -/
def begin (nostr : NostrCrate) (event : VerifiedEvent nostr) (timeoutMs : ℕ)
    (peers : Except PubsubError (List String)) (frame : Except PubsubError Unit) :
    Except PubsubError Publishing := do
  validateEnvelope event.event
  if timeoutMs = 0 then
    throw (invalidOption "publication timeout must be positive")
  let peers ← peers
  if peers = [] then
    throw (invalidOption "anonymous publisher has no selected provider")
  frame
  return start event.event.id peers

/-- The frame is not allowed. -/
def notAllowed : PubsubError :=
  invalidOption "outbound frame is not allowed on this FIPS privacy role"

/-- The next turn of the loop. An error of `send_frame` ends the call. -/
def sendNext (queued : Except String Unit) (s : Publishing) : Publishing :=
  match s.returned, s.unsent with
  | none, peer :: rest =>
    if maySendPublication eventId peer s.publications then
      match queued with
      | .ok () => { s with unsent := rest }
      | .error error =>
        { s with
          returned := some (.error (storageError "queue TCP/FIPS Nostr pubsub frame" error)) }
    else { s with returned := some (.error notAllowed) }
  | _, _ => s

/-- After the loop the call returns what is on the channel as soon as it is there. -/
def settle (s : Publishing) : Publishing :=
  if s.unsent = [] ∧ s.returned = none then { s with returned := s.response } else s

/-- A receipt is handled. -/
def handle (receipt : Receipt) (s : Publishing) : Publishing :=
  let (sent, publications) := handlePublicationReceipt receipt.peer receipt.eventId
    receipt.accepted receipt.message s.publications
  { s with
    publications
    response := match sent with
      | some result => some result
      | none => s.response
    receipts := if s.timedOut then s.receipts else s.receipts ++ [receipt] }

/-- The time is up. It runs from the end of the loop on. -/
def expire (s : Publishing) : Publishing :=
  if s.unsent = [] then
    { s with
      timedOut := true
      returned := match s.returned with
        | some result => some result
        | none => some (.error (.storage "anonymous provider receipt timed out")) }
  else s

/-- One action. -/
def step (action : PublishAction) (s : Publishing) : Unit × Publishing :=
  match action with
  | .send queued => ((), (s.sendNext eventId queued).settle)
  | .receipt receipt => ((), (s.handle receipt).settle)
  | .timeout => ((), s.expire)

/-- `publish_inner` after a run. -/
def after (peers : List String) (actions : List PublishAction) : Publishing :=
  Mealy.after (step eventId) (start eventId peers) actions

end Publishing

end NostrPubsub.Fips
