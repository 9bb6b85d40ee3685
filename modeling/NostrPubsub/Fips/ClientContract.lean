import NostrPubsub.Fips.ClientParts

/-!
# What a client may do

The history of a client is what came to it from outside. `ClientSetup.contract` says what the client may
do after a history. An event goes to the application only if the policy let it pass and a subscription
asks for it. A frame goes to the driver only if the role of the client permits it, or if it closes or
repeats what the client asked for itself; and it says nothing that its peer did not ask for.
`ClientSetup.Holds` is the invariant of the shared state that carries this from one critical section to
the next.
-/

namespace NostrPubsub.Fips

open Threads

variable {nostr : NostrCrate}

/-! ## What the history says -/

namespace ClientSetup

variable (client : ClientSetup) (history : History nostr)

/-- The policy of the application, if there is one, let an event from a source pass. -/
def Admitted (event : VerifiedEvent nostr) (source : EventSource) : Prop :=
  client.hasEventPolicy = true →
    ∃ answer : Except PubsubError PolicyDecision,
      Entry.answered (Request.checkEvent event source) answer ∈ history ∧ admits answer = true

/-- The application subscribed, and these are the filters that were allowed. -/
def Opened (filters : List WireFilter) : Prop :=
  ∃ asked replayLocal, Entry.started (Input.subscribe asked replayLocal) ∈ history ∧
    client.checkFilters (subscribedFilters asked) = .ok () ∧
    filters = client.limitFilters (subscribedFilters asked)

/-- The application published a private envelope anonymously while the peer was connected. -/
def PublishedTo (eventId : EventId) (peer : String) : Prop :=
  ∃ (event : VerifiedEvent nostr) (timeoutMs : ℕ) (links : List ConnectedPeerLink),
    Entry.started (Input.publishAnonymous event timeoutMs) ∈ history ∧ event.event.id = eventId ∧
    validateEnvelope event.event = .ok () ∧
    Entry.answered Request.connectedPeerLinks (.ok links) ∈ history ∧
    peer ∈ links.map ConnectedPeerLink.npub

/-- A message of the peer came with a report of the transport. -/
def Received (peer : String) (message : FipsPubsubWireMessage nostr) : Prop :=
  ∃ (report : ClientReport) (frame : Frame), Entry.started (Input.wireReport report) ∈ history ∧
    (peer, frame) ∈ report.frames ∧ client.decode frame = .ok message

/-- The peer asked for an event under a subscription. -/
def Asks (peer subscriptionId : String) (event : VerifiedEvent nostr) : Prop :=
  ∃ filters, client.Received history peer (.req subscriptionId filters) ∧
    client.wants filters event = true

/-- The peer announced an event, by the text of its id. -/
def Announced (id peer : String) : Prop :=
  ∃ subscriptionIds eventId eventKind payloadBytes hopLimit,
    client.Received history peer (.inv subscriptionIds eventId eventKind payloadBytes hopLimit) ∧
      eventId.toHex = id

/-- Some peer announced an event with a hop limit. -/
def AnnouncedWithin (id : String) (hops : ℕ) : Prop :=
  ∃ peer subscriptionIds eventId eventKind payloadBytes hopLimit,
    client.Received history peer (.inv subscriptionIds eventId eventKind payloadBytes hopLimit) ∧
      eventId.toHex = id ∧ hopLimit.toNat = hops

/-- The event starts from this client: the application published it, a publisher pushed it, or it is
served from the store. -/
inductive Originates (event : VerifiedEvent nostr) : Prop
  | published {source : EventSource}
      (hstarted : Entry.started (Input.publish event source) ∈ history)
  | pushed {peer : String} (hreceived : client.Received history peer (.event none event))
  | stored {source limit : ℕ} {filters : List Filter} {report : QueryReport nostr}
      (hqueried : Entry.answered (Request.query source filters limit) report ∈ history)
      (hfound : event ∈ report.events.map QueryEvent.event)

/-- The event starts from this client, or a peer sent it. -/
def Known (event : VerifiedEvent nostr) : Prop :=
  client.Originates history event ∨
    ∃ peer subscriptionId, client.Received history peer (.event (some subscriptionId) event)

/-- An event that came in, and that the policy let pass from some source. -/
def Passed (event : VerifiedEvent nostr) : Prop :=
  client.Known history event ∧ ∃ source, client.Admitted history event source

/-- An event that came in, with the source that a client keeps for it. What a receiver announces it
keeps under a name of its own. -/
def Sourced (event : VerifiedEvent nostr) (source : EventSource) : Prop :=
  client.Known history event ∧ (client.Admitted history event source ∨
    (∃ authors, client.role = .receiver authors) ∧ source.id = "approved-public-replay" ∧
      ∃ original, client.Admitted history event original)

/-- How far an event may still go: all the way from where it starts, else one hop less than it was
announced with. -/
def Budget (event : VerifiedEvent nostr) (hopLimit : UInt8) : Prop :=
  hopLimit = client.options.maxHops ∧ client.Originates history event ∨
    client.AnnouncedWithin history event.event.id.toHex (hopLimit.toNat + 1)

/-- What a message to a peer answers. -/
inductive Justified (peer : String) : FipsPubsubWireMessage nostr → Prop
  | req {key : String} {filters : List WireFilter} (hopened : client.Opened history filters) :
      Justified peer (.req key filters)
  | publication {event : VerifiedEvent nostr}
      (hpublished : PublishedTo history event.event.id peer) : Justified peer (.event none event)
  | answer {subscriptionId : String} {event : VerifiedEvent nostr}
      (hwanted : client.Received history peer (.want event.event.id))
      (hasks : client.Asks history peer subscriptionId event)
      (hpassed : client.Passed history event) : Justified peer (.event (some subscriptionId) event)
  | receipt {event : VerifiedEvent nostr} {accepted : Bool} {text : String}
      (hreceived : client.Received history peer (.event none event))
      (haccepted : accepted = true → client.Admitted history event (.ofFipsEndpoint peer)) :
      Justified peer (.ok event.event.id accepted text)
  | inv {subscriptionIds : List String} {event : VerifiedEvent nostr} {payloadBytes : UInt32}
      {hopLimit : UInt8} (hasks : ∀ id ∈ subscriptionIds, client.Asks history peer id event)
      (hpassed : client.Passed history event) (hbytes : eventPayloadBytes event = .ok payloadBytes)
      (hbudget : client.Budget history event hopLimit) :
      Justified peer (.inv subscriptionIds event.event.id (.ofNat event.event.kind) payloadBytes
        hopLimit)
  | want {eventId : EventId} (hannounced : client.Announced history eventId.toHex peer) :
      Justified peer (.want eventId)

/-- The role of the client permits a message to a peer. -/
inductive Permitted (peer : String) : FipsPubsubWireMessage nostr → Prop
  | full {message : FipsPubsubWireMessage nostr} (hrole : client.role = .full) :
      Permitted peer message
  | req {subscriptionId : String} {filters : List WireFilter}
      (hfilters : client.role.validateFilters client.advert filters = .ok ()) :
      Permitted peer (.req subscriptionId filters)
  | close {subscriptionId : String} : Permitted peer (.close subscriptionId)
  | want {eventId : EventId} (hrole : client.role ≠ .publisher) : Permitted peer (.want eventId)
  | event {subscriptionId : Option String} {event : VerifiedEvent nostr}
      (hexport : client.role.canExport event = true) : Permitted peer (.event subscriptionId event)
  | inv {subscriptionIds : List String} {event : VerifiedEvent nostr} {eventKind : UInt16}
      {payloadBytes : UInt32} {hopLimit : UInt8} (hkind : event.event.kind = eventKind.toNat)
      (hexport : client.role.canExport event = true) (hpassed : client.Passed history event) :
      Permitted peer (.inv subscriptionIds event.event.id eventKind payloadBytes hopLimit)
  | publication {event : VerifiedEvent nostr} (hrole : client.role = .publisher)
      (hpublished : PublishedTo history event.event.id peer) : Permitted peer (.event none event)

/-- Why a frame may go to a peer. -/
inductive Explained (peer : String) (frame : Frame) : Prop
  /-- It says what the peer asked for, and was checked against the role. -/
  | guarded {said message : FipsPubsubWireMessage nostr} (hencode : client.encode said = .ok frame)
      (hjustified : client.Justified history peer said) (hdecode : client.decode frame = .ok message)
      (hpermitted : client.Permitted history peer message)
  /-- It closes a subscription. -/
  | closed {key : String} (hencode : @encode nostr client (.close key) = .ok frame)
  /-- It repeats a subscription to a peer that connected. -/
  | replayed {key : String} {filters : List WireFilter}
      (hencode : @encode nostr client (.req key filters) = .ok frame)
      (hopened : client.Opened history filters)
  /-- It asks once more for an event that the peer announced. -/
  | retried {id : String} {eventId : EventId} (hannounced : client.Announced history id peer)
      (hid : client.json.eventIdFromHex id = .ok eventId)
      (hencode : @encode nostr client (.want eventId) = .ok frame)

variable {client history} {later : History nostr}

/-- An admission stands, whatever comes later. -/
theorem Admitted.mono {event : VerifiedEvent nostr} {source : EventSource}
    (h : client.Admitted history event source) (hlater : history <+: later) :
    client.Admitted later event source := by
  intro hpolicy
  obtain ⟨answer, hmem, hadmits⟩ := h hpolicy
  exact ⟨answer, hlater.subset hmem, hadmits⟩

/-- So does the call that opened a subscription. -/
theorem Opened.mono {filters : List WireFilter} (h : client.Opened history filters)
    (hlater : history <+: later) : client.Opened later filters := by
  obtain ⟨asked, replayLocal, hmem, hcheck, hfilters⟩ := h
  exact ⟨asked, replayLocal, hlater.subset hmem, hcheck, hfilters⟩

/-- So does the call that published to a peer. -/
theorem PublishedTo.mono {eventId : EventId} {peer : String} (h : PublishedTo history eventId peer)
    (hlater : history <+: later) : PublishedTo later eventId peer := by
  obtain ⟨event, timeoutMs, links, hmem, hid, hvalid, hlinks, hpeer⟩ := h
  exact ⟨event, timeoutMs, links, hlater.subset hmem, hid, hvalid, hlater.subset hlinks, hpeer⟩

/-- What was received stays received. -/
theorem Received.mono {peer : String} {message : FipsPubsubWireMessage nostr}
    (h : client.Received history peer message) (hlater : history <+: later) :
    client.Received later peer message := by
  obtain ⟨report, frame, hstarted, hframe, hdecode⟩ := h
  exact ⟨report, frame, hlater.subset hstarted, hframe, hdecode⟩

/-- A peer that asked for an event has asked for it from then on. -/
theorem Asks.mono {peer subscriptionId : String} {event : VerifiedEvent nostr}
    (h : client.Asks history peer subscriptionId event) (hlater : history <+: later) :
    client.Asks later peer subscriptionId event := by
  obtain ⟨filters, hreceived, hwants⟩ := h
  exact ⟨filters, hreceived.mono hlater, hwants⟩

/-- A peer that announced an event has announced it from then on. -/
theorem Announced.mono {id peer : String} (h : client.Announced history id peer)
    (hlater : history <+: later) : client.Announced later id peer := by
  obtain ⟨subscriptionIds, eventId, eventKind, payloadBytes, hopLimit, hreceived, hid⟩ := h
  exact ⟨subscriptionIds, eventId, eventKind, payloadBytes, hopLimit, hreceived.mono hlater, hid⟩

/-- The same, with the hops of the announcement. -/
theorem AnnouncedWithin.mono {id : String} {hops : ℕ} (h : client.AnnouncedWithin history id hops)
    (hlater : history <+: later) : client.AnnouncedWithin later id hops := by
  obtain ⟨peer, ids, eventId, eventKind, payloadBytes, hopLimit, hreceived, hid, hhops⟩ := h
  exact ⟨peer, ids, eventId, eventKind, payloadBytes, hopLimit, hreceived.mono hlater, hid, hhops⟩

/-- An event that originated here has done so from then on. -/
theorem Originates.mono {event : VerifiedEvent nostr} (h : client.Originates history event)
    (hlater : history <+: later) : client.Originates later event := by
  cases h with
  | published hstarted => exact .published (hlater.subset hstarted)
  | pushed hreceived => exact .pushed (hreceived.mono hlater)
  | stored hqueried hfound => exact .stored (hlater.subset hqueried) hfound

/-- An event that is known stays known. -/
theorem Known.mono {event : VerifiedEvent nostr} (h : client.Known history event)
    (hlater : history <+: later) : client.Known later event := by
  rcases h with horiginates | ⟨peer, subscriptionId, hreceived⟩
  · exact .inl (horiginates.mono hlater)
  · exact .inr ⟨peer, subscriptionId, hreceived.mono hlater⟩

/-- An event that is received is known: it was pushed, or it answers a WANT. -/
theorem Received.known {peer : String} {subscriptionId : Option String} {event : VerifiedEvent nostr}
    (h : client.Received history peer (.event subscriptionId event)) : client.Known history event := by
  cases subscriptionId with
  | none => exact .inl (.pushed h)
  | some subscriptionId => exact .inr ⟨peer, subscriptionId, h⟩

/-- An event that passed the policy has passed it from then on. -/
theorem Passed.mono {event : VerifiedEvent nostr} (h : client.Passed history event)
    (hlater : history <+: later) : client.Passed later event := by
  obtain ⟨hknown, source, hadmitted⟩ := h
  exact ⟨hknown.mono hlater, source, hadmitted.mono hlater⟩

/-- The source of an event stays explained. -/
theorem Sourced.mono {event : VerifiedEvent nostr} {source : EventSource}
    (h : client.Sourced history event source) (hlater : history <+: later) :
    client.Sourced later event source := by
  obtain ⟨hknown, hadmitted | ⟨hrole, hname, original, hadmitted⟩⟩ := h
  · exact ⟨hknown.mono hlater, .inl (hadmitted.mono hlater)⟩
  · exact ⟨hknown.mono hlater, .inr ⟨hrole, hname, original, hadmitted.mono hlater⟩⟩

/-- An event with an explained source has passed the policy. -/
theorem Sourced.passed {event : VerifiedEvent nostr} {source : EventSource}
    (h : client.Sourced history event source) : client.Passed history event := by
  obtain ⟨hknown, hadmitted | ⟨-, -, original, hadmitted⟩⟩ := h
  · exact ⟨hknown, source, hadmitted⟩
  · exact ⟨hknown, original, hadmitted⟩

/-- The hops of an event stay within the budget. -/
theorem Budget.mono {event : VerifiedEvent nostr} {hopLimit : UInt8}
    (h : client.Budget history event hopLimit) (hlater : history <+: later) :
    client.Budget later event hopLimit := by
  rcases h with ⟨hfull, horiginates⟩ | hannounced
  · exact .inl ⟨hfull, horiginates.mono hlater⟩
  · exact .inr (hannounced.mono hlater)

/-- What is justified once stays justified. -/
theorem Justified.mono {peer : String} {message : FipsPubsubWireMessage nostr}
    (h : client.Justified history peer message) (hlater : history <+: later) :
    client.Justified later peer message := by
  cases h with
  | req hopened => exact .req (hopened.mono hlater)
  | publication hpublished => exact .publication (hpublished.mono hlater)
  | answer hwanted hasks hpassed =>
    exact .answer (hwanted.mono hlater) (hasks.mono hlater) (hpassed.mono hlater)
  | receipt hreceived haccepted =>
    exact .receipt (hreceived.mono hlater) fun htrue => (haccepted htrue).mono hlater
  | inv hasks hpassed hbytes hbudget =>
    exact .inv (fun id hid => (hasks id hid).mono hlater) (hpassed.mono hlater) hbytes
      (hbudget.mono hlater)
  | want hannounced => exact .want (hannounced.mono hlater)

/-- What the role permits once stays permitted. -/
theorem Permitted.mono {peer : String} {message : FipsPubsubWireMessage nostr}
    (h : client.Permitted history peer message) (hlater : history <+: later) :
    client.Permitted later peer message := by
  cases h with
  | full hrole => exact .full hrole
  | req hfilters => exact .req hfilters
  | close => exact .close
  | want hrole => exact .want hrole
  | event hexport => exact .event hexport
  | inv hkind hexport hpassed => exact .inv hkind hexport (hpassed.mono hlater)
  | publication hrole hpublished => exact .publication hrole (hpublished.mono hlater)

/-- A frame that was explained when it was queued is explained when the driver gets it. -/
theorem Explained.mono {peer : String} {frame : Frame} (h : client.Explained history peer frame)
    (hlater : history <+: later) : client.Explained later peer frame := by
  cases h with
  | guarded hencode hjustified hdecode hpermitted =>
    exact .guarded hencode (hjustified.mono hlater) hdecode (hpermitted.mono hlater)
  | closed hencode => exact .closed hencode
  | replayed hencode hopened => exact .replayed hencode (hopened.mono hlater)
  | retried hannounced hid hencode => exact .retried (hannounced.mono hlater) hid hencode

/-! ## The contract -/

variable (client history) in
/-- What holds of the shared state after a history. -/
structure Holds (s : ClientInner nostr) : Prop where
  cached : ∀ cached ∈ s.recentEvents.entries, client.Sourced history cached.event cached.source
  budgeted : ∀ cached ∈ s.recentEvents.entries,
    cached.hopLimit = 0 ∨ client.Budget history cached.event cached.hopLimit
  opened : ∀ key active, s.subscriptions.lookup key = some active →
    client.Opened history active.filters
  -- a delivery may outlive its subscription, so it has filters of its own
  waiting : ∀ key delivery, s.deliveries.lookup key = some delivery →
    ∃ filters, client.Opened history filters ∧
      (∀ active, s.subscriptions.lookup key = some active → active.filters = filters) ∧
      ∀ found ∈ delivery.waiting, client.Sourced history found.event found.source ∧
        client.wants filters found.event = true
  published : ∀ eventId publication, s.publications.lookup eventId = some publication →
    ∀ peer ∈ publication.providers, PublishedTo history eventId peer
  -- a frame is explained when the command is queued, and stays so until the driver gets it
  commanded : ∀ peer frame, TransportCommand.send peer frame ∈ s.commands →
    client.Explained history peer frame
  asked : ∀ peer subscription, s.peerSubscriptions.Lists peer subscription →
    ∃ filters : List WireFilter,
      client.Received history peer (.req subscription.subscriptionId filters) ∧
        subscription.filters = client.toFilters filters
  -- the store is asked for a single event only on behalf of a WANT
  replaying : ∀ request ∈ s.replays, ∀ eventId, request.query = .event eventId →
    client.Received history request.peer (.want eventId)
  tracked : s.pendingWants.Tracks (client.Announced history) (client.AnnouncedWithin history)

variable (client history) in
/-- What a client may ask for after a history. -/
def May : Request nostr → Prop
  | .queueFrame peer frame => client.Explained history peer frame
  | .handOver _ found => client.Sourced history found.event found.source ∧
      ∃ filters, client.Opened history filters ∧ client.wants filters found.event = true
  | _ => True

/-- The state stays in order while other threads add to the history. -/
theorem Holds.mono {s : ClientInner nostr} (h : client.Holds history s) (hlater : history <+: later) :
    client.Holds later s where
  cached cached hcached := (h.cached cached hcached).mono hlater
  opened key active hactive := (h.opened key active hactive).mono hlater
  waiting key delivery hdelivery := by
    obtain ⟨filters, hopened, hsame, hfound⟩ := h.waiting key delivery hdelivery
    refine ⟨filters, hopened.mono hlater, hsame, fun found hmem => ?_⟩
    exact ⟨(hfound found hmem).1.mono hlater, (hfound found hmem).2⟩
  published eventId publication hlookup peer hpeer :=
    (h.published eventId publication hlookup peer hpeer).mono hlater
  commanded peer frame hmem := (h.commanded peer frame hmem).mono hlater
  budgeted cached hcached := (h.budgeted cached hcached).imp_right fun hbudget => hbudget.mono hlater
  asked peer subscription hlists := by
    obtain ⟨filters, hreceived, hfilters⟩ := h.asked peer subscription hlists
    exact ⟨filters, hreceived.mono hlater, hfilters⟩
  replaying request hrequest eventId hquery :=
    (h.replaying request hrequest eventId hquery).mono hlater
  tracked id pending hlookup := by
    obtain ⟨hproviders, hhops⟩ := h.tracked id pending hlookup
    exact ⟨fun provider hprovider => (hproviders provider hprovider).mono hlater, hhops.mono hlater⟩

/-- What a thread may ask for, it may ask for later too. -/
theorem May.mono {request : Request nostr} (h : client.May history request)
    (hlater : history <+: later) : client.May later request := by
  cases request with
  | queueFrame peer frame => exact Explained.mono h hlater
  | handOver key found =>
    obtain ⟨hsourced, filters, hopened, hwants⟩ := h
    exact ⟨hsourced.mono hlater, filters, hopened.mono hlater, hwants⟩
  | _ => trivial

variable (client) in
/-- The contract of a client. -/
def contract : Contract (ClientInner nostr) (Input nostr) (@Request.Answer nostr) where
  Holds := client.Holds
  May := client.May
  mono hlater h := h.mono hlater

/-- A new client holds nothing that has to be explained. -/
theorem holds_start (client : ClientSetup) : client.Holds [] (client.start : ClientInner nostr) where
  cached := by
    intro cached hcached
    cases hcached
  opened := by
    intro key active hactive
    simp [start] at hactive
  waiting := by
    intro key delivery hdelivery
    simp [start] at hdelivery
  published := by
    intro eventId publication hlookup
    simp [start] at hlookup
  commanded := by
    intro peer frame hmem
    cases hmem
  budgeted := by
    intro cached hcached
    cases hcached
  asked := by
    rintro peer subscription ⟨set, hset, -⟩
    simp [start, PubsubPeerSubscriptionStore.new] at hset
  replaying := by
    intro request hrequest
    cases hrequest
  tracked := by
    intro id pending hlookup
    simp [start, newPendingWants, PendingWants.new] at hlookup

/-! ## Steps that keep the invariant -/

/-- What a step leaves as it was, where the invariant looks. -/
structure Untouched (s s' : ClientInner nostr) : Prop where
  recentEvents : s'.recentEvents = s.recentEvents
  subscriptions : s'.subscriptions = s.subscriptions
  deliveries : s'.deliveries = s.deliveries
  publications : s'.publications = s.publications
  commands : s'.commands = s.commands
  peerSubscriptions : s'.peerSubscriptions = s.peerSubscriptions
  replays : s'.replays = s.replays
  pendingWants : s'.pendingWants = s.pendingWants

/-- A change of the other fields leaves the invariant alone. -/
theorem Holds.untouched {s s' : ClientInner nostr} (h : client.Holds history s)
    (hs : Untouched s s') : client.Holds history s' where
  cached := by
    rw [hs.recentEvents]
    exact h.cached
  opened := by
    rw [hs.subscriptions]
    exact h.opened
  waiting := by
    rw [hs.subscriptions, hs.deliveries]
    exact h.waiting
  published := by
    rw [hs.publications]
    exact h.published
  commanded := by
    rw [hs.commands]
    exact h.commanded
  budgeted := by
    rw [hs.recentEvents]
    exact h.budgeted
  asked := by
    rw [hs.peerSubscriptions]
    exact h.asked
  replaying := by
    rw [hs.replays]
    exact h.replaying
  tracked := by
    rw [hs.pendingWants]
    exact h.tracked

/-- The cache gets bodies that the policy let pass, with their hop limits. -/
theorem Holds.cache {s : ClientInner nostr} (h : client.Holds history s) {recent : RecentEvents nostr}
    (hrecent : ∀ cached ∈ recent.entries, cached ∈ s.recentEvents.entries ∨
      client.Sourced history cached.event cached.source ∧
        (cached.hopLimit = 0 ∨ client.Budget history cached.event cached.hopLimit)) :
    client.Holds history { s with recentEvents := recent } :=
  { h with
    cached := fun cached hcached => (hrecent cached hcached).elim (h.cached cached) And.left
    budgeted := fun cached hcached => (hrecent cached hcached).elim (h.budgeted cached) And.right }

/-- The pending requests go through a call. -/
theorem Holds.pend {s : ClientInner nostr} (h : client.Holds history s)
    (iter : Finmap.Enumeration fun _ : String => PendingInventory) (op : PendingWants.Op)
    (hop : ∀ announcement, op = .insert announcement →
      client.Announced history announcement.eventId announcement.peerNpub ∧
        client.AnnouncedWithin history announcement.eventId announcement.hopLimit) :
    client.Holds history { s with pendingWants := (PendingWants.step iter op s.pendingWants).2 } :=
  { h with tracked := h.tracked.step hop }

/-- Subscriptions of peers are dropped. -/
theorem Holds.unask {s : ClientInner nostr} (h : client.Holds history s)
    {store : PubsubPeerSubscriptionStore}
    (hstore : ∀ peer subscription, store.Lists peer subscription →
      s.peerSubscriptions.Lists peer subscription) :
    client.Holds history { s with peerSubscriptions := store } :=
  { h with asked := fun peer subscription hlists => h.asked peer subscription (hstore _ _ hlists) }

/-- A delivery is changed, and nothing waits that did not wait before, or was not asked for. -/
theorem Holds.deliver {s : ClientInner nostr} (h : client.Holds history s) {key : String}
    {delivery delivery' : LocalDelivery nostr} (hlookup : s.deliveries.lookup key = some delivery)
    (hwaiting : ∀ found ∈ delivery'.waiting, found ∈ delivery.waiting ∨
      client.Sourced history found.event found.source ∧
        ∃ active, s.subscriptions.lookup key = some active ∧
          client.wants active.filters found.event = true) :
    client.Holds history { s with deliveries := s.deliveries.insert key delivery' } := by
  refine { h with waiting := fun other changed hchanged => ?_ }
  rcases Finmap.lookup_insert_eq_some.mp hchanged with ⟨rfl, rfl⟩ | ⟨-, hother⟩
  · obtain ⟨filters, hopened, hsame, hfound⟩ := h.waiting other delivery hlookup
    refine ⟨filters, hopened, hsame, fun found hmem => ?_⟩
    rcases hwaiting found hmem with hold | ⟨hsourced, active, hactive, hwants⟩
    · exact hfound found hold
    · -- the subscription that the event matched has the filters of the delivery
      rw [hsame active hactive] at hwants
      exact ⟨hsourced, hwants⟩
  · exact h.waiting other changed hother

/-- Subscriptions are dropped, or keep their filters. -/
theorem Holds.resubscribe {s : ClientInner nostr} (h : client.Holds history s)
    {subscriptions : Table ActiveSubscription}
    (hsame : ∀ key active, subscriptions.lookup key = some active →
      ∃ old, s.subscriptions.lookup key = some old ∧ active.filters = old.filters) :
    client.Holds history { s with subscriptions } := by
  refine { h with opened := fun key active hactive => ?_, waiting := fun key delivery hdelivery => ?_ }
  · obtain ⟨old, hold, hfilters⟩ := hsame key active hactive
    rw [hfilters]
    exact h.opened key old hold
  · obtain ⟨filters, hopened, hagree, hfound⟩ := h.waiting key delivery hdelivery
    refine ⟨filters, hopened, fun active hactive => ?_, hfound⟩
    obtain ⟨old, hold, hfilters⟩ := hsame key active hactive
    rw [hfilters]
    exact hagree old hold

/-! ## Threads that keep the contract -/

variable {α β : Type}

variable (client) in
/-- The thread keeps the contract of the client after the history, and `post` holds at its end. -/
abbrev Conforms (post : History nostr → α → Prop) (thread : ClientThread nostr α)
    (history : History nostr) : Prop :=
  Thread.Safe (client.contract : Contract (ClientInner nostr) _ _) post thread history

variable (client) in
/-- The thread keeps the contract of the client after the history. -/
abbrev Runs (thread : ClientThread nostr α) (history : History nostr) : Prop :=
  client.Conforms (fun _ _ => True) thread history

/-- A thread that is done breaks nothing. -/
theorem runs_pure {a : α} : client.Runs (Pure.pure a) history :=
  Thread.Safe.pure fun _ _ => trivial

/-- One thread after another, whatever the first ends with. -/
theorem runs_bind {thread : ClientThread nostr α} {f : α → ClientThread nostr β}
    (h : client.Runs thread history)
    (hf : ∀ later a, history <+: later → client.Runs (f a) later) :
    client.Runs (thread >>= f) history :=
  Thread.Safe.bind h fun later a hlater _ => hf later a hlater

/-- A loop keeps the contract if every turn does, at whatever history it starts. -/
theorem runs_each {list : List α} {f : α → ClientThread nostr Unit}
    (h : ∀ a ∈ list, ∀ later, history <+: later → client.Runs (f a) later) :
    client.Runs (Thread.each list f) history :=
  Thread.Safe.each (fun _ _ => trivial) trivial fun a ha later hlater _ => h a ha later hlater

/-- An atomic step keeps the contract if it keeps the invariant of every later state. -/
theorem runs_atomic {f : ClientInner nostr → α × ClientInner nostr}
    (h : ∀ later s, history <+: later → client.Holds later s → client.Holds later (f s).2) :
    client.Runs (Thread.atomic f) history :=
  Thread.Safe.atomic fun later s hlater hs => ⟨h later s hlater hs, fun _ _ => trivial⟩

/-- The same for a step that returns nothing. -/
theorem runs_modify {f : ClientInner nostr → ClientInner nostr}
    (h : ∀ later s, history <+: later → client.Holds later s → client.Holds later (f s)) :
    client.Runs (Thread.modify f) history :=
  Thread.Safe.modify h fun _ _ => trivial

/-- A critical section that leaves the fields of the invariant alone. -/
theorem runs_untouched {f : ClientInner nostr → α × ClientInner nostr}
    (h : ∀ s, Untouched s (f s).2) : client.Runs (Thread.atomic f) history :=
  runs_atomic fun _ s _ hs => hs.untouched (h s)

/-- Reading breaks nothing. -/
theorem runs_read {f : ClientInner nostr → α} : client.Runs (Thread.read f) history :=
  runs_atomic fun _ _ _ hs => hs

/-- A request that may be made at any time. -/
theorem runs_request {r : Request nostr} (h : ∀ later, client.May later r) :
    client.Runs (Thread.request r) history :=
  Thread.Safe.request (fun later _ => h later) fun _ _ _ _ _ => trivial

end ClientSetup

end NostrPubsub.Fips
