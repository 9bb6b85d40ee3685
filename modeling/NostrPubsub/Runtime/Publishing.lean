import NostrPubsub.Runtime.EventStore

/-!
# Publications of the TypeScript runtime

`publish`, `publishOnce` and `retryPending` of `ts/packages/nostr-pubsub/src/runtime.ts` over the
outbox of the store. A publication runs from one `await` to the next; between them anything else may
run, so its state says which `await` it is at. What the relays and sources answer and whether the
local admission takes the event are inputs.

The outbox has one entry for each event, and a publication that is under way is shared with the
callers of the same event and options.
-/

namespace NostrPubsub.Runtime

/-! ## Options and targets -/

/-- A property of `RuntimePublishOptions`. -/
inductive PublishOption where
  | relays (urls : List String)
  | sources (ids : List String)
  | requireAck (value : Bool)
  | localEcho (value : Bool)
  | queue (value : Bool)
  deriving DecidableEq

/-- `RuntimePublishOptions`: the properties that are defined, in the order in which they were set.
`JSON.stringify` keeps that order. -/
structure RuntimePublishOptions where
  properties : List PublishOption
  deriving DecidableEq

namespace RuntimePublishOptions

def relays (options : RuntimePublishOptions) : Option (List String) :=
  options.properties.findSome? fun
    | .relays urls => some urls
    | _ => none

def sources (options : RuntimePublishOptions) : Option (List String) :=
  options.properties.findSome? fun
    | .sources ids => some ids
    | _ => none

def requireAck (options : RuntimePublishOptions) : Bool :=
  (options.properties.findSome? fun
    | .requireAck value => some value
    | _ => none).getD false

/-- `queue` of `publishOnce`. -/
def queue (options : RuntimePublishOptions) : Bool :=
  !options.requireAck && (options.properties.findSome? fun
    | .queue value => some value
    | _ => none).getD true

/-- `echo` of `publishOnce`. -/
def echo (options : RuntimePublishOptions) : Bool :=
  !options.requireAck && (options.properties.findSome? fun
    | .localEcho value => some value
    | _ => none).getD true

end RuntimePublishOptions

/-- The relays and sources that a call or an entry of the outbox names. -/
structure Targets where
  relays : Option (List String)
  sources : Option (List String)
  deriving DecidableEq

def RuntimePublishOptions.targets (options : RuntimePublishOptions) : Targets :=
  ⟨options.relays, options.sources⟩

def RuntimeOutboxEntry.targets (entry : RuntimeOutboxEntry) : Targets :=
  ⟨entry.relays, entry.sources⟩

/-- The options with which `retryPending` publishes an entry. -/
def RuntimeOutboxEntry.options (entry : RuntimeOutboxEntry) : RuntimePublishOptions :=
  ⟨(entry.relays.map PublishOption.relays).toList ++
    (entry.sources.map PublishOption.sources).toList⟩

/-- A relay or a source that is sent an event. -/
inductive Target where
  | relay (url : String)
  | source (id : String)
  deriving DecidableEq

def Target.id : Target → String
  | relay url => url
  | source id => id

/-- What publication uses of a `RuntimeSource`. -/
structure RuntimeSource where
  id : String
  publishes : Bool
  /-- `publishAcceptance` is `queued`. -/
  queued : Bool
  deriving DecidableEq

/-- The code around the runtime: `new URL`, with the protocol and the text of an address, and the
verification of events. -/
structure Platform where
  parseUrl : String → Except String (String × String)
  verifyEvent : Event → Except String Unit

/-- `normalizeRelays`, for one address. -/
def Platform.normalizeRelay (platform : Platform) (url : String) : Except String String :=
  match platform.parseUrl url with
  | .error error => .error error
  | .ok (protocol, text) =>
    if protocol ≠ "ws:" ∧ protocol ≠ "wss:" then .error "Nostr relay must use ws or wss" else .ok text

/-- `normalizeRelays`. -/
def Platform.normalizeRelays (platform : Platform) (urls : List String) :
    Except String (List String) :=
  (urls.mapM platform.normalizeRelay).map List.eraseDups

/-- A target is among those that are named: without a list any relay is, and any source unless
relays are listed. -/
def Targets.Names (platform : Platform) (targets : Targets) : Target → Prop
  | .relay url => ∀ urls, targets.relays = some urls → ∃ named ∈ urls, platform.normalizeRelay named = .ok url
  | .source id =>
    match targets.sources with
    | some ids => id ∈ ids
    | none => targets.relays = none

/-! ## The outbox -/

namespace MemoryEventStore

/-- `listPending`. -/
def listPending (store : MemoryEventStore) : List RuntimeOutboxEntry := store.pending

/-- `putPending`. -/
def putPending (entry : RuntimeOutboxEntry) (store : MemoryEventStore) :
    Except String Unit × MemoryEventStore :=
  if !store.pending.any (·.event.id = entry.event.id) ∧ store.maxPending ≤ store.pending.length then
    (.error "Outbox capacity exhausted", store)
  else (.ok (), { store with pending := store.pending.setBy (·.event.id) entry })

/-- `deletePending`. -/
def deletePending (id : EventId) (store : MemoryEventStore) : MemoryEventStore :=
  { store with pending := store.pending.filter fun entry => entry.event.id ≠ id }

end MemoryEventStore

/-! ## Publications -/

/-- The outcome for one relay or source in a `RuntimePublishResult`. -/
structure SourceOutcome where
  id : String
  accepted : Bool
  pending : Bool := false
  queued : Bool := false
  error : Option String := none
  deriving DecidableEq

/-- `RuntimePublishResult`. -/
structure RuntimePublishResult where
  accepted : Bool
  remoteAccepted : Bool
  queued : Bool
  sources : List SourceOutcome
  deriving DecidableEq

/-- The result for an event that the local admission refused. -/
def refusedResult : RuntimePublishResult where
  accepted := false
  remoteAccepted := false
  queued := false
  sources := [{
    id := "local-cache", accepted := false, error := some "Event is expired, deleted or superseded" }]

/-- The `await` at which a run of `publishOnce` is. -/
inductive Phase where
  /-- `listPending` has read the outbox. -/
  | listing (pending : List RuntimeOutboxEntry)
  | putting
  | ingesting
  /-- The local admission has answered. -/
  | ingested (admitted : Except String Bool)
  /-- The entry is deleted after a refusal. -/
  | refusing
  /-- The relays and sources are asked. -/
  | attempting
  /-- The entry is deleted after an acceptance. -/
  | clearing
  /-- An accepted event goes to the local admission. -/
  | confirming
  | confirmed (admitted : Except String Bool)
  | settled (result : Except String RuntimePublishResult)
  deriving DecidableEq

/-- An attempt of `publishOnce`. -/
structure Attempt where
  target : Target
  remote : Bool
  deriving DecidableEq

/-- A run of `publishOnce`. -/
structure Publication where
  event : Event
  options : RuntimePublishOptions
  phase : Phase
  attempts : List Attempt := []
  outcomes : List SourceOutcome := []
  /-- What the promise for the acceptance is resolved with. -/
  accepted : Option Bool := none
  deriving DecidableEq

namespace Publication

/-- The key of `publishing`, as `JSON.stringify` tells them apart. -/
def key (publication : Publication) : EventId × RuntimePublishOptions :=
  (publication.event.id, publication.options)

/-- The promise is settled. -/
def isSettled (publication : Publication) : Bool :=
  match publication.phase with
  | .settled _ => true
  | _ => false

/-- What `publishOnce` returns when its attempts have an outcome. -/
def finish (publication : Publication) (accepted : Bool) : RuntimePublishResult where
  accepted := accepted
  remoteAccepted := accepted
  queued := publication.options.queue && !accepted
  sources := publication.outcomes

/-- `publishOnce` after an acceptance, when the entry is deleted. -/
def confirm (publication : Publication) : Publication :=
  if publication.options.echo then
    { publication with phase := .settled (.ok (publication.finish true)) }
  else { publication with phase := .confirming }

/-- The local admission answers a publication that waits for it. -/
def answer (publication : Publication) (admitted : Except String Bool) : Option Publication :=
  match publication.phase with
  | .ingesting => some { publication with phase := .ingested admitted }
  | .confirming => some { publication with phase := .confirmed admitted }
  | _ => none

/-- An attempt whose outcome is pending is fulfilled, with whether the report said `remoteAccepted`,
or fails. -/
def record (publication : Publication) (index : ℕ) (attempt : Attempt)
    (result : Except String Bool) : Publication :=
  let outcome : SourceOutcome := match result with
    | .ok remoteAccepted =>
      let remote := attempt.remote || remoteAccepted
      { id := attempt.target.id, accepted := remote, queued := !remote }
    | .error error => { id := attempt.target.id, accepted := false, error := some error }
  let outcomes := publication.outcomes.set index outcome
  let accepted := publication.accepted.or (if outcome.accepted then some true else none)
  let accepted := accepted.or (if outcomes.all (!·.pending) then some false else none)
  { publication with outcomes, accepted }

/-- The outcome of an attempt is pending. -/
def isPending (publication : Publication) (index : ℕ) : Bool :=
  publication.outcomes[index]?.any (·.pending)

end Publication

/-- A run of `retryPending`: the entries still to publish and the publications it waits for. -/
structure Retry where
  entries : List RuntimeOutboxEntry
  awaiting : List ℕ

/-- `NostrRuntime`, with the acceptances and refusals that there have been. A promise is the number
of its publication. -/
structure NostrRuntime where
  store : MemoryEventStore
  relays : List String
  sources : List RuntimeSource
  publications : List Publication
  publishing : List ((EventId × RuntimePublishOptions) × ℕ)
  retrying : Option Retry
  accepted : List (EventId × Target)
  refused : List EventId

namespace NostrRuntime

/-- A runtime over a store. -/
def start (store : MemoryEventStore) (relays : List String) (sources : List RuntimeSource) :
    NostrRuntime where
  store := store
  relays := relays
  sources := sources
  publications := []
  publishing := []
  retrying := none
  accepted := []
  refused := []

variable (platform : Platform)

/-- `publishAttempts`, and the sources that are asked. -/
def publishAttempts (options : RuntimePublishOptions) (runtime : NostrRuntime) :
    Except String (List Attempt) :=
  let urls : Except String (List String) := match options.relays with
    | none => .ok runtime.relays
    | some urls => platform.normalizeRelays urls
  urls.map fun urls =>
    (urls.map fun url => { target := .relay url, remote := true }) ++
      (runtime.sources.filter fun source => source.publishes && match options.sources with
        | some ids => source.id ∈ ids
        | none => options.relays.isNone).map fun source =>
          { target := .source source.id, remote := !source.queued }

/-- `publishOnce` from the attempts to the promise for their acceptance. -/
def contact (publication : Publication) (runtime : NostrRuntime) : Publication :=
  match runtime.publishAttempts platform publication.options with
  | .error error => { publication with phase := .settled (.error error) }
  | .ok attempts =>
    { publication with
      phase := .attempting
      attempts
      outcomes := attempts.map fun attempt =>
        { id := attempt.target.id, accepted := false, pending := true }
      accepted := if attempts = [] then some false else none }

/-- `publishOnce` after the outbox: to the local admission, or to the attempts. -/
def proceed (publication : Publication) (runtime : NostrRuntime) : Publication :=
  if publication.options.echo then { publication with phase := .ingesting }
  else runtime.contact platform publication

/-- `publishOnce` to its first `await`. -/
def publishOnce (event : Event) (options : RuntimePublishOptions) (runtime : NostrRuntime) :
    Publication :=
  match platform.verifyEvent event with
  | .error error => { event, options, phase := .settled (.error error) }
  | .ok () =>
    if options.queue then { event, options, phase := .listing runtime.store.listPending }
    else runtime.proceed platform { event, options, phase := .putting }

/-- `publish`, with the number of the promise it returns. -/
def publish (event : Event) (options : RuntimePublishOptions) (runtime : NostrRuntime) :
    ℕ × NostrRuntime :=
  match runtime.publishing.lookup (event.id, options) with
  | some existing => (existing, runtime)
  | none =>
    let promise := runtime.publications.length
    (promise, { runtime with
      publications := runtime.publications ++ [runtime.publishOnce platform event options]
      publishing := runtime.publishing ++ [((event.id, options), promise)] })

/-- `publishOnce` from the `await` it is at to the next, at the time `nowMs`. -/
def advance (publication : Publication) (nowMs : ℕ) (runtime : NostrRuntime) :
    Publication × MemoryEventStore :=
  let { event, options, .. } := publication
  let store := runtime.store
  match publication.phase with
  | .listing pending =>
    let attempts := ((pending.find? fun old => old.event.id = event.id).map (·.attempts)).getD 0 + 1
    let entry := {
      event, attempts, updatedAt := nowMs, relays := options.relays, sources := options.sources }
    match store.putPending entry with
    | (.error error, store) => ({ publication with phase := .settled (.error error) }, store)
    | (.ok (), store) => ({ publication with phase := .putting }, store)
  | .putting => (runtime.proceed platform publication, store)
  | .ingested (.error error) => ({ publication with phase := .settled (.error error) }, store)
  | .ingested (.ok true) => (runtime.contact platform publication, store)
  | .ingested (.ok false) =>
    if options.queue then ({ publication with phase := .refusing }, store.deletePending event.id)
    else ({ publication with phase := .settled (.ok refusedResult) }, store)
  | .refusing => ({ publication with phase := .settled (.ok refusedResult) }, store)
  | .attempting =>
    match publication.accepted with
    | none => (publication, store)
    | some true =>
      if options.queue then ({ publication with phase := .clearing }, store.deletePending event.id)
      else (publication.confirm, store)
    | some false =>
      ({ publication with phase := .settled (.ok (publication.finish false)) }, store)
  | .clearing => (publication.confirm, store)
  | .confirmed (.error error) => ({ publication with phase := .settled (.error error) }, store)
  | .confirmed (.ok _) =>
    ({ publication with phase := .settled (.ok (publication.finish true)) }, store)
  | .ingesting | .confirming | .settled _ => (publication, store)

def isSettled (runtime : NostrRuntime) (promise : ℕ) : Bool :=
  runtime.publications[promise]?.any Publication.isSettled

/-- Publish entries of the outbox, with the numbers of the promises. -/
def publishEntries : List RuntimeOutboxEntry → NostrRuntime → List ℕ × NostrRuntime
  | [], runtime => ([], runtime)
  | entry :: entries, runtime =>
    let (promise, runtime) := runtime.publish platform entry.event entry.options
    let (promises, runtime) := publishEntries entries runtime
    (promise :: promises, runtime)

/-- What happens to a runtime between two turns of its event loop. -/
inductive Input where
  | publish (event : Event) (options : RuntimePublishOptions)
  | retryPending
  /-- `retryPending` goes on after its `await`. -/
  | retryNext
  /-- A run of `publishOnce` goes on after its `await`. -/
  | resume (promise nowMs : ℕ)
  /-- The local admission answers. -/
  | ingested (promise : ℕ) (admitted : Except String Bool)
  /-- A relay or source answers. -/
  | attempted (promise index : ℕ) (result : Except String Bool)
  /-- The `finally` of a publication. -/
  | forget (promise : ℕ)
  | setRelays (urls : List String)
  | addSource (source : RuntimeSource)
  | removeSource (id : String)

/-- The run of a publication goes on. -/
def resume (promise nowMs : ℕ) (runtime : NostrRuntime) : NostrRuntime :=
  match runtime.publications[promise]? with
  | none => runtime
  | some publication =>
    let (publication, store) := runtime.advance platform publication nowMs
    { runtime with publications := runtime.publications.set promise publication, store }

/-- The local admission answers a publication. -/
def ingested (promise : ℕ) (admitted : Except String Bool) (runtime : NostrRuntime) : NostrRuntime :=
  match runtime.publications[promise]?.bind (·.answer admitted) with
  | none => runtime
  | some publication =>
    { runtime with
      publications := runtime.publications.set promise publication
      refused := match admitted with
        | .ok false => runtime.refused ++ [publication.event.id]
        | _ => runtime.refused }

/-- A relay or source answers a publication. -/
def attempted (promise index : ℕ) (result : Except String Bool) (runtime : NostrRuntime) :
    NostrRuntime :=
  match runtime.publications[promise]? with
  | none => runtime
  | some publication =>
    match publication.attempts[index]? with
    | none => runtime
    | some attempt =>
      if publication.isPending index then
        let acceptance := match result with
          | .ok remoteAccepted => attempt.remote || remoteAccepted
          | .error _ => false
        { runtime with
          publications :=
            runtime.publications.set promise (publication.record index attempt result)
          accepted :=
            if acceptance then runtime.accepted ++ [(publication.event.id, attempt.target)]
            else runtime.accepted }
      else runtime

/-- The `finally` of a publication, which runs once: until then the publication is in `publishing`. -/
def forget (promise : ℕ) (runtime : NostrRuntime) : NostrRuntime :=
  match runtime.publications[promise]? with
  | none => runtime
  | some publication =>
    if publication.isSettled ∧ (publication.key, promise) ∈ runtime.publishing then
      { runtime with publishing := runtime.publishing.filter (·.1 ≠ publication.key) }
    else runtime

/-- `retryPending` up to its first `await`. -/
def retryPending (runtime : NostrRuntime) : NostrRuntime :=
  if runtime.retrying.isSome then runtime
  else { runtime with retrying := some { entries := runtime.store.listPending, awaiting := [] } }

/-- `retryPending` publishes the next four entries when those before them are settled. -/
def retryNext (runtime : NostrRuntime) : NostrRuntime :=
  match runtime.retrying with
  | none => runtime
  | some retry =>
    if retry.awaiting.all runtime.isSettled then
      if retry.entries = [] then { runtime with retrying := none }
      else
        let (awaiting, runtime) := runtime.publishEntries platform (retry.entries.take 4)
        { runtime with retrying := some { entries := retry.entries.drop 4, awaiting } }
    else runtime

/-- `setRelays`, `addSource` and `removeSource` as far as publication goes. -/
def setRelays (urls : List String) (runtime : NostrRuntime) : NostrRuntime :=
  match platform.normalizeRelays urls with
  | .error _ => runtime
  | .ok relays => retryPending { runtime with relays }

def removeSource (id : String) (runtime : NostrRuntime) : NostrRuntime :=
  { runtime with sources := runtime.sources.filter (·.id ≠ id) }

def addSource (source : RuntimeSource) (runtime : NostrRuntime) : NostrRuntime :=
  let runtime := runtime.removeSource source.id
  retryPending { runtime with sources := runtime.sources ++ [source] }

/-- One turn. -/
def step (input : Input) (runtime : NostrRuntime) : NostrRuntime :=
  match input with
  | .publish event options => (runtime.publish platform event options).2
  | .retryPending => runtime.retryPending
  | .retryNext => runtime.retryNext platform
  | .resume promise nowMs => runtime.resume platform promise nowMs
  | .ingested promise admitted => runtime.ingested promise admitted
  | .attempted promise index result => runtime.attempted promise index result
  | .forget promise => runtime.forget promise
  | .setRelays urls => runtime.setRelays platform urls
  | .addSource source => runtime.addSource source
  | .removeSource id => runtime.removeSource id

/-- The state after a sequence of turns. -/
def run (inputs : List Input) (runtime : NostrRuntime) : NostrRuntime :=
  inputs.foldl (fun runtime input => runtime.step platform input) runtime

end NostrRuntime

end NostrPubsub.Runtime
