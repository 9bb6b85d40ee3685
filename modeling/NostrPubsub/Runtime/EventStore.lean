import NostrPubsub.Store.Retained
import NostrPubsub.ToMathlib.Keyed

/-!
# The event store of the TypeScript runtime

`ts/packages/nostr-pubsub/src/runtime-store.ts`: the bounded store in memory, and the admission of an
event into it. A replaceable or addressable event takes the place of the older versions of its
address, and a deletion removes what it names and stays as a tombstone.

The matching of filters is that of `nostr-tools`, a parameter; what is relied on is NIP-01
(`MatchesNip01`). Times are in milliseconds, and a `Map` is the list of its values in their order.
-/

namespace NostrPubsub.Runtime

/-! ## Filters -/

/-- The criteria of a `NostrFilter` that admission uses. -/
structure NostrFilter where
  ids : Option (List String) := none
  authors : Option (List String) := none
  kinds : Option (List ℕ) := none
  /-- The values by the letter of the tag. -/
  tags : List (String × List String) := []
  deriving DecidableEq

/-- The public key of an event as text. -/
def pubkeyText (event : Event) : String := EventId.toHex event.pubkey

/-- The event has a tag of that name whose value is one of the values. -/
def hasTag (event : Event) (name : String) (values : List String) : Bool :=
  event.tags.any fun tag => tag[0]? = some name && tag[1]?.any (· ∈ values)

/-- An event meets every criterion of a filter. -/
def NostrFilter.meets (filter : NostrFilter) (event : Event) : Bool :=
  filter.ids.all (event.id.toHex ∈ ·) && filter.authors.all (pubkeyText event ∈ ·)
    && filter.kinds.all (event.kind ∈ ·)
    && filter.tags.all fun criterion => hasTag event criterion.1 criterion.2

/-- `matchFilter` decides by the criteria of NIP-01. -/
def MatchesNip01 (matchFilter : NostrFilter → Event → Bool) : Prop :=
  ∀ filter event, matchFilter filter event = filter.meets event

/-! ## Expiration, addresses and deletions -/

/-- `Number(value)` of a text that `/^\d+$/` matches. -/
def readNumber (value : String) : Option ℕ :=
  if value ≠ "" ∧ value.toList.all Char.isDigit then some (Nat.ofDigitChars 10 value.toList 0)
  else none

/-- `expired`, at the time `nowMs`. -/
def expired (event : Event) (nowMs : ℕ) : Bool :=
  let value := (event.tags.find? fun tag => tag[0]? = some "expiration").bind (·[1]?)
  (value.bind readNumber).any fun seconds => decide (1000 * seconds ≤ nowMs)

/-- The kinds of which one event is kept for each author. -/
def Replaceable (kind : ℕ) : Prop := kind = 0 ∨ kind = 3 ∨ 10000 ≤ kind ∧ kind < 20000

/-- The kinds of which one event is kept for each author and identifier. -/
def Addressable (kind : ℕ) : Prop := 30000 ≤ kind ∧ kind < 40000

/-- The kinds that are not stored. -/
def Ephemeral (kind : ℕ) : Prop := 20000 ≤ kind ∧ kind < 30000

instance : DecidablePred Replaceable := fun _ => inferInstanceAs (Decidable (_ ∨ _))

instance : DecidablePred Addressable := fun _ => inferInstanceAs (Decidable (_ ∧ _))

instance : DecidablePred Ephemeral := fun _ => inferInstanceAs (Decidable (_ ∧ _))

/-- The value of the first `d` tag, or the empty text. -/
def identifierText (event : Event) : String :=
  ((event.tags.find? fun tag => tag.head? = some "d").bind (·[1]?)).getD ""

/-- `replacementFilter`. -/
def replacementFilter (event : Event) : Option NostrFilter :=
  if Replaceable event.kind then
    some { authors := some [pubkeyText event], kinds := some [event.kind] }
  else if Addressable event.kind then
    let tags := if identifierText event = "" then [] else [("d", [identifierText event])]
    some { authors := some [pubkeyText event], kinds := some [event.kind], tags }
  else none

/-- `address`. -/
def address (event : Event) : Option String :=
  if (replacementFilter event).isSome then
    some s!"{event.kind}:{pubkeyText event}:{identifierText event}"
  else none

/-- `deletedBy`. -/
def deletedBy (event deletion : Event) : Bool :=
  if deletion.kind ≠ 5 ∨ deletion.pubkey ≠ event.pubkey ∨ deletion.createdAt < event.createdAt
      ∨ event.kind = 5 then false
  else
    deletion.tags.any fun tag =>
      (tag[0]? = some "e" && tag[1]? = some event.id.toHex)
        || (tag[0]? = some "a" && (address event).isSome && tag[1]? = address event)

/-! ## The store -/

/-- `RuntimeOutboxEntry`. -/
structure RuntimeOutboxEntry where
  event : Event
  attempts : ℕ
  updatedAt : ℕ
  relays : Option (List String)
  sources : Option (List String)
  deriving DecidableEq

/-- `MemoryEventStore`. -/
structure MemoryEventStore where
  maxEvents : ℕ
  maxPending : ℕ
  events : List Event
  pending : List RuntimeOutboxEntry

/-- The sorting of `selectStoredEvents` and `put` by `eventOrder`. -/
def sortEvents (events : List Event) : List Event :=
  events.insertionSort fun a b => a.rank ≤ b.rank

namespace MemoryEventStore

/-- The constructor. -/
def new (maxEvents maxPending : ℕ) : Except String MemoryEventStore :=
  let isSafe (bound : ℕ) : Bool := 1 ≤ bound ∧ bound < 2 ^ 53
  if !isSafe maxEvents || !isSafe maxPending then .error "Invalid event store bounds"
  else .ok { maxEvents, maxPending, events := [], pending := [] }

variable (matchFilter : NostrFilter → Event → Bool)

/-- `query`. The filters of admission have no limit. -/
def query (filters : List NostrFilter) (nowMs : ℕ) (store : MemoryEventStore) : List Event :=
  (sortEvents (store.events.filter fun event => !expired event nowMs)).filter fun event =>
    filters.any (matchFilter · event)

/-- `put`. At its capacity the store drops its oldest event that is no deletion and waits for no
publication. -/
def put (event : Event) (store : MemoryEventStore) : Except String Unit × MemoryEventStore :=
  if !store.events.any (·.id = event.id) ∧ store.maxEvents ≤ store.events.length then
    let removable := (sortEvents (store.events.filter fun old =>
      old.kind ≠ 5 ∧ !store.pending.any (·.event.id = old.id))).getLast?
    match removable with
    | none => (.error "Event store retention capacity exhausted", store)
    | some oldest =>
      let events := store.events.filter fun old => old.id ≠ oldest.id
      (.ok (), { store with events := events.setBy Event.id event })
  else (.ok (), { store with events := store.events.setBy Event.id event })

/-- `delete`. -/
def delete (ids : List EventId) (store : MemoryEventStore) : MemoryEventStore :=
  { store with events := store.events.filter fun event => event.id ∉ ids }

/-! ## Admission -/

/-- What `admitRuntimeEvent` resolves with. -/
inductive Admission where
  | admitted
  | superseded
  | rejected
  deriving DecidableEq

/-- The filters for the deletions that could name an event. -/
def deletionFilters (event : Event) : List NostrFilter :=
  { authors := some [pubkeyText event], kinds := some [5], tags := [("e", [event.id.toHex])] } ::
    match address event with
    | some key =>
      [{ authors := some [pubkeyText event], kinds := some [5], tags := [("a", [key])] }]
    | none => []

/-- The filter for the events that an `a` tag of a deletion could name. -/
def coordinateFilter (deletion : Event) (value : String) : Option NostrFilter :=
  match value.toList.splitOn ':' with
  | kind :: author :: identifier =>
    match readNumber (String.ofList kind) with
    | some number =>
      if String.ofList author = pubkeyText deletion then
        let identifier := String.ofList ([':'].intercalate identifier)
        let tags := if 30000 ≤ number ∧ identifier ≠ "" then [("d", [identifier])] else []
        some { authors := some [pubkeyText deletion], kinds := some [number], tags }
      else none
    | none => none
  | _ => none

/-- The values of the tags of a name that have one. -/
def tagValues (name : String) (event : Event) : List String :=
  event.tags.filterMap fun tag =>
    if tag[0]? = some name then tag[1]?.filter (· ≠ "") else none

/-- The filters for the events that a deletion could name. -/
def namedFilters (deletion : Event) : List NostrFilter :=
  let ids := tagValues "e" deletion
  let byId : List NostrFilter :=
    if ids = [] then [] else [{ ids := some ids, authors := some [pubkeyText deletion] }]
  byId ++ (tagValues "a" deletion).filterMap (coordinateFilter deletion)

/-- The versions of an event's address that are stored. -/
def previousVersions (event : Event) (nowMs : ℕ) (store : MemoryEventStore) : List Event :=
  match replacementFilter event with
  | some filter =>
    (store.query matchFilter [filter] nowMs).filter fun old => address old = address event
  | none => []

/-- Drop what a deletion names. -/
def applyDeletion (event : Event) (nowMs : ℕ) (store : MemoryEventStore) : MemoryEventStore :=
  if event.kind = 5 then
    let filters := namedFilters event
    let previous := if filters = [] then [] else store.query matchFilter filters nowMs
    store.delete ((previous.filter fun old => deletedBy old event).map (·.id))
  else store

/-- `admitRuntimeEvent`, at the time `nowMs`. -/
def admitRuntimeEvent (event : Event) (nowMs : ℕ) (store : MemoryEventStore) :
    Except String Admission × MemoryEventStore :=
  if expired event nowMs then (.ok .rejected, store)
  else if Ephemeral event.kind then (.ok .admitted, store)
  else
    let ownDeletions := store.query matchFilter (deletionFilters event) nowMs
    if ownDeletions.any (deletedBy event ·) then (.ok .rejected, store)
    else
      let previous := previousVersions matchFilter event nowMs store
      if previous.any fun old => old.rank < event.rank then (.ok .superseded, store)
      else
        -- only the winner of an address stays
        let store := store.delete ((previous.filter fun old => old.id ≠ event.id).map (·.id))
        let store := applyDeletion matchFilter event nowMs store
        ((store.put event).1.map fun _ => .admitted, (store.put event).2)

/-- Admit events one after the other, each at its time. -/
def admitAll (arrivals : List (Event × ℕ)) (store : MemoryEventStore) : MemoryEventStore :=
  arrivals.foldl (fun store arrival => (admitRuntimeEvent matchFilter arrival.1 arrival.2 store).2)
    store

end MemoryEventStore

end NostrPubsub.Runtime
