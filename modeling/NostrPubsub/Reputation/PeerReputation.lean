import Mathlib.Data.Prod.Lex
import Mathlib.Data.String.Basic
import NostrPubsub.Core
import NostrPubsub.ToMathlib.Finmap
import NostrPubsub.ToMathlib.Quota

/-!
# Peer reputation

`PeerReputation` of `reputation.rs`: the ratings of peers that were received, the newest for each
rater and subject, within a limit for each rater and a limit for all, and the graph that the ratings
of authorized raters project.

The graph, the ratings and the keys come from other crates: `SocialCrates` is what is used of them.
-/

namespace NostrPubsub.Reputation

/-- `PEER_RATING_MAX_AGE`, in seconds. -/
def peerRatingMaxAge : ℕ := 720 * 3600

/-- `PEER_RATING_MAX_FUTURE_SKEW`, in seconds. -/
def peerRatingMaxFutureSkew : ℕ := 10 * 60

/-- `PEER_RATING_MAX_ENTRIES`. -/
@[irreducible]
def peerRatingMaxEntries : ℕ := 4096

/-- `PEER_RATING_MAX_ENTRIES_PER_RATER`. -/
@[irreducible]
def peerRatingMaxEntriesPerRater : ℕ := 1024

/-- `nostr_social_graph::Rating`. What this crate does not read is in `rest`. -/
structure Rating (π : Type) where
  rater : String
  subject : String
  scope : Option String
  createdAt : ℕ
  rest : π
  deriving DecidableEq

/-- What is used of the crates `nostr`, `nostr_social_memory` and `nostr_social_graph`, with the
graph of the configured trust roots. -/
structure SocialCrates (π γ : Type) where
  /-- `RATING_KIND`. -/
  ratingKind : ℕ
  /-- `rating_from_event`, which verifies the id and the signature of the event. -/
  ratingFromEvent : Event → Option (Rating π)
  /-- `PublicKey::parse`. -/
  parsePublicKey : String → Option (List.Vector UInt8 32)
  /-- `seeded_graph`. -/
  seededGraph : γ
  /-- `SocialGraph::apply_ratings`, on the seeded graph. -/
  applyRatings : List (Rating π) → Except String γ

/-- `PeerRatingKey`. -/
structure PeerRatingKey where
  rater : String
  subject : String
  scope : String
  deriving Repr

/-- The fields of a key in the order in which they are compared. -/
def PeerRatingKey.fields (key : PeerRatingKey) : String ×ₗ String ×ₗ String :=
  toLex (key.rater, toLex (key.subject, key.scope))

theorem PeerRatingKey.fields_injective : Function.Injective PeerRatingKey.fields := by
  rintro ⟨rater, subject, scope⟩ ⟨rater', subject', scope'⟩ h
  obtain ⟨hrater, hrest⟩ := Prod.mk.inj (toLex_inj.mp h)
  obtain ⟨hsubject, hscope⟩ := Prod.mk.inj (toLex_inj.mp hrest)
  rw [PeerRatingKey.mk.injEq]
  exact ⟨hrater, hsubject, hscope⟩

/-- The derived order of the keys. -/
instance : LinearOrder PeerRatingKey :=
  LinearOrder.lift' PeerRatingKey.fields PeerRatingKey.fields_injective

/-- `StoredPeerRating`. -/
structure StoredPeerRating (π : Type) where
  eventId : String
  rating : Rating π
  deriving DecidableEq

/-- The retained ratings. -/
abbrev Latest (π : Type) := Finmap fun _ : PeerRatingKey => StoredPeerRating π

/-- The configuration: the local root, the scope and the trusted raters. -/
structure Config where
  root : String
  scope : String
  trustedRaters : Finset String

/-- `PeerReputation`. -/
structure PeerReputation (π γ : Type) where
  config : Config
  graph : γ
  latest : Latest π
  entriesByRater : Table ℕ
  nextPruneAtSecs : Option ℕ

variable {π γ : Type}

/-- `rater_is_authorized`. -/
def Config.raterIsAuthorized (config : Config) (rater : String) : Bool :=
  rater = config.root ∨ rater ∈ config.trustedRaters

/-- `rating_time_is_valid`. -/
def ratingTimeIsValid (createdAt nowSecs : ℕ) : Bool :=
  createdAt ≤ satAdd nowSecs peerRatingMaxFutureSkew ∧ nowSecs - createdAt ≤ peerRatingMaxAge

/-- The second at which a rating is too old. -/
def expiresAt (createdAt : ℕ) : ℕ := satAdd (satAdd createdAt peerRatingMaxAge) 1

/-! ## The order of the entries -/

/-- The order in which the entries of a rater are dropped: `(created_at, event_id, key)`. -/
abbrev AgeOrder := ℕ ×ₗ String ×ₗ PeerRatingKey

/-- The order in which entries are dropped overall: `(authorized, created_at, event_id, key)`. -/
abbrev Rank := Bool ×ₗ AgeOrder

def ageOrder (key : PeerRatingKey) (stored : StoredPeerRating π) : AgeOrder :=
  toLex (stored.rating.createdAt, toLex (stored.eventId, key))

/-- The key of an entry. -/
def AgeOrder.key (order : AgeOrder) : PeerRatingKey := (ofLex (ofLex order).2).2

def Config.rank (config : Config) (key : PeerRatingKey) (stored : StoredPeerRating π) : Rank :=
  toLex (config.raterIsAuthorized key.rater, ageOrder key stored)

/-- The key of an entry. -/
def Rank.key (rank : Rank) : PeerRatingKey := AgeOrder.key (ofLex rank).2

/-- The values of a function on the retained ratings. -/
def valuesOf {β : Type} [DecidableEq β] (f : PeerRatingKey → StoredPeerRating π → β)
    (latest : Latest π) : Finset β :=
  (latest.entries.map fun entry => f entry.1 entry.2).toFinset

/-! ## Limits -/

/-- The retained ratings without those of some keys. -/
def removeAll (keys : List PeerRatingKey) (latest : Latest π) : Latest π :=
  keys.foldl (fun latest key => latest.erase key) latest

/-- The entries that a rater has too many: its oldest. -/
def excessOf (maxEntriesPerRater : ℕ) (latest : Latest π) (rater : String) : List PeerRatingKey :=
  let entries := (valuesOf ageOrder latest).filter fun order => (AgeOrder.key order).rater = rater
  (entries.ascending.take (entries.card - maxEntriesPerRater)).map AgeOrder.key

/-- `enforce_entry_limits_with`. -/
def enforceEntryLimitsWith (config : Config) (maxEntries maxEntriesPerRater : ℕ)
    (latest : Latest π) : Latest π :=
  let raters := latest.keys.image PeerRatingKey.rater
  let latest := removeAll (raters.ascending.flatMap (excessOf maxEntriesPerRater latest)) latest
  let excess := latest.size - maxEntries
  if excess = 0 then latest
  else removeAll (((valuesOf config.rank latest).ascending.take excess).map Rank.key) latest

/-- One more entry of a rater. -/
def countEntry (entriesByRater : Table ℕ) (rater : String) : Table ℕ :=
  entriesByRater.insert rater ((entriesByRater.lookup rater).getD 0 + 1)

/-- `rebuild_entry_counts`. -/
def entryCounts (latest : Latest π) : Table ℕ :=
  latest.keys.ascending.foldl (fun counts key => countEntry counts key.rater) ∅

/-! ## Operations -/

namespace PeerReputation

variable (crates : SocialCrates π γ)

/-- `PeerReputation::new`, of a configuration that passed its checks. -/
def new (config : Config) : PeerReputation π γ where
  config
  graph := crates.seededGraph
  latest := ∅
  entriesByRater := ∅
  nextPruneAtSecs := none

/-- The checks of `consider_event`: the key and the rating of a valid event. -/
def parse (config : Config) (event : Event) (nowSecs : ℕ) :
    Option (PeerRatingKey × StoredPeerRating π) := do
  guard (event.kind = crates.ratingKind)
  let rating ← crates.ratingFromEvent event
  guard (ratingTimeIsValid rating.createdAt nowSecs)
  guard (rating.scope = some config.scope)
  let rater ← crates.parsePublicKey rating.rater
  guard (rater = event.pubkey)
  let subject ← crates.parsePublicKey rating.subject
  let rating := { rating with rater := EventId.toHex rater, subject := EventId.toHex subject }
  return (⟨rating.rater, rating.subject, config.scope⟩, ⟨event.id.toHex, rating⟩)

/-- `consider_event` after its checks. Tells whether the rating is retained, and whether the graph
may change. -/
def insert (key : PeerRatingKey) (stored : StoredPeerRating π) (s : PeerReputation π γ) :
    (Bool × Bool) × PeerReputation π γ :=
  let projectionMayChange := s.config.raterIsAuthorized key.rater
  if (s.latest.lookup key).any fun existing =>
      decide (toLex (stored.rating.createdAt, stored.eventId)
        ≤ toLex (existing.rating.createdAt, existing.eventId)) then
    ((false, false), s)
  else
    let isNewKey : Bool := (s.latest.lookup key).isNone
    let latest := s.latest.insert key stored
    let entriesByRater := if isNewKey then
        countEntry s.entriesByRater key.rater
      else s.entriesByRater
    let expires := expiresAt stored.rating.createdAt
    let nextPruneAtSecs := some (s.nextPruneAtSecs.elim expires fun next => min next expires)
    let limitsExceeded : Bool := peerRatingMaxEntries < latest.size
      ∨ peerRatingMaxEntriesPerRater < (entriesByRater.lookup key.rater).getD 0
    let limited := enforceEntryLimitsWith s.config peerRatingMaxEntries
      peerRatingMaxEntriesPerRater latest
    let s := if limitsExceeded then
        { s with latest := limited, entriesByRater := entryCounts limited, nextPruneAtSecs }
      else { s with latest, entriesByRater, nextPruneAtSecs }
    let retained := (s.latest.lookup key).any fun kept => decide (kept.eventId = stored.eventId)
    ((retained, (retained && projectionMayChange) || limitsExceeded), s)

/-- `consider_event`. -/
def considerEvent (event : Event) (nowSecs : ℕ) (s : PeerReputation π γ) :
    (Bool × Bool) × PeerReputation π γ :=
  match parse crates s.config event nowSecs with
  | none => ((false, false), s)
  | some (key, stored) => s.insert key stored

/-- `prune_memory`. Returns how many ratings were removed. -/
def pruneMemory (nowSecs : ℕ) (s : PeerReputation π γ) : ℕ × PeerReputation π γ :=
  if s.nextPruneAtSecs.all fun next => decide (nowSecs < next) then (0, s)
  else
    let latest := s.latest.filter fun _ stored => ratingTimeIsValid stored.rating.createdAt nowSecs
    let removed := s.latest.size - latest.size
    let entriesByRater := if 0 < removed then entryCounts latest else s.entriesByRater
    let nextPruneAtSecs :=
      (valuesOf (fun _ stored => expiresAt stored.rating.createdAt) latest).ascending.head?
    (removed, { s with latest, entriesByRater, nextPruneAtSecs })

/-- The ratings of authorized raters, in the order of their keys. -/
def authorizedRatings (config : Config) (latest : Latest π) : List (Rating π) :=
  let stored := latest.keys.ascending.filterMap fun key => latest.lookup key
  (stored.filter fun stored => config.raterIsAuthorized stored.rating.rater).map
    StoredPeerRating.rating

/-- `rebuild`. The graph stays as it is when the ratings cannot be applied. -/
def rebuild (s : PeerReputation π γ) : Except PubsubError Unit × PeerReputation π γ :=
  match crates.applyRatings (authorizedRatings s.config s.latest) with
  | .ok graph => (.ok (), { s with graph })
  | .error error => (.error (.validation s!"failed to apply peer ratings: {error}"), s)

/-- `ingest_event_at`. -/
def ingestEventAt (event : Event) (nowSecs : ℕ) (s : PeerReputation π γ) :
    Except PubsubError Bool × PeerReputation π γ :=
  let (pruned, s) := s.pruneMemory nowSecs
  let ((accepted, projectionMayChange), s) := s.considerEvent crates event nowSecs
  if 0 < pruned ∨ projectionMayChange then
    let (result, s) := s.rebuild crates
    (result.map fun _ => accepted, s)
  else (.ok accepted, s)

/-- The loop of `replay_at`: how many ratings were retained, and whether the graph may change. -/
def considerAll (events : List Event) (nowSecs : ℕ) (s : PeerReputation π γ) :
    (ℕ × Bool) × PeerReputation π γ :=
  events.foldl (fun ((changed, projectionMayChange), s) event =>
    let ((accepted, eventMayChange), s) := s.considerEvent crates event nowSecs
    ((changed + accepted.toNat, projectionMayChange || eventMayChange), s)) ((0, false), s)

/-- `replay_at`. -/
def replayAt (events : List Event) (nowSecs : ℕ) (s : PeerReputation π γ) :
    Except PubsubError ℕ × PeerReputation π γ :=
  let (pruned, s) := s.pruneMemory nowSecs
  let ((changed, projectionMayChange), s) := s.considerAll crates events nowSecs
  if 0 < pruned ∨ projectionMayChange then
    let (result, s) := s.rebuild crates
    (result.map fun _ => changed, s)
  else (.ok changed, s)

/-- `prune`. -/
def prune (nowSecs : ℕ) (s : PeerReputation π γ) : Except PubsubError ℕ × PeerReputation π γ :=
  let (removed, s) := s.pruneMemory nowSecs
  if 0 < removed then
    let (result, s) := s.rebuild crates
    (result.map fun _ => removed, s)
  else (.ok removed, s)

/-- `ingest_event_at` for one event after the other. -/
def ingestAll (events : List Event) (nowSecs : ℕ) (s : PeerReputation π γ) : PeerReputation π γ :=
  events.foldl (fun s event => (s.ingestEventAt crates event nowSecs).2) s

end PeerReputation

end NostrPubsub.Reputation
