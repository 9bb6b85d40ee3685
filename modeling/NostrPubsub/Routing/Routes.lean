import Mathlib.Data.Prod.Lex
import Mathlib.Data.String.Basic
import Mathlib.Order.WithBot
import NostrPubsub.Core
import NostrPubsub.ToMathlib.Gather
import NostrPubsub.ToMathlib.Leading

/-!
# Source routes and routed queries

The types and functions of `nostr-pubsub/src/routes.rs`. Routes with one dataset id are
replicas, tried in the order of their effective priority until one answers; different datasets
are additive, and their results are merged.

A reader is its answer to the one query it gets. The policy is a function with a state of its
own, so that it may decide differently on every call.
-/

namespace NostrPubsub

/-- `SourceRoute`. -/
structure SourceRoute where
  id : String
  datasetId : String
  source : EventSource
  priority : ℤ
  reason : Option String
  capabilities : List String
  deriving DecidableEq

/-- `SourceCandidate`, without its empty `health`. -/
structure SourceCandidate where
  source : EventSource
  priority : ℤ
  reason : Option String
  freshnessHint : Option ℕ

/-- `SourcePolicyContext`. -/
structure SourcePolicyContext where
  candidate : SourceCandidate
  authorPubkey : Option String
  capabilities : List String

/-- `PubsubPolicy::check_source`, with the state of the policy. -/
abbrev CheckSource (σ : Type) :=
  SourcePolicyContext → σ → Except PubsubError PolicyDecision × σ

/-- `QueryOptions`. -/
structure QueryOptions where
  limit : Option ℕ

/-- `QueryReport`. -/
structure QueryReport (nostr : NostrCrate) where
  events : List (QueryEvent nostr)

/-- `RouteQuerySource`: a route and the `EventBus::query` of its reader. -/
structure RouteQuerySource (nostr : NostrCrate) where
  route : SourceRoute
  reader : List Filter → QueryOptions → Except PubsubError (QueryReport nostr)

/-- `RouteAttemptOutcome`. -/
inductive RouteAttemptOutcome where
  | success (eventCount : ℕ)
  | failure (message : String)
  deriving DecidableEq

/-- `RouteAttempt`. -/
structure RouteAttempt where
  route : SourceRoute
  datasetId : String
  decision : PolicyDecision
  outcome : RouteAttemptOutcome
  deriving DecidableEq

/-- `RoutedEventProvenance`. -/
structure RoutedEventProvenance where
  routeId : String
  datasetId : String
  source : EventSource
  priority : ℤ
  deriving DecidableEq

/-- `RoutedQueryEvent`. -/
@[ext]
structure RoutedQueryEvent (nostr : NostrCrate) where
  event : VerifiedEvent nostr
  source : EventSource
  priority : ℤ
  provenance : List RoutedEventProvenance

/-- `RoutedDatasetReport`. -/
structure RoutedDatasetReport where
  datasetId : String
  complete : Bool
  eventCount : ℕ
  deriving DecidableEq

/-- `RoutedQueryReport`. -/
structure RoutedQueryReport (nostr : NostrCrate) where
  events : List (RoutedQueryEvent nostr) := []
  attempts : List RouteAttempt := []
  datasets : List RoutedDatasetReport := []
  complete : Bool

/-- `RouteCandidate`. -/
structure RouteCandidate (nostr : NostrCrate) where
  effectivePriority : ℤ
  ordinal : ℕ
  source : RouteQuerySource nostr
  decision : PolicyDecision

/-- `DatasetResult`. -/
structure DatasetResult (nostr : NostrCrate) where
  report : RoutedDatasetReport
  attempts : List RouteAttempt
  events : List (RoutedQueryEvent nostr)

/-- `PubsubError::to_string`. -/
def PubsubError.display : PubsubError → String
  | .validation message => s!"validation failed: {message}"
  | .storage message => s!"storage failed: {message}"

/-- `decision_priority`. -/
def decisionPriority : PolicyDecision → ℤ
  | .allow priority => priority
  | .throttle priority _ => priority
  | .drop _ => 0

/-- `source_kind_rank`. -/
def sourceKindRank : EventSourceKind → ℕ
  | .localIndex => 0
  | .fipsEndpoint => 1
  | .peer => 2
  | .relay => 3

/-! ## Merging -/

/-- The order of `Option<&str>`: `None` comes first. -/
def optionRank (value : Option String) : WithBot String := value.elim ⊥ (↑)

/-- The tuple by which `merge_routed_events` sorts provenance entries. -/
def RoutedEventProvenance.rank (self : RoutedEventProvenance) :
    String ×ₗ String ×ₗ ℕ ×ₗ String ×ₗ WithBot String ×ₗ ℤ :=
  toLex (self.datasetId, toLex (self.routeId, toLex (sourceKindRank self.source.kind,
    toLex (self.source.id, toLex (optionRank self.source.url, self.priority)))))

namespace RoutedQueryEvent

variable {nostr : NostrCrate}

/-- The id of the event. -/
def id (self : RoutedQueryEvent nostr) : EventId := self.event.event.id

/-- The order of `merge_routed_events`: `created_at` descending, then the hexadecimal id
ascending. -/
def hexRank (self : RoutedQueryEvent nostr) : ℕᵒᵈ ×ₗ String :=
  toLex (OrderDual.toDual self.event.event.createdAt, self.id.toHex)

/-- A further copy adds its provenance. -/
def extend (known event : RoutedQueryEvent nostr) : RoutedQueryEvent nostr :=
  { known with provenance := known.provenance ++ event.provenance }

/-- The provenance sorted, with neighbouring duplicates removed. -/
def sortProvenance (self : RoutedQueryEvent nostr) : RoutedQueryEvent nostr :=
  { self with provenance := sortedSet RoutedEventProvenance.rank self.provenance }

end RoutedQueryEvent

variable {nostr : NostrCrate}

/-- `merge_routed_events`. The map of the source from ids to indices finds the entry of an id in
the list of those kept so far. -/
def mergeRoutedEvents (events : List (RoutedQueryEvent nostr)) : List (RoutedQueryEvent nostr) :=
  sortByRank RoutedQueryEvent.hexRank
    ((events.gather RoutedQueryEvent.id RoutedQueryEvent.extend).map
      RoutedQueryEvent.sortProvenance)

/-! ## Candidates -/

section Candidates

variable {σ : Type} (policy : CheckSource σ) (authorPubkey : Option String)
  (capabilities : Option (List String))

/-- What the policy is asked about a route. -/
def sourcePolicyContext (route : SourceRoute) : SourcePolicyContext where
  candidate :=
    { source := route.source
      priority := route.priority
      reason := route.reason
      freshnessHint := none }
  authorPubkey := authorPubkey
  capabilities := capabilities.getD route.capabilities

/-- The candidate of an allowed route. -/
def routeCandidate (ordinal : ℕ) (source : RouteQuerySource nostr) :
    PolicyDecision → Option (RouteCandidate nostr)
  | .drop _ => none
  | decision =>
    some
      { effectivePriority := satAddI32 source.route.priority (decisionPriority decision)
        ordinal
        source
        decision }

/-- The loop of `allowed_candidates` over the routes. -/
def checkRoutes : ℕ → List (RouteQuerySource nostr) → σ →
    Except PubsubError (List (RouteCandidate nostr)) × σ
  | _, [], state => (.ok [], state)
  | ordinal, source :: rest, state =>
    match policy (sourcePolicyContext authorPubkey capabilities source.route) state with
    | (.error error, state) => (.error error, state)
    | (.ok decision, state) =>
      match checkRoutes (ordinal + 1) rest state with
      | (.error error, state) => (.error error, state)
      | (.ok candidates, state) =>
        (.ok ((routeCandidate ordinal source decision).toList ++ candidates), state)

/-- The order of the candidates: higher priority first, then the order of the routes. -/
def RouteCandidate.rank (self : RouteCandidate nostr) : ℤᵒᵈ ×ₗ ℕ :=
  toLex (OrderDual.toDual self.effectivePriority, self.ordinal)

/-- `allowed_candidates`. -/
def allowedCandidates (routes : List (RouteQuerySource nostr)) (state : σ) :
    Except PubsubError (List (RouteCandidate nostr)) × σ :=
  let checked := checkRoutes policy authorPubkey capabilities 0 routes state
  (checked.1.map (sortByRank RouteCandidate.rank), checked.2)

end Candidates

/-- The dataset of a candidate. -/
def RouteCandidate.datasetId (candidate : RouteCandidate nostr) : String :=
  candidate.source.route.datasetId

/-- Further replicas join the group of their dataset. -/
def joinGroup (group further : String × List (RouteCandidate nostr)) :
    String × List (RouteCandidate nostr) :=
  (group.1, group.2 ++ further.2)

/-- `group_by_dataset`. -/
def groupByDataset (candidates : List (RouteCandidate nostr)) :
    List (String × List (RouteCandidate nostr)) :=
  (candidates.map fun candidate => (candidate.datasetId, [candidate])).gather Prod.fst joinGroup

/-! ## Queries -/

/-- `routed_event`. -/
def routedEvent (event : QueryEvent nostr) (candidate : RouteCandidate nostr) (datasetId : String) :
    RoutedQueryEvent nostr where
  event := event.event
  source := event.source
  priority := event.priority
  provenance :=
    [{ routeId := candidate.source.route.id
       datasetId
       source := event.source
       priority := event.priority }]

/-- The events of a report, merged, with their provenance. -/
def routedEvents (report : QueryReport nostr) (candidate : RouteCandidate nostr)
    (datasetId : String) : List (RoutedQueryEvent nostr) :=
  mergeRoutedEvents (report.events.map fun event => routedEvent event candidate datasetId)

/-- `query_dataset`. The attempts so far come first. -/
def queryDataset (filters : List Filter) (options : QueryOptions) (datasetId : String) :
    List (RouteCandidate nostr) → List RouteAttempt → DatasetResult nostr
  | [], attempts =>
    { report := { datasetId, complete := false, eventCount := 0 }
      attempts
      events := [] }
  | replica :: rest, attempts =>
    let attempt := fun outcome =>
      { route := replica.source.route, datasetId, decision := replica.decision, outcome }
    match replica.source.reader filters options with
    | .ok report =>
      let events := routedEvents report replica datasetId
      { report := { datasetId, complete := true, eventCount := events.length }
        attempts := attempts ++ [attempt (.success events.length)]
        events }
    | .error error =>
      queryDataset filters options datasetId rest
        (attempts ++ [attempt (.failure error.display)])

/-- The part of `query_routes_with_policy` after the candidates are known. Each dataset is
queried on its own; the results come back in the order of the groups. -/
def queryCandidates (filters : List Filter) (options : QueryOptions)
    (candidates : List (RouteCandidate nostr)) : RoutedQueryReport nostr :=
  let groups := groupByDataset candidates
  let limit := options.limit.getD u64Max
  if limit = 0 then
    { datasets := groups.map fun group =>
        { datasetId := group.1, complete := true, eventCount := 0 }
      complete := true }
  else
    let results := groups.map fun group => queryDataset filters options group.1 group.2 []
    { events := (mergeRoutedEvents (results.flatMap (·.events))).take limit
      attempts := results.flatMap (·.attempts)
      datasets := results.map (·.report)
      complete := results.all (·.report.complete) }

/-- `query_routes_with_policy`. -/
def queryRoutesWithPolicy {σ : Type} (routes : List (RouteQuerySource nostr))
    (filters : List Filter) (options : QueryOptions) (authorPubkey : Option String)
    (policy : CheckSource σ) (capabilities : Option (List String)) (state : σ) :
    Except PubsubError (RoutedQueryReport nostr) × σ :=
  let allowed := allowedCandidates policy authorPubkey capabilities routes state
  (allowed.1.map (queryCandidates filters options), allowed.2)

end NostrPubsub
