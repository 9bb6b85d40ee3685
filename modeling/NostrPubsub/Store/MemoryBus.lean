import NostrPubsub.Routing.QueryRoutes
import NostrPubsub.Store.Retained

/-!
# The event bus in memory

`InMemoryEventBus` of `nostr-pubsub/src/memory.rs`. Every accepted publication appends a copy of
the event; a query sorts the copies, lets each filter walk over them up to its limit, and drops the
copies of an event that was found already. The limit of a filter thus counts copies, where the query
of `RetainedEvents` counts events: an event that was published often hides the events behind it
(`query_counts_events_iff`).
-/

namespace NostrPubsub

variable {nostr : NostrCrate} {σ : Type}

/-- `PubsubPolicy::check_event`, with the state of the policy. -/
abbrev CheckEvent (nostr : NostrCrate) (σ : Type) :=
  VerifiedEvent nostr → EventSource → σ → Except PubsubError PolicyDecision × σ

/-- `report_parts`. -/
def reportParts : PolicyDecision → Bool × ℤ × Option String
  | .allow priority => (true, priority, none)
  | .throttle priority reason => (true, priority, some reason)
  | .drop reason => (false, 0, some reason)

/-- `Filter::new`, which every event matches. -/
def Filter.new : Filter where
  criteria _ := true
  since := none
  until_ := none
  limit := none

/-- `StoredEvent`. -/
structure StoredEvent (nostr : NostrCrate) where
  event : VerifiedEvent nostr
  source : EventSource
  priority : ℤ

namespace StoredEvent

/-- The `QueryEvent` of a stored copy. -/
def toQueryEvent (stored : StoredEvent nostr) : QueryEvent nostr where
  event := stored.event
  source := stored.source
  priority := stored.priority

/-- The place of a copy in an answer. -/
def rank (stored : StoredEvent nostr) : ℕᵒᵈ ×ₗ List ℕ := stored.event.event.rank

end StoredEvent

/-- The place of an event in an answer. -/
def QueryEvent.rank (event : QueryEvent nostr) : ℕᵒᵈ ×ₗ List ℕ := event.event.event.rank

/-- `InMemoryEventBus` with its `MemoryState` and the state of its policy. Of a subscription, the
filters; its handler is its id. -/
structure InMemoryEventBus (nostr : NostrCrate) (σ : Type) where
  events : List (StoredEvent nostr) := []
  nextSubscriptionId : ℕ := 0
  subscriptions : List (ℕ × List Filter) := []
  policy : Option (CheckEvent nostr σ) := none
  policyState : σ

namespace InMemoryEventBus

/-- The decision of the policy about a publication; without a policy every event is allowed. -/
def checkEvent (bus : InMemoryEventBus nostr σ) (event : VerifiedEvent nostr) (source : EventSource) :
    Except PubsubError PolicyDecision × σ :=
  match bus.policy with
  | some policy => policy event source bus.policyState
  | none => (.ok (.allow 0), bus.policyState)

/-- `InMemoryEventBus::publish`. The list holds the subscriptions whose handlers are called. -/
def publish (bus : InMemoryEventBus nostr σ) (event : VerifiedEvent nostr) (source : EventSource) :
    Except PubsubError (PublishReport × List ℕ) × InMemoryEventBus nostr σ :=
  match bus.checkEvent event source with
  | (.error error, policyState) => (.error error, { bus with policyState })
  | (.ok decision, policyState) =>
    let (accepted, priority, reason) := reportParts decision
    let report : PublishReport := { accepted, priority, reason }
    if accepted then
      (.ok (report, (bus.subscriptions.filter fun subscription =>
          filtersMatch subscription.2 event.event).map (·.1)),
        { bus with events := bus.events ++ [{ event, source, priority }], policyState })
    else
      (.ok (report, []), { bus with policyState })

/-- `InMemoryEventBus::subscribe`. The counter wraps, and a subscription of the same id is replaced. -/
def subscribe (bus : InMemoryEventBus nostr σ) (filters : List Filter) : InMemoryEventBus nostr σ :=
  { bus with
    nextSubscriptionId := (bus.nextSubscriptionId + 1) % 2 ^ 64
    subscriptions := bus.subscriptions.filter (fun subscription =>
      subscription.1 ≠ bus.nextSubscriptionId) ++ [(bus.nextSubscriptionId, filters)] }

/-- `MemoryEventSubscription::close`. -/
def close (bus : InMemoryEventBus nostr σ) (id : ℕ) : InMemoryEventBus nostr σ :=
  { bus with subscriptions := bus.subscriptions.filter fun subscription => subscription.1 ≠ id }

/-- The walk of one filter over the sorted copies in `query`, with the number of matches so far, the
ids seen and the events found. -/
def scanFilter (filter : Filter) : List (StoredEvent nostr) → ℕ →
    Finset EventId × List (QueryEvent nostr) → Finset EventId × List (QueryEvent nostr)
  | [], _, found => found
  | stored :: rest, matched, (seen, events) =>
    if filter.limit.any (fun limit => limit ≤ matched) then
      (seen, events)
    else if ¬filter.matchEvent stored.event.event then
      scanFilter filter rest matched (seen, events)
    else if stored.event.event.id ∈ seen then
      scanFilter filter rest (matched + 1) (seen, events)
    else
      scanFilter filter rest (matched + 1)
        (insert stored.event.event.id seen, events ++ [stored.toQueryEvent])

/-- `InMemoryEventBus::query`. Without a limit nothing is cut: `usize::MAX` is more than a vector
holds. -/
def query (bus : InMemoryEventBus nostr σ) (filters : List Filter) (options : QueryOptions) :
    QueryReport nostr :=
  let stored := sortByRank StoredEvent.rank bus.events
  let filters := if filters.isEmpty then [Filter.new] else filters
  let found := filters.foldl (fun found filter => scanFilter filter stored 0 found) (∅, [])
  { events := cutTo options.limit (sortByRank QueryEvent.rank found.2) }

/-! ## Runs -/

/-- A call of the bus. -/
inductive Call (nostr : NostrCrate) where
  | publish (event : VerifiedEvent nostr) (source : EventSource)
  | subscribe (filters : List Filter)
  | close (id : ℕ)

/-- The bus after a call. -/
def after (bus : InMemoryEventBus nostr σ) : Call nostr → InMemoryEventBus nostr σ
  | .publish event source => (bus.publish event source).2
  | .subscribe filters => bus.subscribe filters
  | .close id => bus.close id

/-- The publication of a call, if the report says that it was accepted. -/
def acceptedBy (bus : InMemoryEventBus nostr σ) : Call nostr → Option (StoredEvent nostr)
  | .publish event source =>
    match (bus.publish event source).1 with
    | .ok (report, _) =>
      if report.accepted then some { event, source, priority := report.priority } else none
    | .error _ => none
  | _ => none

/-- The bus after some calls, and the publications that they accepted. -/
def run (bus : InMemoryEventBus nostr σ) :
    List (Call nostr) → InMemoryEventBus nostr σ × List (StoredEvent nostr)
  | [] => (bus, [])
  | call :: rest =>
    let (last, accepted) := (bus.after call).run rest
    (last, (bus.acceptedBy call).toList ++ accepted)

theorem events_after (bus : InMemoryEventBus nostr σ) (call : Call nostr) :
    (bus.after call).events = bus.events ++ (bus.acceptedBy call).toList := by
  cases call with
  | publish event source =>
    rw [after, acceptedBy, publish]
    rcases bus.checkEvent event source with ⟨error | decision, policyState⟩
    · simp
    · cases decision <;> simp [reportParts]
  | subscribe filters => simp [after, acceptedBy, subscribe]
  | close id => simp [after, acceptedBy, close]

/-- A bus holds a copy for each accepted publication, in their order. -/
theorem events_run (bus : InMemoryEventBus nostr σ) (calls : List (Call nostr)) :
    (bus.run calls).1.events = bus.events ++ (bus.run calls).2 := by
  induction calls generalizing bus with
  | nil => simp [run]
  | cons call rest ih =>
    rw [run]
    simp only
    rw [ih, events_after, List.append_assoc]

/-! ## What a query collects -/

/-- The copies that a filter still reaches after some matches. -/
def reached (filter : Filter) (matched : ℕ) (stored : List (StoredEvent nostr)) :
    List (StoredEvent nostr) :=
  cutTo (filter.limit.map (· - matched))
    (stored.filter fun copy => filter.matchEvent copy.event.event)

theorem reached_of_full {filter : Filter} {matched : ℕ}
    (h : filter.limit.any (fun limit => limit ≤ matched) = true) (stored : List (StoredEvent nostr)) :
    reached filter matched stored = [] := by
  cases hlimit : filter.limit with
  | none => simp [hlimit] at h
  | some limit =>
    have hzero : limit - matched = 0 := Nat.sub_eq_zero_of_le (by simpa [hlimit] using h)
    simp [reached, cutTo, hlimit, hzero]

theorem reached_of_not_matchEvent {filter : Filter} {matched : ℕ} {copy : StoredEvent nostr}
    (h : ¬filter.matchEvent copy.event.event = true) (rest : List (StoredEvent nostr)) :
    reached filter matched (copy :: rest) = reached filter matched rest := by
  rw [reached, List.filter_cons, if_neg h, reached]

theorem reached_of_matchEvent {filter : Filter} {matched : ℕ} {copy : StoredEvent nostr}
    (hroom : ¬filter.limit.any (fun limit => limit ≤ matched) = true)
    (h : filter.matchEvent copy.event.event = true) (rest : List (StoredEvent nostr)) :
    reached filter matched (copy :: rest) = copy :: reached filter (matched + 1) rest := by
  rw [reached, List.filter_cons, if_pos h, reached]
  cases hlimit : filter.limit with
  | none => rfl
  | some limit =>
    simp only [hlimit, Option.any_some, decide_eq_true_eq, not_le] at hroom
    have hsucc : limit - matched = limit - (matched + 1) + 1 := by omega
    simp [cutTo, hsucc]

/-- What the walks have found of some copies: one event for each id. -/
structure Collected (copies : List (StoredEvent nostr))
    (found : Finset EventId × List (QueryEvent nostr)) : Prop where
  seen : ∀ id, id ∈ found.1 ↔ ∃ copy ∈ copies, copy.event.event.id = id
  ids : ∀ id, id ∈ found.2.map (·.event.event.id) ↔ id ∈ found.1
  nodup : (found.2.map (·.event.event.id)).Nodup
  stored : ∀ event ∈ found.2, ∃ copy ∈ copies, copy.toQueryEvent = event

namespace Collected

variable {copies : List (StoredEvent nostr)} {seen : Finset EventId} {events : List (QueryEvent nostr)}
  {copy : StoredEvent nostr}

theorem again (h : Collected copies (seen, events)) (hseen : copy.event.event.id ∈ seen) :
    Collected (copies ++ [copy]) (seen, events) where
  seen := by
    intro id
    rw [h.seen]
    constructor
    · rintro ⟨old, hold, hid⟩
      exact ⟨old, List.mem_append_left _ hold, hid⟩
    · rintro ⟨old, hold, rfl⟩
      rcases List.mem_append.mp hold with hold | hold
      · exact ⟨old, hold, rfl⟩
      · rw [List.mem_singleton.mp hold]
        exact (h.seen _).mp hseen
  ids := h.ids
  nodup := h.nodup
  stored := by
    intro event hevent
    obtain ⟨old, hold, heq⟩ := h.stored event hevent
    exact ⟨old, List.mem_append_left _ hold, heq⟩

theorem add (h : Collected copies (seen, events)) (hnew : copy.event.event.id ∉ seen) :
    Collected (copies ++ [copy])
      (insert copy.event.event.id seen, events ++ [copy.toQueryEvent]) where
  seen := by
    intro id
    rw [Finset.mem_insert, h.seen]
    constructor
    · rintro (rfl | ⟨old, hold, hid⟩)
      · exact ⟨copy, List.mem_append_right _ (List.mem_singleton_self copy), rfl⟩
      · exact ⟨old, List.mem_append_left _ hold, hid⟩
    · rintro ⟨old, hold, rfl⟩
      rcases List.mem_append.mp hold with hold | hold
      · exact .inr ⟨old, hold, rfl⟩
      · rw [List.mem_singleton.mp hold]
        exact .inl rfl
  ids := by
    intro id
    rw [List.map_append, List.mem_append, Finset.mem_insert, h.ids, or_comm]
    exact or_congr_left List.mem_singleton
  nodup := by
    rw [List.map_append]
    refine List.nodup_append.mpr ⟨h.nodup, List.nodup_singleton _, ?_⟩
    rintro id hid other hother rfl
    rw [List.map_singleton, List.mem_singleton] at hother
    exact hnew (hother ▸ (h.ids id).mp hid)
  stored := by
    intro event hevent
    rcases List.mem_append.mp hevent with hevent | hevent
    · obtain ⟨old, hold, heq⟩ := h.stored event hevent
      exact ⟨old, List.mem_append_left _ hold, heq⟩
    · exact ⟨copy, List.mem_append_right _ (List.mem_singleton_self copy),
        (List.mem_singleton.mp hevent).symm⟩

/-- A walk collects the copies that its filter reaches. -/
theorem scanFilter (filter : Filter) (stored : List (StoredEvent nostr)) (matched : ℕ)
    {found : Finset EventId × List (QueryEvent nostr)} (h : Collected copies found) :
    Collected (copies ++ reached filter matched stored) (scanFilter filter stored matched found) := by
  induction stored generalizing copies matched found with
  | nil =>
    have hnil : reached filter matched ([] : List (StoredEvent nostr)) = [] := by
      cases hlimit : filter.limit <;> simp [reached, cutTo, hlimit]
    rw [hnil, List.append_nil]
    exact h
  | cons copy rest ih =>
    obtain ⟨seen, events⟩ := found
    rw [InMemoryEventBus.scanFilter]
    by_cases hfull : filter.limit.any (fun limit => limit ≤ matched) = true
    · rw [if_pos hfull, reached_of_full hfull, List.append_nil]
      exact h
    rw [if_neg hfull]
    by_cases hmatch : filter.matchEvent copy.event.event = true
    · rw [if_neg (not_not.mpr hmatch), reached_of_matchEvent hfull hmatch,
        List.append_cons copies copy]
      by_cases hseen : copy.event.event.id ∈ seen
      · rw [if_pos hseen]
        exact ih (matched + 1) (h.again hseen)
      · rw [if_neg hseen]
        exact ih (matched + 1) (h.add hseen)
    · rw [if_pos hmatch, reached_of_not_matchEvent hmatch]
      exact ih matched h

theorem scanFilters (filters : List Filter) (stored : List (StoredEvent nostr))
    {found : Finset EventId × List (QueryEvent nostr)} (h : Collected copies found) :
    Collected (copies ++ filters.flatMap fun filter => reached filter 0 stored)
      (filters.foldl (fun found filter => InMemoryEventBus.scanFilter filter stored 0 found) found) := by
  induction filters generalizing copies found with
  | nil =>
    rw [List.flatMap_nil, List.append_nil]
    exact h
  | cons filter rest ih =>
    rw [List.flatMap_cons, ← List.append_assoc]
    exact ih (h.scanFilter filter stored 0)

theorem empty : Collected ([] : List (StoredEvent nostr)) (∅, []) where
  seen := by simp
  ids := by simp
  nodup := List.nodup_nil
  stored := by simp

end Collected

/-! ## What a query should answer -/

/-- The first distinct events that match a filter, as many as its limit, by their ranks. -/
def wantedRanks (published : List (StoredEvent nostr)) (filter : Filter) : List (ℕᵒᵈ ×ₗ List ℕ) :=
  cutTo filter.limit (sortedSet id
    ((published.filter fun copy => filter.matchEvent copy.event.event).map StoredEvent.rank))

/-- The events that the filters want, in their order and cut to the limit of the query. -/
def expectedRanks (published : List (StoredEvent nostr)) (filters : List Filter)
    (options : QueryOptions) : List (ℕᵒᵈ ×ₗ List ℕ) :=
  cutTo options.limit (sortedSet id (filters.flatMap (wantedRanks published)))

/-- A query answers with the events that are expected, each from a publication. -/
def CountsEvents (bus : InMemoryEventBus nostr σ) (published : List (StoredEvent nostr))
    (filters : List Filter) (options : QueryOptions) : Prop :=
  (bus.query filters options).events.map QueryEvent.rank = expectedRanks published filters options ∧
    ∀ event ∈ (bus.query filters options).events, ∃ copy ∈ published, copy.toQueryEvent = event

/-- A filter comes to an event before its limit is used up by copies of the events before it. -/
def Reaches (published : List (StoredEvent nostr)) (filter : Filter) (rank : ℕᵒᵈ ×ₗ List ℕ) : Prop :=
  (∃ copy ∈ published, copy.rank = rank ∧ filter.matchEvent copy.event.event = true) ∧
    ∀ limit, filter.limit = some limit →
      published.countP (fun copy => filter.matchEvent copy.event.event && copy.rank < rank) < limit

theorem mem_ranks_reached {published : List (StoredEvent nostr)} {filter : Filter}
    {rank : ℕᵒᵈ ×ₗ List ℕ} :
    rank ∈ (reached filter 0 (sortByRank StoredEvent.rank published)).map StoredEvent.rank ↔
      Reaches published filter rank := by
  have hsorted : ((sortByRank StoredEvent.rank published).filter fun copy =>
      filter.matchEvent copy.event.event).Pairwise fun a b => a.rank ≤ b.rank :=
    (sorted_sortByRank published).filter _
  have hlimit : filter.limit.map (· - 0) = filter.limit := by simp
  rw [reached, hlimit, mem_map_cutTo_iff hsorted, Reaches]
  refine and_congr ?_ ?_
  · simp only [List.mem_map, List.mem_filter, mem_sortByRank]
    constructor
    · rintro ⟨copy, ⟨hcopy, hmatch⟩, hrank⟩
      exact ⟨copy, hcopy, hrank, hmatch⟩
    · rintro ⟨copy, hcopy, hrank, hmatch⟩
      exact ⟨copy, ⟨hcopy, hmatch⟩, hrank⟩
  · have hcount : ((sortByRank StoredEvent.rank published).filter fun copy =>
        filter.matchEvent copy.event.event).countP (fun copy => copy.rank < rank) =
        published.countP (fun copy => filter.matchEvent copy.event.event && copy.rank < rank) := by
      rw [List.countP_filter, (perm_sortByRank StoredEvent.rank published).countP_eq]
      exact List.countP_congr fun copy _ => by simp [and_comm]
    rw [hcount]

/-- Copies before an event are at least as many as events. -/
theorem Reaches.mem_wantedRanks {published : List (StoredEvent nostr)} {filter : Filter}
    {rank : ℕᵒᵈ ×ₗ List ℕ} (h : Reaches published filter rank) :
    rank ∈ wantedRanks published filter := by
  have hsorted := (strict_sortedSet Function.injective_id
    ((published.filter fun copy => filter.matchEvent copy.event.event).map StoredEvent.rank)).imp
      fun hlt => le_of_lt hlt
  rw [wantedRanks, ← List.map_id (cutTo _ _), mem_map_cutTo_iff hsorted, List.map_id]
  refine ⟨?_, fun limit hlimit => ?_⟩
  · obtain ⟨copy, hcopy, hrank, hmatch⟩ := h.1
    exact (mem_sortedSet Function.injective_id).mpr
      (List.mem_map.mpr ⟨copy, List.mem_filter.mpr ⟨hcopy, hmatch⟩, hrank⟩)
  · refine ((countP_sortedSet_le _ _).trans_eq ?_).trans_lt (h.2 limit hlimit)
    rw [List.countP_map, List.countP_filter]
    exact List.countP_congr fun copy _ => by simp [and_comm]

/-- The ranks of what the walks have found are those of the copies they reached. -/
theorem Collected.ranks_eq (hbinds : nostr.IdBindsTime) {copies : List (StoredEvent nostr)}
    {found : Finset EventId × List (QueryEvent nostr)} (h : Collected copies found) :
    (sortByRank QueryEvent.rank found.2).map QueryEvent.rank =
      sortedSet id (copies.map StoredEvent.rank) := by
  have hnodup : (found.2.map QueryEvent.rank).Nodup := by
    have hids := h.nodup
    rw [List.Nodup, List.pairwise_map] at hids ⊢
    exact hids.imp fun hne heq => hne (Event.id_eq_of_rank_eq heq)
  have hstrict := strict_sortByRank hnodup
  have hsorted : ((sortByRank QueryEvent.rank found.2).map QueryEvent.rank).Pairwise
      fun a b => id a < id b := List.pairwise_map.mpr hstrict
  refine IsLeading.eq_of_sorted hsorted (strict_sortedSet Function.injective_id _) fun rank => ?_
  rw [mem_sortedSet Function.injective_id]
  simp only [List.mem_map, mem_sortByRank]
  constructor
  · rintro ⟨event, hevent, rfl⟩
    obtain ⟨copy, hcopy, rfl⟩ := h.stored event hevent
    exact ⟨copy, hcopy, rfl⟩
  · rintro ⟨copy, hcopy, rfl⟩
    have hid := (h.ids _).mpr ((h.seen _).mpr ⟨copy, hcopy, rfl⟩)
    obtain ⟨event, hevent, heq⟩ := List.mem_map.mp hid
    exact ⟨event, hevent, rank_eq_of_id_eq hbinds heq⟩

/-- The copies that the filters of a query reach. -/
def reachedCopies (events : List (StoredEvent nostr)) (filters : List Filter) :
    List (StoredEvent nostr) :=
  filters.flatMap fun filter => reached filter 0 (sortByRank StoredEvent.rank events)

theorem mem_ranks_reachedCopies {events : List (StoredEvent nostr)} {filters : List Filter}
    {rank : ℕᵒᵈ ×ₗ List ℕ} :
    rank ∈ (reachedCopies events filters).map StoredEvent.rank ↔
      ∃ filter ∈ filters, Reaches events filter rank := by
  rw [reachedCopies, List.map_flatMap, List.mem_flatMap]
  exact exists_congr fun filter => and_congr_right fun _ => mem_ranks_reached

theorem mem_of_mem_reachedCopies {events : List (StoredEvent nostr)} {filters : List Filter}
    {copy : StoredEvent nostr} (h : copy ∈ reachedCopies events filters) : copy ∈ events := by
  obtain ⟨filter, -, hcopy⟩ := List.mem_flatMap.mp h
  have hsublist : (reached filter 0 (sortByRank StoredEvent.rank events)).Sublist
      (sortByRank StoredEvent.rank events) :=
    (cutTo_sublist _ _).trans List.filter_sublist
  exact mem_sortByRank.mp (hsublist.subset hcopy)

theorem ranks_query (hbinds : nostr.IdBindsTime) (bus : InMemoryEventBus nostr σ)
    {filters : List Filter} (hfilters : filters ≠ []) (options : QueryOptions) :
    (bus.query filters options).events.map QueryEvent.rank =
      cutTo options.limit (sortedSet id ((reachedCopies bus.events filters).map StoredEvent.rank)) := by
  have hcollected := Collected.empty.scanFilters filters (sortByRank StoredEvent.rank bus.events)
  rw [query, if_neg (by simpa using hfilters), map_cutTo, hcollected.ranks_eq hbinds,
    List.nil_append, reachedCopies]

theorem copy_of_mem_query (bus : InMemoryEventBus nostr σ) {filters : List Filter}
    (hfilters : filters ≠ []) {options : QueryOptions} {event : QueryEvent nostr}
    (h : event ∈ (bus.query filters options).events) :
    ∃ copy ∈ bus.events, copy.toQueryEvent = event := by
  have hcollected := Collected.empty.scanFilters filters (sortByRank StoredEvent.rank bus.events)
  rw [query, if_neg (by simpa using hfilters)] at h
  obtain ⟨copy, hcopy, heq⟩ :=
    hcollected.stored event (mem_sortByRank.mp ((cutTo_sublist _ _).subset h))
  exact ⟨copy, mem_of_mem_reachedCopies hcopy, heq⟩

/-- What is expected depends on the events only, not on their copies. -/
theorem expectedRanks_append {published again : List (StoredEvent nostr)}
    (hagain : ∀ copy ∈ again, ∃ old ∈ published, old.event = copy.event) (filters : List Filter)
    (options : QueryOptions) :
    expectedRanks (published ++ again) filters options = expectedRanks published filters options := by
  have hwanted : wantedRanks (published ++ again) = wantedRanks published := by
    ext1 filter
    rw [wantedRanks, wantedRanks]
    congr 1
    refine sortedSet_congr Function.injective_id fun rank => ?_
    simp only [List.mem_map, List.mem_filter, List.mem_append]
    constructor
    · rintro ⟨copy, ⟨hcopy | hcopy, hmatch⟩, rfl⟩
      · exact ⟨copy, ⟨hcopy, hmatch⟩, rfl⟩
      · obtain ⟨old, hold, heq⟩ := hagain copy hcopy
        exact ⟨old, ⟨hold, heq ▸ hmatch⟩, by rw [StoredEvent.rank, heq, StoredEvent.rank]⟩
    · rintro ⟨copy, ⟨hcopy, hmatch⟩, hrank⟩
      exact ⟨copy, ⟨.inl hcopy, hmatch⟩, hrank⟩
  rw [expectedRanks, hwanted, expectedRanks]

/-- A query of the bus counts events, not copies, exactly if every expected event is reached by a
filter before copies use up its limit. What is expected does not change when stored events are
published again. -/
theorem query_counts_events_iff (hbinds : nostr.IdBindsTime) (policy : Option (CheckEvent nostr σ))
    (policyState : σ) (calls : List (Call nostr)) (filters : List Filter) (hfilters : filters ≠ [])
    (options : QueryOptions) :
    let outcome := run { policy, policyState } calls
    (outcome.1.CountsEvents outcome.2 filters options ↔
      ∀ rank ∈ expectedRanks outcome.2 filters options,
        ∃ filter ∈ filters, Reaches outcome.2 filter rank) ∧
    ∀ again : List (StoredEvent nostr),
      (∀ copy ∈ again, ∃ old ∈ outcome.2, old.event = copy.event) →
      expectedRanks (outcome.2 ++ again) filters options = expectedRanks outcome.2 filters options := by
  simp only
  have hevents := events_run { policy, policyState } calls
  set bus := (run { policy, policyState } calls).1
  set published := (run { policy, policyState } calls).2
  rw [List.nil_append] at hevents
  refine ⟨?_, fun again hagain => expectedRanks_append hagain filters options⟩
  have hstored : ∀ event ∈ (bus.query filters options).events,
      ∃ copy ∈ published, copy.toQueryEvent = event := by
    intro event hevent
    rw [← hevents]
    exact bus.copy_of_mem_query hfilters hevent
  -- the answer is the beginning of a sorted part of what the filters want
  rw [CountsEvents, and_iff_left hstored, ranks_query hbinds bus hfilters, hevents, expectedRanks,
    cutTo_eq_cutTo_iff (strict_sortedSet Function.injective_id _)
      (strict_sortedSet Function.injective_id _)]
  · refine forall₂_congr fun rank _ => ?_
    rw [mem_sortedSet Function.injective_id, mem_ranks_reachedCopies]
  · intro rank hrank
    rw [mem_sortedSet Function.injective_id, mem_ranks_reachedCopies] at hrank
    obtain ⟨filter, hfilter, hreaches⟩ := hrank
    rw [mem_sortedSet Function.injective_id]
    exact List.mem_flatMap.mpr ⟨filter, hfilter, hreaches.mem_wantedRanks⟩

/-! ### A note that was published twice -/

/-- The newer note is published twice, then the older one. -/
def noteCalls : List (Call noteCrate) :=
  [.publish verifiedB (.ofFipsEndpoint "b"), .publish verifiedB (.ofFipsEndpoint "b"),
    .publish verifiedA (.ofFipsEndpoint "a")]

/-- A filter for the two newest events. -/
def twoNewest : Filter := { Filter.new with limit := some 2 }

/-- A query for the two newest events answers with one of the two stored notes. -/
theorem copies_hide_note :
    ¬(run { policyState := () } noteCalls).1.CountsEvents
      (run { policyState := () } noteCalls).2 [twoNewest] ⟨none⟩ := by
  rintro ⟨hranks, -⟩
  revert hranks
  decide +kernel

/-- A query without a limit for each filter answers with both. -/
theorem query_counts_notes :
    (run { policyState := () } noteCalls).1.CountsEvents
      (run { policyState := () } noteCalls).2 [Filter.new] ⟨none⟩ := by
  refine (query_counts_events_iff noteCrate_idBindsTime none () noteCalls [Filter.new]
    (List.cons_ne_nil _ _) ⟨none⟩).1.mpr ?_
  intro rank hrank
  refine ⟨Filter.new, List.mem_singleton_self _, ?_, nofun⟩
  have hranks : expectedRanks (run { policyState := () } noteCalls).2 [Filter.new] ⟨none⟩ =
      [noteB.rank, noteA.rank] := by decide +kernel
  rw [hranks] at hrank
  simp only [List.mem_cons, List.not_mem_nil, or_false] at hrank
  rcases hrank with rfl | rfl
  · exact ⟨⟨verifiedB, .ofFipsEndpoint "b", 0⟩, by exact List.mem_cons_self, rfl, rfl⟩
  · exact ⟨⟨verifiedA, .ofFipsEndpoint "a", 0⟩,
      by exact List.mem_cons_of_mem _ (List.mem_cons_of_mem _ List.mem_cons_self), rfl, rfl⟩

end InMemoryEventBus

end NostrPubsub
