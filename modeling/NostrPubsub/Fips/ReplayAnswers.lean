import NostrPubsub.Fips.PrivacyRoles
import NostrPubsub.Fips.RecentEvents
import NostrPubsub.Fips.WireCodec
import NostrPubsub.Query.Subscriptions
import NostrPubsub.Routing.QueryRoutes
import NostrPubsub.Store.MemoryBus

/-!
# Answers to a request for history

A peer's `REQ` is answered from the cache of recent events by `handle_req` (`client_inner.rs`), and
then from the store of the application by `serve` (`replay_source.rs`), which is told what was
advertised already. Both answer with inventories.

The two parts together keep to the limit of the request, and do not repeat each other. The store's
part starts with the newest events; the part of the cache starts with those that came in first.
-/

namespace NostrPubsub.Fips

variable {nostr : NostrCrate}

/-! ## The retained part -/

/-- `ReplayQuery`. -/
inductive ReplayQuery where
  | subscription (id : String) (filters : List Filter) (excluded : List EventId) (limit : ℕ)
  | event (eventId : EventId)

namespace ReplayQuery

/-- How many events the query is about. -/
def limit : ReplayQuery → ℕ
  | .subscription _ _ _ limit => limit
  | .event _ => 1

/-- The filters of the query; those of one event are `Filter::new().id(id).limit(1)`. -/
def filters : ReplayQuery → List Filter
  | .subscription _ filters _ _ => filters
  | .event eventId =>
    [{ criteria := fun event => event.id = eventId, since := none, until_ := none, limit := some 1 }]

def excluded : ReplayQuery → List EventId
  | .subscription _ _ excluded _ => excluded
  | .event _ => []

end ReplayQuery

/-- `query_limit`. -/
def queryLimit (filters : List Filter) (maximum : ℕ) : ℕ :=
  if filters.isEmpty then maximum
  else min (filters.foldl (fun total filter => satAdd total (filter.limit.getD maximum)) 0) maximum

/-- `bounded_events`. -/
def boundedEvents (report : QueryReport nostr) (filters : List Filter) (query : ReplayQuery)
    (limit : ℕ) : List (VerifiedEvent nostr × EventSource) :=
  let events := ((report.events.take limit).filter fun found =>
    decide (found.event.event.id ∉ query.excluded) &&
      filters.any fun filter => filter.matchEvent found.event.event).map fun found =>
    (found.event, found.source)
  let events := sortByRank (fun event => event.1.event.rank) events
  let events := events.destutter fun a b => a.1.event.id ≠ b.1.event.id
  events.take (limit - query.excluded.length)

/-! ## Inventories -/

/-- `event_payload_bytes`. Every verified event has a JSON form. -/
def eventPayloadBytes (event : VerifiedEvent nostr) : Except PubsubError UInt32 :=
  match nostr.toJson event.event with
  | .ok bytes =>
    if bytes.length ≤ u32Max then .ok (.ofNat bytes.length)
    else .error (.validation "Nostr event payload is too large")
  | .error error => .error (.validation error)

/-- `PubsubPeerSubscriptionStore::matching_subscriptions`. -/
def matchingSubscriptions (store : PubsubPeerSubscriptionStore)
    (peer : String) (event : VerifiedEvent nostr) : List PubsubPeerSubscription :=
  (((store.peers.lookup peer).map PeerSubscriptionSet.intoValues).getD []).filter
    fun subscription => subscription.filters.any fun filter => filter.matchEvent event.event

/-- The parts of a `ClientInner` that its answers depend on and that do not change. -/
structure ReplayClient where
  role : ClientRole
  advert : AdvertFilter
  options : FipsPubsubClientOptions
  codec : FipsPubsubWireCodec
  /-- The JSON forms of messages. -/
  json : NostrJson
  /-- The JSON forms of filters, which are counted. -/
  subscriptionJson : SubscriptionJson

namespace ReplayClient

variable (client : ReplayClient)

/-- The frame of `inventory_frame`. -/
def inventory (subscriptionIds : List String) (event : VerifiedEvent nostr) (hopLimit : UInt8) :
    Except PubsubError Frame :=
  if ¬ client.role.canExport event then
    .error (invalidOption "inventory author is not public on this receiver")
  else do
    let payloadBytes ← eventPayloadBytes event
    client.codec.encodeFrame client.json
      (.inv subscriptionIds event.event.id (.ofNat event.event.kind) payloadBytes hopLimit :
        FipsPubsubWireMessage nostr)

/-- What `inventory_frame` does to the cache: a receiver keeps the approved body at hand. -/
def keepApproved (recent : RecentEvents nostr) (event : VerifiedEvent nostr) (hopLimit : UInt8) :
    RecentEvents nostr :=
  match client.role with
  | .receiver _ =>
    if client.role.canExport event then
      (recent.insertForPublish event
        { id := "approved-public-replay", kind := .localIndex, url := none } hopLimit).2
    else recent
  | _ => recent

/-- `ClientInner::validate_outbound`. -/
def permits (publications : Publications) (recent : RecentEvents nostr) (peer : String)
    (frame : Frame) : Except PubsubError Unit := do
  let message ← @FipsPubsubWireCodec.decodeFrame nostr client.json client.codec frame
  client.role.allows client.advert publications recent.event peer message

/-- What `send_frame` meets: the pending publications, and whether the channel to the transport is open
and has room. Both change from one turn of a loop to the next as other threads run. -/
structure Outbound where
  publications : Publications
  hasRoom : Bool

/-- `ClientInner::send_frame`: whether the frame is queued. -/
def sendFrame (outbound : Outbound) (recent : RecentEvents nostr) (peer : String) (frame : Frame) :
    Except PubsubError Unit := do
  client.permits outbound.publications recent peer frame
  if outbound.hasRoom then .ok ()
  else .error (storageError "queue TCP/FIPS Nostr pubsub frame" "no available capacity")

variable (nostr) in
/-- What the loop of `handle_req` leaves: the ids that the store is not asked for, the inventories that
were queued, and the cache. -/
structure Advertised where
  excluded : List EventId
  sent : List (VerifiedEvent nostr × Frame)
  recent : RecentEvents nostr

/-- The loop of `handle_req`. An inventory that cannot be queued is dropped, and its event counts all
the same. -/
def advertiseCached (peer subscriptionId : String) :
    List (CachedEvent nostr) → (ℕ → Outbound) → RecentEvents nostr → Advertised nostr
  | [], _, recent => ⟨[], [], recent⟩
  | cached :: rest, outbounds, recent =>
    let recent := client.keepApproved recent cached.event cached.hopLimit
    let later := advertiseCached peer subscriptionId rest (fun turn => outbounds (turn + 1)) recent
    match client.inventory [subscriptionId] cached.event cached.hopLimit with
    | .error _ => later
    | .ok frame =>
      { later with
        excluded := cached.id :: later.excluded
        sent :=
          if (client.sendFrame (outbounds 0) recent peer frame).isOk then
            (cached.event, frame) :: later.sent
          else later.sent }

end ReplayClient

/-- The cached events that a `REQ` may be answered with, in the order of the cache. -/
def RecentEvents.replayable (recent : RecentEvents nostr) (filters : List Filter) :
    List (CachedEvent nostr) :=
  (recent.matching filters).filter fun cached => 0 < cached.hopLimit

/-! ## The answer to a request -/

variable (nostr) in
/-- What `handle_req` does: the inventories that `send_frame` queues for it, the query that it queues
for the store, and the state that it leaves. -/
structure ReqAnswer where
  sent : List (VerifiedEvent nostr × Frame)
  replay : Option ReplayQuery
  recent : RecentEvents nostr
  subscriptions : PubsubPeerSubscriptionStore

namespace ReplayClient

variable (client : ReplayClient)

/-- `handle_req`. -/
def handleReq (recent : RecentEvents nostr) (subscriptions : PubsubPeerSubscriptionStore)
    (outbounds : ℕ → Outbound) (peer subscriptionId : String) (filters : List Filter) :
    ReqAnswer nostr :=
  match subscriptions.upsertFilters client.subscriptionJson peer subscriptionId filters with
  | (.error _, subscriptions) => { sent := [], replay := none, recent, subscriptions }
  | (.ok _, subscriptions) =>
    let limit := queryLimit filters client.options.maxReplayEvents
    let ⟨excluded, sent, recent⟩ := client.advertiseCached peer subscriptionId
      ((recent.replayable filters).take limit) outbounds recent
    let replay :=
      if excluded.length < limit then some (.subscription subscriptionId filters excluded limit)
      else none
    { sent, replay, recent, subscriptions }

/-! ## The answer from the store -/

variable (nostr) in
/-- What a turn of the loop of `serve` finds: whether the policy of the application lets the event
pass, whether the client still runs and has the same store, the subscriptions of peers, the cache, and
what `send_frame` meets. A query that times out is as one whose store is gone. -/
structure Turn where
  admitted : Bool
  attached : Bool
  subscriptions : PubsubPeerSubscriptionStore
  recent : RecentEvents nostr
  outbound : Outbound

/-- The frame of a turn, if there is one. -/
def turnFrame (turn : Turn nostr) (peer : String) (query : ReplayQuery) (event : VerifiedEvent nostr) :
    Option Frame :=
  match query with
  | .subscription id _ _ _ =>
    if (matchingSubscriptions turn.subscriptions peer event).any
        fun found => found.subscriptionId = id then
      (client.inventory [id] event client.options.maxHops).toOption
    else none
  | .event eventId =>
    match matchingSubscriptions turn.subscriptions peer event with
    | [] => none
    | found :: _ =>
      if event.event.id ≠ eventId then none
      else (client.codec.encodeFrame client.json (.event (some found.subscriptionId) event)).toOption

/-- The cache when the frame of a turn is sent. -/
def turnRecent (turn : Turn nostr) (query : ReplayQuery) (event : VerifiedEvent nostr) :
    RecentEvents nostr :=
  match query with
  | .subscription _ _ _ _ => client.keepApproved turn.recent event client.options.maxHops
  | .event _ => turn.recent

/-- The loop of `serve`. -/
def serveEvents (peer : String) (query : ReplayQuery) :
    List (VerifiedEvent nostr × EventSource) → (ℕ → Turn nostr) → List (VerifiedEvent nostr × Frame)
  | [], _ => []
  | (event, _) :: rest, turns =>
    let turn := turns 0
    let later := fun i => turns (i + 1)
    if ¬ turn.admitted then serveEvents peer query rest later
    else if ¬ turn.attached then []
    else
      match client.turnFrame turn peer query event with
      | some frame =>
        if (client.sendFrame turn.outbound (client.turnRecent turn query event) peer frame).isOk then
          (event, frame) :: serveEvents peer query rest later
        else serveEvents peer query rest later
      | none => serveEvents peer query rest later

/-- `serve`, for what the store answers to the query. -/
def serve (peer : String) (query : ReplayQuery) (report : QueryReport nostr) (turns : ℕ → Turn nostr) :
    List (VerifiedEvent nostr × Frame) :=
  if query.limit = 0 then []
  else
    client.serveEvents peer query (boundedEvents report query.filters query query.limit) turns

/-- All the events that are advertised for a request. -/
def advertised (recent : RecentEvents nostr) (subscriptions : PubsubPeerSubscriptionStore)
    (outbounds : ℕ → Outbound) (peer subscriptionId : String) (filters : List Filter)
    (report : QueryReport nostr) (turns : ℕ → Turn nostr) : List (VerifiedEvent nostr) :=
  let answer := client.handleReq recent subscriptions outbounds peer subscriptionId filters
  let retained := answer.replay.elim [] fun query => client.serve peer query report turns
  (answer.sent ++ retained).map Prod.fst

end ReplayClient

/-! ## The part of the store -/

variable {client : ReplayClient} {report : QueryReport nostr} {filters : List Filter}
  {query : ReplayQuery} {limit : ℕ}

/-- The events from the store come newest first, each once. -/
theorem strict_boundedEvents :
    (boundedEvents report filters query limit).Pairwise fun a b => a.1.event.rank < b.1.event.rank := by
  refine List.Pairwise.sublist (List.take_sublist _ _) ?_
  exact strict_destutter (sorted_sortByRank _) fun a b => Event.id_eq_of_rank_eq

theorem length_boundedEvents_le :
    (boundedEvents report filters query limit).length ≤ limit - query.excluded.length :=
  List.length_take_le _ _

theorem notMem_excluded {event : VerifiedEvent nostr × EventSource}
    (h : event ∈ boundedEvents report filters query limit) :
    event.1.event.id ∉ query.excluded := by
  have hkept := (List.destutter_sublist _ _).subset (List.mem_of_mem_take h)
  rw [mem_sortByRank, List.mem_map] at hkept
  obtain ⟨found, hfound, rfl⟩ := hkept
  have hpasses := (List.mem_filter.mp hfound).2
  rw [Bool.and_eq_true, decide_eq_true_eq] at hpasses
  exact hpasses.1

/-- The loop of `serve` only leaves events out. -/
theorem serveEvents_sublist (peer : String) (query : ReplayQuery)
    (events : List (VerifiedEvent nostr × EventSource)) (turns : ℕ → ReplayClient.Turn nostr) :
    ((client.serveEvents peer query events turns).map Prod.fst).Sublist (events.map Prod.fst) := by
  induction events generalizing turns with
  | nil => exact List.Sublist.refl _
  | cons event rest ih =>
    -- Every event is skipped, ends the loop, or is served and perhaps not sent.
    rw [ReplayClient.serveEvents]
    split
    · exact (ih _).cons _
    · split
      · exact List.nil_sublist _
      · split
        · split
          · exact (ih _).cons_cons _
          · exact (ih _).cons _
        · exact (ih _).cons _

/-- Different events for different ids. -/
theorem nodup_boundedEvents (hbinds : nostr.IdBindsTime) :
    ((boundedEvents report filters query limit).map fun event => event.1.event.id).Nodup := by
  rw [List.Nodup, List.pairwise_map]
  exact strict_boundedEvents.imp fun hlt hid => hlt.ne (rank_eq_of_id_eq hbinds hid)

theorem serve_sublist (client : ReplayClient) (peer : String) (query : ReplayQuery) (report : QueryReport nostr)
    (turns : ℕ → ReplayClient.Turn nostr) :
    ((client.serve peer query report turns).map Prod.fst).Sublist
      ((boundedEvents report query.filters query query.limit).map Prod.fst) := by
  rw [ReplayClient.serve]
  split
  · exact List.nil_sublist _
  · exact serveEvents_sublist peer query _ turns

/-- What the store's part keeps to: the rest of the limit, no event twice, none that is excluded. -/
theorem serve_spec (client : ReplayClient) (hbinds : nostr.IdBindsTime) (peer : String) (query : ReplayQuery)
    (report : QueryReport nostr) (turns : ℕ → ReplayClient.Turn nostr) :
    let ids := (client.serve peer query report turns).map fun served => served.1.event.id
    ids.length ≤ query.limit - query.excluded.length ∧ ids.Nodup ∧ ∀ id ∈ ids, id ∉ query.excluded := by
  have hsublist : ((client.serve peer query report turns).map fun served => served.1.event.id).Sublist
      ((boundedEvents report query.filters query query.limit).map fun event => event.1.event.id) := by
    have hmap := (serve_sublist client peer query report turns).map RecentEvents.eventId
    rwa [List.map_map, List.map_map] at hmap
  refine ⟨?_, (nodup_boundedEvents hbinds).sublist hsublist, fun id hid => ?_⟩
  · refine hsublist.length_le.trans ?_
    rw [List.length_map]
    exact length_boundedEvents_le
  · obtain ⟨event, hevent, rfl⟩ := List.mem_map.mp (hsublist.subset hid)
    exact notMem_excluded hevent

/-! ## The part of the cache -/

/-- The cache after the loop of `handle_req` has looked at some events. -/
def ReplayClient.kept (client : ReplayClient) (recent : RecentEvents nostr)
    (items : List (CachedEvent nostr)) : RecentEvents nostr :=
  items.foldl (fun recent cached => client.keepApproved recent cached.event cached.hopLimit) recent

/-- In a turn of the loop of `handle_req` an inventory of the event can be built, the role permits it,
and there is room for it. -/
def ReplayClient.canAdvertise (client : ReplayClient) (recent : RecentEvents nostr)
    (outbounds : ℕ → ReplayClient.Outbound) (peer subscriptionId : String)
    (items : List (CachedEvent nostr)) (turn : ℕ) (cached : CachedEvent nostr) : Bool :=
  match client.inventory [subscriptionId] cached.event cached.hopLimit with
  | .error _ => false
  | .ok frame =>
    (client.permits (outbounds turn).publications (client.kept recent (items.take (turn + 1))) peer
      frame).isOk && (outbounds turn).hasRoom

/-- The events that can be advertised. -/
def ReplayClient.advertisable (client : ReplayClient) (recent : RecentEvents nostr)
    (outbounds : ℕ → ReplayClient.Outbound) (peer subscriptionId : String)
    (items : List (CachedEvent nostr)) : List (CachedEvent nostr) :=
  (items.zipIdx.filter fun item =>
    client.canAdvertise recent outbounds peer subscriptionId items item.2 item.1).map Prod.fst

theorem isOk_sendFrame (client : ReplayClient) (outbound : ReplayClient.Outbound)
    (recent : RecentEvents nostr) (peer : String) (frame : Frame) :
    (client.sendFrame outbound recent peer frame).isOk =
      ((client.permits outbound.publications recent peer frame).isOk && outbound.hasRoom) := by
  rw [ReplayClient.sendFrame]
  cases client.permits outbound.publications recent peer frame with
  | error error => rfl
  | ok _ => cases hroom : outbound.hasRoom <;> simp [Except.isOk, Except.toBool, bind, Except.bind]

section Loop

variable {recent : RecentEvents nostr} {outbounds : ℕ → ReplayClient.Outbound}
  {peer subscriptionId : String}

/-- The turns after the first are those of the other events. -/
theorem advertisable_cons (cached : CachedEvent nostr) (rest : List (CachedEvent nostr)) :
    client.advertisable recent outbounds peer subscriptionId (cached :: rest) =
      (if client.canAdvertise recent outbounds peer subscriptionId (cached :: rest) 0 cached then
        [cached] else []) ++
      client.advertisable (client.keepApproved recent cached.event cached.hopLimit)
        (fun turn => outbounds (turn + 1)) peer subscriptionId rest := by
  have hlater : ∀ turn other, client.canAdvertise recent outbounds peer subscriptionId
      (cached :: rest) (turn + 1) other =
        client.canAdvertise (client.keepApproved recent cached.event cached.hopLimit)
          (fun turn => outbounds (turn + 1)) peer subscriptionId rest turn other := fun _ _ => rfl
  rw [ReplayClient.advertisable, ReplayClient.advertisable, List.zipIdx_cons, Nat.zero_add,
    List.zipIdx_succ, List.filter_cons, List.filter_map]
  simp only [Function.comp_def, hlater]
  split <;> simp [List.map_map, Function.comp_def]

/-- The inventories that are queued are those of the events that can be advertised. -/
theorem events_advertiseCached (items : List (CachedEvent nostr)) :
    (client.advertiseCached peer subscriptionId items outbounds recent).sent.map Prod.fst =
      (client.advertisable recent outbounds peer subscriptionId items).map CachedEvent.event := by
  induction items generalizing recent outbounds with
  | nil => rfl
  | cons cached rest ih =>
    have hrest := @ih (client.keepApproved recent cached.event cached.hopLimit)
      (fun turn => outbounds (turn + 1))
    rw [advertisable_cons, List.map_append, ← hrest, ReplayClient.advertiseCached]
    -- An event without an inventory is left out; with one it counts as sent iff the queue takes the
    -- frame.
    cases hframe : client.inventory [subscriptionId] cached.event cached.hopLimit with
    | error error =>
      have hcannot : client.canAdvertise recent outbounds peer subscriptionId (cached :: rest) 0
          cached = false := by
        rw [ReplayClient.canAdvertise, hframe]
      rw [hcannot]
      rfl
    | ok frame =>
      have hcan : client.canAdvertise recent outbounds peer subscriptionId (cached :: rest) 0 cached =
          (client.sendFrame (outbounds 0)
            (client.keepApproved recent cached.event cached.hopLimit) peer frame).isOk := by
        rw [isOk_sendFrame, ReplayClient.canAdvertise, hframe]
        rfl
      rw [hcan]
      dsimp only
      split <;> rfl

/-- Whatever is queued counts, and nothing but the events that the loop looks at. -/
theorem excluded_advertiseCached (client : ReplayClient) (peer subscriptionId : String)
    (items : List (CachedEvent nostr)) (outbounds : ℕ → ReplayClient.Outbound)
    (recent : RecentEvents nostr) :
    let advertised := client.advertiseCached peer subscriptionId items outbounds recent
    (advertised.sent.map fun sent => sent.1.event.id).Sublist advertised.excluded ∧
      advertised.excluded.length ≤ items.length := by
  induction items generalizing recent outbounds with
  | nil => exact ⟨List.Sublist.refl _, le_rfl⟩
  | cons cached rest ih =>
    obtain ⟨hsent, hlength⟩ := ih (fun turn => outbounds (turn + 1))
      (client.keepApproved recent cached.event cached.hopLimit)
    rw [ReplayClient.advertiseCached]
    dsimp only at hsent hlength ⊢
    cases client.inventory [subscriptionId] cached.event cached.hopLimit with
    | error error => exact ⟨hsent, hlength.trans (Nat.le_succ _)⟩
    | ok frame =>
      -- The id is excluded whether the frame was queued or not.
      refine ⟨?_, Nat.succ_le_succ hlength⟩
      dsimp only
      split
      · exact hsent.cons_cons _
      · exact hsent.cons _

end Loop

/-- The store of subscriptions takes the request. -/
def ReplayClient.accepts (client : ReplayClient) (subscriptions : PubsubPeerSubscriptionStore)
    (peer subscriptionId : String) (filters : List Filter) : Bool :=
  (subscriptions.upsertFilters client.subscriptionJson peer subscriptionId filters).1.toOption.isSome

/-- The limit of a request. -/
def ReplayClient.replayLimit (client : ReplayClient) (filters : List Filter) : ℕ :=
  queryLimit filters client.options.maxReplayEvents

section Request

variable {recent : RecentEvents nostr} {subscriptions : PubsubPeerSubscriptionStore}
  {outbounds : ℕ → ReplayClient.Outbound} {peer subscriptionId : String}

theorem handleReq_of_rejected
    (h : client.accepts subscriptions peer subscriptionId filters = false) :
    (client.handleReq recent subscriptions outbounds peer subscriptionId filters).sent = [] ∧
      (client.handleReq recent subscriptions outbounds peer subscriptionId filters).replay = none := by
  rw [ReplayClient.accepts] at h
  rw [ReplayClient.handleReq]
  split
  · exact ⟨rfl, rfl⟩
  · next hok =>
    rw [hok] at h
    cases h

/-- The events at the front of the cache that are advertised for a request. -/
def ReplayClient.leading (client : ReplayClient) (recent : RecentEvents nostr)
    (outbounds : ℕ → ReplayClient.Outbound) (peer subscriptionId : String) (filters : List Filter) :
    List (CachedEvent nostr) :=
  client.advertisable recent outbounds peer subscriptionId
    ((recent.replayable filters).take (client.replayLimit filters))

/-- An accepted request: what is sent, and what the store is asked for. -/
theorem handleReq_of_accepted (recent : RecentEvents nostr) (outbounds : ℕ → ReplayClient.Outbound)
    (h : client.accepts subscriptions peer subscriptionId filters = true) :
    let answer := client.handleReq recent subscriptions outbounds peer subscriptionId filters
    answer.sent.map Prod.fst =
        (client.leading recent outbounds peer subscriptionId filters).map CachedEvent.event ∧
      ∃ excluded, (answer.sent.map fun sent => sent.1.event.id).Sublist excluded ∧
        excluded.length ≤ client.replayLimit filters ∧
        ∀ query, answer.replay = some query → query = .subscription subscriptionId filters excluded
          (client.replayLimit filters) := by
  rw [ReplayClient.accepts] at h
  rw [ReplayClient.handleReq]
  split
  · next herror =>
    rw [herror] at h
    cases h
  · obtain ⟨hsent, hlength⟩ := excluded_advertiseCached client peer subscriptionId
      ((recent.replayable filters).take (client.replayLimit filters)) outbounds recent
    refine ⟨events_advertiseCached _, _, hsent, hlength.trans (List.length_take_le _ _),
      fun query hquery => ?_⟩
    dsimp only at hquery
    split at hquery
    · exact (Option.some.inj hquery).symm
    · cases hquery

/-- What is sent from the cache keeps to the limit. -/
theorem length_sent_le (client : ReplayClient) (recent : RecentEvents nostr)
    (subscriptions : PubsubPeerSubscriptionStore) (outbounds : ℕ → ReplayClient.Outbound)
    (peer subscriptionId : String) (filters : List Filter) :
    (client.handleReq recent subscriptions outbounds peer subscriptionId filters).sent.length ≤
      client.replayLimit filters := by
  cases haccepts : client.accepts subscriptions peer subscriptionId filters with
  | false =>
    rw [(handleReq_of_rejected haccepts).1]
    exact Nat.zero_le _
  | true =>
    obtain ⟨-, excluded, hsent, hlength, -⟩ := handleReq_of_accepted recent outbounds haccepts
    have hle := hsent.length_le
    rw [List.length_map] at hle
    exact hle.trans hlength

/-- Both parts together keep to the limit, and the store repeats nothing. -/
theorem advertised_le_and_nodup (client : ReplayClient) (recent : RecentEvents nostr)
    (subscriptions : PubsubPeerSubscriptionStore) (outbounds : ℕ → ReplayClient.Outbound)
    (peer subscriptionId : String) (filters : List Filter) (hbinds : nostr.IdBindsTime) (report : QueryReport nostr)
    (turns : ℕ → ReplayClient.Turn nostr) :
    (client.advertised recent subscriptions outbounds peer subscriptionId filters report turns).length ≤
        client.replayLimit filters ∧
      (((client.handleReq recent subscriptions outbounds peer subscriptionId filters).sent.map
          fun sent => sent.1.event.id).Nodup →
        ((client.advertised recent subscriptions outbounds peer subscriptionId filters report turns).map
          RecentEvents.eventId).Nodup) := by
  have hsent := length_sent_le client recent subscriptions outbounds peer subscriptionId filters
  cases hreplay : (client.handleReq recent subscriptions outbounds peer subscriptionId filters).replay with
  | none =>
    rw [ReplayClient.advertised, hreplay]
    refine ⟨?_, fun hnodup => ?_⟩
    · simpa using hsent
    · simpa [Function.comp_def, RecentEvents.eventId] using hnodup
  | some query =>
    have haccepts : client.accepts subscriptions peer subscriptionId filters = true := by
      by_contra hrejected
      rw [(handleReq_of_rejected (eq_false_of_ne_true hrejected)).2] at hreplay
      cases hreplay
    obtain ⟨-, excluded, hsublist, hexcluded, hasks⟩ := handleReq_of_accepted recent outbounds haccepts
    have hquery := hasks query hreplay
    rw [ReplayClient.advertised, hreplay]
    generalize (client.handleReq recent subscriptions outbounds peer subscriptionId filters).sent = sent
      at hsublist ⊢
    -- The answer from the store has what the limit leaves after the excluded ids, and none of them.
    subst hquery
    obtain ⟨hlength, hserved, hnew⟩ := serve_spec client hbinds peer
      (.subscription subscriptionId filters excluded (client.replayLimit filters)) report turns
    dsimp only [Option.elim, ReplayQuery.limit, ReplayQuery.excluded] at hlength hserved hnew ⊢
    have hsent := hsublist.length_le
    rw [List.length_map] at hlength hsent
    refine ⟨?_, fun hnodup => ?_⟩
    · rw [List.length_map, List.length_append]
      omega
    · rw [List.map_map, List.map_append, List.nodup_append]
      refine ⟨hnodup, hserved, fun id hid served hmem heq => ?_⟩
      exact hnew served hmem (hsublist.subset (heq ▸ hid))

end Request

/-! ## The newest events -/

/-- Some of the given events, as many as asked and each once, and none of the others comes before
one of them. -/
structure Newest (limit : ℕ) (given chosen : List (VerifiedEvent nostr)) : Prop where
  length_eq : chosen.length = limit
  nodup : (chosen.map RecentEvents.eventId).Nodup
  subset : ∀ event ∈ chosen, event ∈ given
  newer : ∀ event ∈ chosen, ∀ other ∈ given, other.event.id ∉ chosen.map RecentEvents.eventId →
    event.event.rank < other.event.rank

/-- When there are more events in the cache than the request may have, what stands first in the cache
is newer than the rest, and can be sent. -/
structure ReplayClient.LeadsWithNewest (client : ReplayClient) (recent : RecentEvents nostr)
    (subscriptions : PubsubPeerSubscriptionStore) (outbounds : ℕ → ReplayClient.Outbound)
    (peer subscriptionId : String) (filters : List Filter) : Prop where
  accepts : client.accepts subscriptions peer subscriptionId filters = true
  sendable : ∀ turn cached,
    ((recent.replayable filters).take (client.replayLimit filters))[turn]? = some cached →
      client.canAdvertise recent outbounds peer subscriptionId
        ((recent.replayable filters).take (client.replayLimit filters)) turn cached = true
  newer : ∀ cached ∈ (recent.replayable filters).take (client.replayLimit filters),
    ∀ later ∈ (recent.replayable filters).drop (client.replayLimit filters),
      later.id ∉ ((recent.replayable filters).take (client.replayLimit filters)).map CachedEvent.id →
        cached.event.event.rank < later.event.event.rank

/-- Everything is advertised if and only if every turn finds what it needs. -/
theorem advertisable_eq_self_iff {recent : RecentEvents nostr} {outbounds : ℕ → ReplayClient.Outbound}
    {peer subscriptionId : String} {items : List (CachedEvent nostr)} :
    (client.advertisable recent outbounds peer subscriptionId items).length = items.length ↔
      ∀ turn cached, items[turn]? = some cached →
        client.canAdvertise recent outbounds peer subscriptionId items turn cached = true := by
  rw [ReplayClient.advertisable, List.length_map]
  conv_lhs => rhs; rw [← List.length_zipIdx (l := items) (i := 0)]
  rw [List.length_filter_eq_length_iff]
  constructor
  · intro h turn cached hcached
    exact h (cached, turn) (List.mem_zipIdx_iff_getElem?.mpr hcached)
  · rintro h ⟨cached, turn⟩ hmem
    exact h turn cached (List.mem_zipIdx_iff_getElem?.mp hmem)

/-- A limit of one lets the loop look at one event only. -/
theorem canAdvertise_single {recent : RecentEvents nostr} {outbounds : ℕ → ReplayClient.Outbound}
    {peer subscriptionId : String} {items : List (CachedEvent nostr)} (hlength : items.length = 1)
    (hfirst : items[0]?.all (client.canAdvertise recent outbounds peer subscriptionId items 0) = true)
    (turn : ℕ) (cached : CachedEvent nostr) (hcached : items[turn]? = some cached) :
    client.canAdvertise recent outbounds peer subscriptionId items turn cached = true := by
  obtain ⟨hturn, -⟩ := List.getElem?_eq_some_iff.mp hcached
  rw [hlength, Nat.lt_one_iff] at hturn
  subst hturn
  rwa [hcached, Option.all_some] at hfirst

theorem advertisable_eq_self {recent : RecentEvents nostr} {outbounds : ℕ → ReplayClient.Outbound}
    {peer subscriptionId : String} {items : List (CachedEvent nostr)}
    (h : ∀ turn cached, items[turn]? = some cached →
      client.canAdvertise recent outbounds peer subscriptionId items turn cached = true) :
    client.advertisable recent outbounds peer subscriptionId items = items := by
  rw [ReplayClient.advertisable, List.filter_eq_self.mpr, List.zipIdx_map_fst]
  rintro ⟨cached, turn⟩ hmem
  exact h turn cached (List.mem_zipIdx_iff_getElem?.mp hmem)

section Request

variable {recent : RecentEvents nostr} {subscriptions : PubsubPeerSubscriptionStore}
  {outbounds : ℕ → ReplayClient.Outbound} {peer subscriptionId : String}

/-- With more events than the request may have, the newest of them are sent if and only if they stand
first. -/
theorem newest_sent_iff
    (hmore : client.replayLimit filters < (recent.replayable filters).length)
    (hpositive : 0 < client.replayLimit filters)
    (hnodup : ((client.handleReq recent subscriptions outbounds peer subscriptionId filters).sent.map
      fun sent => sent.1.event.id).Nodup) :
    Newest (client.replayLimit filters) ((recent.replayable filters).map CachedEvent.event)
        ((client.handleReq recent subscriptions outbounds peer subscriptionId filters).sent.map Prod.fst) ↔
      client.LeadsWithNewest recent subscriptions outbounds peer subscriptionId filters := by
  set first := (recent.replayable filters).take (client.replayLimit filters) with hfirst
  set rest := (recent.replayable filters).drop (client.replayLimit filters) with hrest
  have hsplit : recent.replayable filters = first ++ rest := (List.take_append_drop _ _).symm
  have hlength : first.length = client.replayLimit filters := List.length_take_of_le hmore.le
  constructor
  · intro hnewest
    have haccepts : client.accepts subscriptions peer subscriptionId filters = true := by
      by_contra hrejected
      have hnothing := hnewest.length_eq
      rw [(handleReq_of_rejected (eq_false_of_ne_true hrejected)).1] at hnothing
      simp at hnothing
      omega
    have hsent := (handleReq_of_accepted recent outbounds haccepts).1
    have hcount := hnewest.length_eq
    rw [hsent, ReplayClient.leading, List.length_map, ← hfirst] at hcount
    -- As many as the limit allows were sent, so each of the first was.
    have hall := advertisable_eq_self_iff.mp (hcount.trans hlength.symm)
    rw [ReplayClient.leading, ← hfirst, advertisable_eq_self hall] at hsent
    rw [hsent] at hnewest
    refine ⟨haccepts, hall, fun cached hcached later hlater hother => ?_⟩
    refine hnewest.newer _ (List.mem_map_of_mem hcached) _ (List.mem_map_of_mem ?_) ?_
    · rw [hsplit]
      exact List.mem_append_right _ hlater
    · rwa [List.map_map]
  · intro hleads
    have hsent := (handleReq_of_accepted recent outbounds hleads.accepts).1
    rw [ReplayClient.leading, advertisable_eq_self hleads.sendable] at hsent
    have hids : ((client.handleReq recent subscriptions outbounds peer subscriptionId filters).sent.map
        fun sent => sent.1.event.id) = (first.map CachedEvent.event).map RecentEvents.eventId := by
      rw [← hsent, List.map_map]
      rfl
    rw [hids] at hnodup
    rw [hsent]
    refine ⟨?_, hnodup, fun event hevent => ?_, fun event hevent other hother hnew => ?_⟩
    · rw [List.length_map, hlength]
    · obtain ⟨cached, hcached, rfl⟩ := List.mem_map.mp hevent
      rw [hsplit]
      exact List.mem_map_of_mem (List.mem_append_left _ hcached)
    · obtain ⟨cached, hcached, rfl⟩ := List.mem_map.mp hevent
      obtain ⟨later, hlater, rfl⟩ := List.mem_map.mp hother
      rw [List.map_map] at hnew
      rw [hsplit, List.mem_append] at hlater
      -- what is not among the first is among the rest
      have hbehind : later ∈ rest := hlater.resolve_left fun hmem => hnew (List.mem_map_of_mem hmem)
      exact hleads.newer cached hcached later hbehind hnew

/-- The answer to a request: the newest events of the cache are sent if there are more than the limit,
and both parts together keep to the limit without repetition. -/
def AnswersAsAsked (client : ReplayClient) (recent : RecentEvents nostr)
    (subscriptions : PubsubPeerSubscriptionStore) (outbounds : ℕ → ReplayClient.Outbound)
    (peer subscriptionId : String) (filters : List Filter) : Prop :=
  (client.replayLimit filters < (recent.replayable filters).length →
    Newest (client.replayLimit filters) ((recent.replayable filters).map CachedEvent.event)
      ((client.handleReq recent subscriptions outbounds peer subscriptionId filters).sent.map Prod.fst)) ∧
  ∀ report turns,
    let events := client.advertised recent subscriptions outbounds peer subscriptionId filters report turns
    events.length ≤ client.replayLimit filters ∧ (events.map RecentEvents.eventId).Nodup

/-- No event stands twice among those at the front of the cache that are sent. -/
def ReplayClient.SendsOnce (client : ReplayClient) (recent : RecentEvents nostr)
    (subscriptions : PubsubPeerSubscriptionStore) (outbounds : ℕ → ReplayClient.Outbound)
    (peer subscriptionId : String) (filters : List Filter) : Prop :=
  client.accepts subscriptions peer subscriptionId filters = true →
    ((client.leading recent outbounds peer subscriptionId filters).map CachedEvent.id).Nodup

theorem nodup_sent_iff :
    ((client.handleReq recent subscriptions outbounds peer subscriptionId filters).sent.map
        fun sent => sent.1.event.id).Nodup ↔
      client.SendsOnce recent subscriptions outbounds peer subscriptionId filters := by
  cases haccepts : client.accepts subscriptions peer subscriptionId filters with
  | false =>
    rw [(handleReq_of_rejected haccepts).1, ReplayClient.SendsOnce, haccepts]
    simp
  | true =>
    have hsent := congrArg (List.map RecentEvents.eventId)
      (handleReq_of_accepted recent outbounds haccepts).1
    rw [List.map_map, List.map_map] at hsent
    have hids : (client.handleReq recent subscriptions outbounds peer subscriptionId filters).sent.map
        (fun sent => sent.1.event.id) =
          (client.leading recent outbounds peer subscriptionId filters).map CachedEvent.id := hsent
    rw [hids, ReplayClient.SendsOnce, haccepts]
    simp

/-- The newest of nothing. -/
theorem newest_zero (given : List (VerifiedEvent nostr)) : Newest 0 given [] :=
  ⟨rfl, List.nodup_nil, by simp, by simp⟩

/-- A request is answered as asked if and only if the cache leads with the newest events, whenever it
has more than the limit, and with different ones. -/
theorem answersAsAsked_iff (hbinds : nostr.IdBindsTime) :
    AnswersAsAsked client recent subscriptions outbounds peer subscriptionId filters ↔
      (client.replayLimit filters < (recent.replayable filters).length →
        0 < client.replayLimit filters →
          client.LeadsWithNewest recent subscriptions outbounds peer subscriptionId filters) ∧
      client.SendsOnce recent subscriptions outbounds peer subscriptionId filters := by
  constructor
  · rintro ⟨hnewest, hboth⟩
    -- A report without events leaves what was sent from the cache alone.
    have hnodup : ((client.handleReq recent subscriptions outbounds peer subscriptionId filters).sent.map
        fun sent => sent.1.event.id).Nodup := by
      have hall := (hboth ⟨[]⟩ fun _ => ⟨false, false, subscriptions, recent, outbounds 0⟩).2
      rw [ReplayClient.advertised, List.map_map, List.map_append] at hall
      exact (List.nodup_append.mp hall).1
    exact ⟨fun hmore hpositive => (newest_sent_iff hmore hpositive hnodup).mp (hnewest hmore),
      nodup_sent_iff.mp hnodup⟩
  · rintro ⟨hleads, honce⟩
    have hnodup := nodup_sent_iff.mpr honce
    refine ⟨fun hmore => ?_, fun report turns => ?_⟩
    · rcases Nat.eq_zero_or_pos (client.replayLimit filters) with hzero | hpositive
      · have hsent := length_sent_le client recent subscriptions outbounds peer subscriptionId filters
        rw [hzero, Nat.le_zero, List.length_eq_zero_iff] at hsent
        rw [hzero, hsent]
        exact newest_zero _
      · exact (newest_sent_iff hmore hpositive hnodup).mpr (hleads hmore hpositive)
    · have hboth := advertised_le_and_nodup client recent subscriptions outbounds peer subscriptionId filters
        hbinds report turns
      exact ⟨hboth.1, hboth.2 hnodup⟩

end Request

/-! ## An older event first -/

/-- The JSON form of a filter that has nothing but a limit. -/
def limitText (filter : Filter) : String :=
  filter.limit.elim "\x7b\x7d" fun limit => "\x7b\"limit\":" ++ toString limit ++ "\x7d"

def limitJson : SubscriptionJson where
  filter filter := .ok (limitText filter)
  req id filters := .ok ("[\"REQ\",\"" ++ id ++ "\"," ++ ",".intercalate (filters.map limitText) ++ "]")

/-- An inventory of a note under the first subscription of a peer. -/
def replayInventory (event : VerifiedEvent noteCrate) : Option Value :=
  (eventPayloadBytes event).toOption.map fun bytes =>
    FipsPubsubWireMessage.toValue inventoryJson
      (.inv ["fips-1"] event.event.id (.ofNat event.event.kind) bytes 4 :
        FipsPubsubWireMessage noteCrate)

/-- The crates as they behave on the inventories of the two notes. -/
def replayJson : NostrJson :=
  { inventoryJson with
    fromSlice frame :=
      match ([verifiedA, verifiedB].filterMap replayInventory).find?
          fun value => inventoryBytes value = frame with
      | some value => .ok value
      | none => .error "expected value at line 1 column 1"
    eventIdFromHex text :=
      match [noteA.id, noteB.id].find? fun id => id.toHex = text with
      | some id => .ok id
      | none => .error "Invalid character" }

/-- A client with the default options. -/
def defaultClient : ReplayClient where
  role := .full
  advert := { kind := 37195, identifier := "fips-overlay-v1" }
  options := {}
  codec := { maxFrameBytes := maxFrameBytesLimit, maxFrameBytes_pos := by decide }
  json := replayJson
  subscriptionJson := limitJson

/-- The channel to the transport has room. -/
def roomy (_ : ℕ) : ReplayClient.Outbound := ⟨∅, true⟩

/-- A cache into which the older of two notes came first. -/
def olderFirst : RecentEvents noteCrate :=
  RecentEvents.run {} (RecentEvents.received [verifiedA, verifiedB] (.ofFipsEndpoint "npub") 4)

/-- One event, whatever it is. -/
def oneEvent : Filter := { criteria := fun _ => true, since := none, until_ := none, limit := some 1 }

def noSubscriptions : PubsubPeerSubscriptionStore :=
  .new { maxPeers := 64, maxSubscriptionsPerPeer := 64, maxFiltersPerSubscription := 4 }

/-- A request for one event is answered with the older of two notes. -/
theorem older_sent :
    (defaultClient.handleReq olderFirst noSubscriptions roomy "npub" "fips-1"
        [oneEvent]).sent.map Prod.fst = [verifiedA] ∧
      ¬ AnswersAsAsked defaultClient olderFirst noSubscriptions roomy "npub" "fips-1" [oneEvent] := by
  have hsent : (defaultClient.handleReq olderFirst noSubscriptions roomy "npub" "fips-1"
      [oneEvent]).sent.map Prod.fst = [verifiedA] := by
    decide +kernel
  refine ⟨hsent, fun hasked => ?_⟩
  have hnewest := hasked.1 (by decide +kernel)
  rw [hsent] at hnewest
  have hlt := hnewest.newer verifiedA List.mem_cons_self verifiedB (by decide +kernel)
    (by decide +kernel)
  revert hlt
  decide +kernel

/-- A cache into which the newer of two notes came first. -/
def newerFirst : RecentEvents noteCrate :=
  RecentEvents.run {} (RecentEvents.received [verifiedB, verifiedA] (.ofFipsEndpoint "npub") 4)

theorem answersAsAsked_iff_newerFirst :
    noteCrate.IdBindsTime ∧
      AnswersAsAsked defaultClient newerFirst noSubscriptions roomy "npub" "fips-1" [oneEvent] := by
  refine ⟨noteCrate_idBindsTime, (answersAsAsked_iff noteCrate_idBindsTime).mpr ⟨?_, ?_⟩⟩
  · intro _ _
    exact ⟨by decide +kernel, canAdvertise_single (by decide +kernel) (by decide +kernel),
      by decide +kernel⟩
  · intro _
    decide +kernel

end NostrPubsub.Fips
