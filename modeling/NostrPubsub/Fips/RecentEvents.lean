import NostrPubsub.Fips.ClientOptions
import NostrPubsub.Fips.LocalDelivery

/-!
# The cache of recent events

`RecentEvents` (`nostr-pubsub-fips/src/recent_events.rs`): the events of the last time with their
bodies, and the ids of a longer time. The client takes the bound of the bodies from its options and
the bound of the ids from a constant.

An id that is forgotten while its body is still there can come in again. The ids outlive the bodies
if and only if the bound of the bodies is not above that of the ids, which `validate` does not ask.
-/

namespace NostrPubsub.Fips

variable {nostr : NostrCrate}

variable (nostr) in
/-- `CachedEvent`. -/
structure CachedEvent where
  event : VerifiedEvent nostr
  source : EventSource
  hopLimit : UInt8

namespace CachedEvent

/-- The id of a cached event. -/
def id (cached : CachedEvent nostr) : EventId := cached.event.event.id

end CachedEvent

variable (nostr) in
/-- `RecentEvents`. The ids are kept as bytes instead of their hexadecimal form. -/
structure RecentEvents where
  maxPayloadEvents : ℕ
  maxSeenIds : ℕ
  eventIds : Finset EventId := ∅
  eventIdOrder : List EventId := []
  entries : List (CachedEvent nostr) := []

/-- The loop of `insert` that forgets the oldest ids while there are too many. -/
def forgetOldest (max : ℕ) : List EventId → Finset EventId → List EventId × Finset EventId
  | [], ids => ([], ids)
  | removed :: rest, ids =>
    if max < ids.card then forgetOldest max rest (ids.erase removed) else (removed :: rest, ids)

namespace RecentEvents

/-- `RecentEvents::new`. -/
def new (maxPayloadEvents maxSeenIds : ℕ) : RecentEvents nostr := { maxPayloadEvents, maxSeenIds }

/-- `RecentEvents::insert`. -/
def insert (recent : RecentEvents nostr) (event : VerifiedEvent nostr) (source : EventSource)
    (hopLimit : UInt8) : Bool × RecentEvents nostr :=
  let eventId := event.event.id
  if eventId ∈ recent.eventIds then (false, recent)
  else
    let (eventIdOrder, eventIds) := forgetOldest recent.maxSeenIds (recent.eventIdOrder ++ [eventId])
      (Insert.insert eventId recent.eventIds)
    -- the oldest bodies go while there are too many
    let entries := (recent.entries ++ [CachedEvent.mk event source hopLimit]).rtake recent.maxPayloadEvents
    (true, { recent with eventIds, eventIdOrder, entries })

/-- `RecentEvents::event`. -/
def event (recent : RecentEvents nostr) (eventId : EventId) : Option (VerifiedEvent nostr) :=
  (recent.entries.find? fun cached => cached.id = eventId).map CachedEvent.event

/-- `RecentEvents::insert_for_publish`. -/
def insertForPublish (recent : RecentEvents nostr) (event : VerifiedEvent nostr)
    (source : EventSource) (hopLimit : UInt8) : Bool × RecentEvents nostr :=
  let id := event.event.id
  let recent :=
    if recent.event id = none ∧ id ∈ recent.eventIds then
      { recent with
        eventIds := recent.eventIds.erase id
        eventIdOrder := recent.eventIdOrder.filter fun seen => seen ≠ id }
    else recent
  recent.insert event source hopLimit

/-- `RecentEvents::matching`. -/
def matching (recent : RecentEvents nostr) (filters : List Filter) : List (CachedEvent nostr) :=
  recent.entries.filter fun cached => filters.any fun filter => filter.matchEvent cached.event.event

/-! ## Runs -/

variable (nostr) in
/-- A call that adds an event. -/
inductive Op where
  | insert (event : VerifiedEvent nostr) (source : EventSource) (hopLimit : UInt8)
  | insertForPublish (event : VerifiedEvent nostr) (source : EventSource) (hopLimit : UInt8)

def step (recent : RecentEvents nostr) : Op nostr → RecentEvents nostr
  | .insert event source hopLimit => (recent.insert event source hopLimit).2
  | .insertForPublish event source hopLimit => (recent.insertForPublish event source hopLimit).2

/-- The cache that a client builds from its options, after some calls. -/
def run (options : FipsPubsubClientOptions) (ops : List (Op nostr)) : RecentEvents nostr :=
  ops.foldl step (new options.maxReplayEvents maxSeenEventIds)

/-- The cache keeps one copy of each event, within the bound of the options, and its windows agree. -/
structure Sound (options : FipsPubsubClientOptions) (recent : RecentEvents nostr) : Prop where
  nodup_entries : (recent.entries.map CachedEvent.id).Nodup
  mem_eventIds : ∀ cached ∈ recent.entries, cached.id ∈ recent.eventIds
  nodup_order : recent.eventIdOrder.Nodup
  mem_order : ∀ id, id ∈ recent.eventIdOrder ↔ id ∈ recent.eventIds
  order_le : recent.eventIdOrder.length ≤ maxSeenEventIds
  entries_le : recent.entries.length ≤ options.maxReplayEvents
  last : recent.entries.map CachedEvent.id = recent.eventIdOrder.rtake recent.entries.length

/-! ## Caches whose ids outlive their bodies -/

/-- The ids of the bodies are the last of the ids that are kept. -/
structure Nested (recent : RecentEvents nostr) : Prop where
  nodup : recent.eventIdOrder.Nodup
  ids : recent.eventIds = recent.eventIdOrder.toFinset
  order_le : recent.eventIdOrder.length ≤ recent.maxSeenIds
  entries_le : recent.entries.length ≤ recent.maxPayloadEvents
  suffix : recent.entries.map CachedEvent.id <:+ recent.eventIdOrder

variable {recent : RecentEvents nostr}

theorem Nested.sound {options : FipsPubsubClientOptions} (h : Nested recent)
    (hbounds : recent.maxPayloadEvents = options.maxReplayEvents ∧
      recent.maxSeenIds = maxSeenEventIds) : Sound options recent where
  nodup_entries := h.nodup.sublist h.suffix.sublist
  mem_eventIds cached hcached := by
    rw [h.ids, List.mem_toFinset]
    exact h.suffix.subset (List.mem_map_of_mem hcached)
  nodup_order := h.nodup
  mem_order id := by rw [h.ids, List.mem_toFinset]
  order_le := hbounds.2 ▸ h.order_le
  entries_le := hbounds.1 ▸ h.entries_le
  last := by
    obtain ⟨older, horder⟩ := h.suffix
    rw [← horder, List.rtake, List.length_append, List.length_map, Nat.add_sub_cancel,
      List.drop_left]

theorem nested_new (maxPayloadEvents maxSeenIds : ℕ) :
    Nested (new maxPayloadEvents maxSeenIds : RecentEvents nostr) :=
  ⟨List.nodup_nil, rfl, Nat.zero_le _, Nat.zero_le _, List.suffix_rfl⟩

/-- What the loop over the ids leaves. -/
theorem forgetOldest_eq {max : ℕ} {order : List EventId} (h : order.Nodup) :
    forgetOldest max order order.toFinset = (order.rtake max, (order.rtake max).toFinset) := by
  rw [← keepLast_eq h]
  induction order with
  | nil => rfl
  | cons removed rest ih =>
    obtain ⟨hnew, hrest⟩ := List.nodup_cons.mp h
    have herase : (removed :: rest).toFinset.erase removed = rest.toFinset := by
      rw [List.toFinset_cons, Finset.erase_insert (by simpa using hnew)]
    rw [forgetOldest, keepLast, List.toFinset_card_of_nodup h, List.length_cons, herase, ih hrest]

/-- What `insert` leaves of a cache whose ids agree with their order. -/
theorem insert_eq (hnodup : recent.eventIdOrder.Nodup)
    (hids : recent.eventIds = recent.eventIdOrder.toFinset) {event : VerifiedEvent nostr}
    (hnew : event.event.id ∉ recent.eventIds) (source : EventSource) (hopLimit : UInt8) :
    (recent.eventIdOrder ++ [event.event.id]).Nodup ∧
      (recent.insert event source hopLimit).2 =
        { recent with
          eventIds := ((recent.eventIdOrder ++ [event.event.id]).rtake recent.maxSeenIds).toFinset
          eventIdOrder := (recent.eventIdOrder ++ [event.event.id]).rtake recent.maxSeenIds
          entries := (recent.entries ++ [CachedEvent.mk event source hopLimit]).rtake recent.maxPayloadEvents } := by
  have horder : (recent.eventIdOrder ++ [event.event.id]).Nodup := by
    rw [hids, List.mem_toFinset] at hnew
    rw [← List.concat_eq_append]
    exact hnodup.concat hnew
  have hset : Insert.insert event.event.id recent.eventIds =
      (recent.eventIdOrder ++ [event.event.id]).toFinset := by
    rw [hids, List.toFinset_append, List.toFinset_cons, List.toFinset_nil, Finset.union_comm]
    rfl
  refine ⟨horder, ?_⟩
  rw [insert, if_neg hnew, hset, forgetOldest_eq horder]

theorem rtake_suffix (l : List EventId) (n : ℕ) : l.rtake n <:+ l :=
  List.drop_suffix _ _

/-- The shorter window is the end of the longer one. -/
theorem rtake_suffix_rtake {ids order : List EventId} {m n : ℕ} (h : ids <:+ order) (hmn : m ≤ n) :
    ids.rtake m <:+ order.rtake n := by
  refine List.suffix_of_suffix_length_le ((rtake_suffix ids m).trans h) (rtake_suffix order n) ?_
  have hlength := h.length_le
  rw [List.rtake, List.rtake, List.length_drop, List.length_drop]
  omega

theorem Nested.insert (h : Nested recent) (hmax : recent.maxPayloadEvents ≤ recent.maxSeenIds)
    (event : VerifiedEvent nostr) (source : EventSource) (hopLimit : UInt8) :
    Nested (recent.insert event source hopLimit).2 := by
  by_cases hknown : event.event.id ∈ recent.eventIds
  · rw [RecentEvents.insert, if_pos hknown]
    exact h
  · obtain ⟨horder, hinsert⟩ := insert_eq h.nodup h.ids hknown source hopLimit
    rw [hinsert]
    refine ⟨horder.sublist (rtake_suffix _ _).sublist, rfl, ?_, ?_, ?_⟩
    · show (List.rtake _ _).length ≤ recent.maxSeenIds
      rw [List.rtake, List.length_drop]
      omega
    · show (List.rtake _ _).length ≤ recent.maxPayloadEvents
      rw [List.rtake, List.length_drop]
      omega
    · show (List.rtake _ _).map CachedEvent.id <:+ _
      have hids : (recent.entries ++ [CachedEvent.mk event source hopLimit]).map CachedEvent.id <:+
          recent.eventIdOrder ++ [event.event.id] := by
        obtain ⟨older, horder⟩ := h.suffix
        exact ⟨older, by rw [← horder, List.map_append, List.append_assoc]; rfl⟩
      have hmap : ((recent.entries ++ [CachedEvent.mk event source hopLimit]).rtake
          recent.maxPayloadEvents).map CachedEvent.id =
          ((recent.entries ++ [CachedEvent.mk event source hopLimit]).map CachedEvent.id).rtake
            recent.maxPayloadEvents := by
        rw [List.rtake, List.rtake, List.map_drop, List.length_map]
      rw [hmap]
      exact rtake_suffix_rtake hids hmax

/-- A body that is not there has no id among those of the bodies. -/
theorem notMem_of_event_eq_none {eventId : EventId} (h : recent.event eventId = none) :
    eventId ∉ recent.entries.map CachedEvent.id := by
  rw [event, Option.map_eq_none_iff, List.find?_eq_none] at h
  intro hmem
  obtain ⟨cached, hcached, rfl⟩ := List.mem_map.mp hmem
  exact h cached hcached (decide_eq_true rfl)

theorem Nested.insertForPublish (h : Nested recent)
    (hmax : recent.maxPayloadEvents ≤ recent.maxSeenIds) (event : VerifiedEvent nostr)
    (source : EventSource) (hopLimit : UInt8) :
    Nested (recent.insertForPublish event source hopLimit).2 := by
  rw [RecentEvents.insertForPublish]
  split
  · next hforget =>
    -- the forgotten id is not one of those of the bodies
    have habsent := notMem_of_event_eq_none hforget.1
    have hforgotten : Nested { recent with
        eventIds := recent.eventIds.erase event.event.id
        eventIdOrder := recent.eventIdOrder.filter fun seen => seen ≠ event.event.id } := by
      refine ⟨h.nodup.filter _, ?_, (List.length_filter_le _ _).trans h.order_le, h.entries_le, ?_⟩
      · show recent.eventIds.erase _ = _
        rw [h.ids]
        ext id
        simp [and_comm]
      · have hsame : (recent.entries.map CachedEvent.id).filter
            (fun seen => seen ≠ event.event.id) = recent.entries.map CachedEvent.id := by
          rw [List.filter_eq_self]
          intro seen hseen
          exact decide_eq_true fun heq => habsent (heq ▸ hseen)
        have hfilter := h.suffix.filter fun seen => seen ≠ event.event.id
        rw [hsame] at hfilter
        exact hfilter
    exact hforgotten.insert hmax event source hopLimit
  · exact h.insert hmax event source hopLimit

theorem insert_bounds (recent : RecentEvents nostr) (event : VerifiedEvent nostr)
    (source : EventSource) (hopLimit : UInt8) :
    (recent.insert event source hopLimit).2.maxPayloadEvents = recent.maxPayloadEvents ∧
      (recent.insert event source hopLimit).2.maxSeenIds = recent.maxSeenIds := by
  rw [insert]
  split <;> exact ⟨rfl, rfl⟩

theorem step_bounds (recent : RecentEvents nostr) (op : Op nostr) :
    (recent.step op).maxPayloadEvents = recent.maxPayloadEvents ∧
      (recent.step op).maxSeenIds = recent.maxSeenIds := by
  cases op with
  | insert event source hopLimit => exact insert_bounds recent event source hopLimit
  | insertForPublish event source hopLimit =>
    have hbounds := fun recent : RecentEvents nostr => insert_bounds recent event source hopLimit
    show (recent.insertForPublish event source hopLimit).2.maxPayloadEvents = _ ∧
      (recent.insertForPublish event source hopLimit).2.maxSeenIds = _
    rw [insertForPublish]
    split
    · exact hbounds _
    · exact hbounds recent

theorem Nested.step (h : Nested recent) (hmax : recent.maxPayloadEvents ≤ recent.maxSeenIds)
    (op : Op nostr) : Nested (recent.step op) := by
  cases op with
  | insert event source hopLimit => exact h.insert hmax event source hopLimit
  | insertForPublish event source hopLimit => exact h.insertForPublish hmax event source hopLimit

/-- The bounds of a cache are those of the options. -/
theorem run_bounds (options : FipsPubsubClientOptions) (ops : List (Op nostr)) :
    (run options ops).maxPayloadEvents = options.maxReplayEvents ∧
      (run options ops).maxSeenIds = maxSeenEventIds := by
  induction ops using List.reverseRecOn with
  | nil => exact ⟨rfl, rfl⟩
  | append_singleton ops op ih =>
    have hstep := (run options ops).step_bounds op
    rw [run, List.foldl_append]
    exact ⟨hstep.1.trans ih.1, hstep.2.trans ih.2⟩

theorem nested_run {options : FipsPubsubClientOptions}
    (hmax : options.maxReplayEvents ≤ maxSeenEventIds) (ops : List (Op nostr)) :
    Nested (run options ops) := by
  induction ops using List.reverseRecOn with
  | nil => exact nested_new _ _
  | append_singleton ops op ih =>
    have hbounds := run_bounds options ops
    rw [run, List.foldl_append]
    exact ih.step (by rw [hbounds.1, hbounds.2]; exact hmax) op

/-! ## Caches whose bodies outlive their ids -/

/-- The id of a verified event. -/
def eventId (event : VerifiedEvent nostr) : EventId := event.event.id

/-- Events of the network, one after the other. -/
def received (events : List (VerifiedEvent nostr)) (source : EventSource) (hopLimit : UInt8) :
    List (Op nostr) :=
  events.map fun event => .insert event source hopLimit

/-- Different events one after the other: all bodies stay while there is room for them, and the last
ids. -/
theorem run_received {options : FipsPubsubClientOptions} {events : List (VerifiedEvent nostr)}
    (hnodup : (events.map eventId).Nodup) (hroom : events.length ≤ options.maxReplayEvents)
    (source : EventSource) (hopLimit : UInt8) :
    (run options (received events source hopLimit)).entries =
        events.map (fun event => CachedEvent.mk event source hopLimit) ∧
      (run options (received events source hopLimit)).eventIdOrder =
        (events.map eventId).rtake maxSeenEventIds ∧
      (run options (received events source hopLimit)).eventIds =
        (run options (received events source hopLimit)).eventIdOrder.toFinset := by
  induction events using List.reverseRecOn with
  | nil => exact ⟨rfl, by simp [received, run, new], rfl⟩
  | append_singleton events event ih =>
    rw [List.map_append, List.nodup_append] at hnodup
    rw [List.length_append, List.length_singleton] at hroom
    obtain ⟨hbefore, -, hfresh⟩ := hnodup
    obtain ⟨hentries, horder, hset⟩ := ih hbefore (by omega)
    have hbounds := run_bounds options (received events source hopLimit)
    have hrun : run options (received (events ++ [event]) source hopLimit) =
        ((run options (received events source hopLimit)).insert event source hopLimit).2 := by
      rw [received, List.map_append, run, List.foldl_append]
      rfl
    rw [hrun]
    generalize run options (received events source hopLimit) = recent
      at hentries horder hset hbounds ⊢
    have hknown : recent.eventIdOrder.Nodup := by
      rw [horder]
      exact hbefore.sublist (rtake_suffix _ _).sublist
    have hnew : event.event.id ∉ recent.eventIds := by
      rw [hset, List.mem_toFinset, horder]
      intro hmem
      exact hfresh _ ((rtake_suffix _ _).subset hmem) _ (List.mem_singleton_self _) rfl
    rw [(insert_eq hknown hset hnew source hopLimit).2]
    dsimp only
    refine ⟨?_, ?_, rfl⟩
    · have hall : events.length + 1 - options.maxReplayEvents = 0 := by omega
      rw [hentries, hbounds.1, List.rtake, List.length_append, List.length_map,
        List.length_singleton, hall, List.drop_zero, List.map_append]
      rfl
    · rw [horder, hbounds.2, List.map_append]
      exact List.rtake_rtake_concat _ _ _

/-- One event more than ids are kept: the first is forgotten, and its body is still there. -/
theorem forgotten_of_received {options : FipsPubsubClientOptions} {event : VerifiedEvent nostr}
    {events : List (VerifiedEvent nostr)} (hnodup : ((event :: events).map eventId).Nodup)
    (hlength : events.length = maxSeenEventIds) (hmax : maxSeenEventIds < options.maxReplayEvents)
    (source : EventSource) (hopLimit : UInt8) :
    (run options (received (event :: events) source hopLimit)).entries =
        (event :: events).map (fun event => CachedEvent.mk event source hopLimit) ∧
      event.event.id ∉ (run options (received (event :: events) source hopLimit)).eventIds := by
  obtain ⟨hentries, horder, hset⟩ := run_received hnodup
    (by rw [List.length_cons, hlength]; exact hmax) source hopLimit
  refine ⟨hentries, ?_⟩
  have hwindow : ((event :: events).map eventId).rtake maxSeenEventIds = events.map eventId := by
    rw [List.rtake, List.length_map, List.length_cons, hlength, Nat.add_sub_cancel_left,
      List.map_cons, List.drop_succ_cons, List.drop_zero]
  rw [hset, horder, hwindow, List.mem_toFinset]
  exact (List.nodup_cons.mp hnodup).1

/-- The cache keeps one copy of each event in every run if there is no room for more bodies than ids;
if there is, then it does not after that many different events. -/
theorem one_copy_of_each (options : FipsPubsubClientOptions) :
    (options.maxReplayEvents ≤ maxSeenEventIds →
      ∀ ops : List (Op nostr), Sound options (run options ops)) ∧
    (maxSeenEventIds < options.maxReplayEvents →
      ∀ events : List (VerifiedEvent nostr), (events.map eventId).Nodup →
        events.length = maxSeenEventIds + 1 →
          ∀ source hopLimit, ¬ Sound options (run options (received events source hopLimit))) := by
  refine ⟨fun hmax ops => (nested_run hmax ops).sound (run_bounds options ops), ?_⟩
  intro hmax events hnodup hlength source hopLimit hsound
  obtain ⟨event, rest, rfl⟩ := List.exists_cons_of_length_eq_add_one hlength
  rw [List.length_cons, Nat.add_right_cancel_iff] at hlength
  obtain ⟨hentries, hforgotten⟩ := forgotten_of_received hnodup hlength hmax source hopLimit
  refine hforgotten (hsound.mem_eventIds ⟨event, source, hopLimit⟩ ?_)
  rw [hentries]
  exact List.mem_cons_self

/-- An event that comes in again after its id was forgotten has two entries. -/
theorem twice_of_received {options : FipsPubsubClientOptions} {event : VerifiedEvent nostr}
    {events : List (VerifiedEvent nostr)} (hnodup : ((event :: events).map eventId).Nodup)
    (hlength : events.length = maxSeenEventIds) (hmax : maxSeenEventIds + 1 < options.maxReplayEvents)
    (source : EventSource) (hopLimit : UInt8) :
    ¬ ((run options (received (event :: events ++ [event]) source hopLimit)).entries.map
      CachedEvent.id).Nodup := by
  have hmore : maxSeenEventIds < options.maxReplayEvents := by omega
  obtain ⟨hentries, hforgotten⟩ := forgotten_of_received hnodup hlength hmore source hopLimit
  have hbounds := run_bounds options (received (event :: events) source hopLimit)
  have hrun : run options (received (event :: events ++ [event]) source hopLimit) =
      ((run options (received (event :: events) source hopLimit)).insert event source hopLimit).2 := by
    rw [received, List.map_append, run, List.foldl_append]
    rfl
  rw [hrun, insert, if_neg hforgotten, hentries]
  have hall : events.length + 1 + 1 - options.maxReplayEvents = 0 := by omega
  dsimp only
  rw [hbounds.1, List.rtake, List.length_append, List.length_map, List.length_cons,
    List.length_singleton, hall, List.drop_zero, List.map_append, List.nodup_append]
  rintro ⟨-, -, hdisjoint⟩
  exact hdisjoint event.event.id List.mem_cons_self event.event.id List.mem_cons_self rfl

/-- An event told from others by its number. -/
def numbered (i : ℕ) : VerifiedEvent plainCrate :=
  plainEvent (UInt8.ofNat (i / 256)) (UInt8.ofNat i) 1 i ""

theorem eventId_numbered_injOn {i j : ℕ} (hi : i < 65536) (hj : j < 65536)
    (h : eventId (numbered i) = eventId (numbered j)) : i = j := by
  have hbytes := congrArg List.Vector.toList h
  simp only [eventId, numbered, plainEvent, List.Vector.toList_mk, List.cons.injEq, and_true]
    at hbytes
  have hhigh := congrArg UInt8.toNat hbytes.1
  have hlow := congrArg UInt8.toNat hbytes.2
  rw [UInt8.toNat_ofNat', UInt8.toNat_ofNat'] at hhigh hlow
  omega

/-- With valid options, an event that comes in again after 4096 others has two entries. -/
theorem recent_event_twice :
    let options : FipsPubsubClientOptions := { maxReplayEvents := 5000 }
    let events := numbered 0 :: (List.range 4096).map fun i => numbered (i + 1)
    options.validate = .ok () ∧
      ¬ ((run options (received (events ++ [numbered 0]) (.ofFipsEndpoint "npub") 4)).entries.map
        CachedEvent.id).Nodup := by
  refine ⟨by decide, twice_of_received ?_ ?_ ?_ _ _⟩
  · rw [List.map_cons, List.map_map, List.nodup_cons]
    refine ⟨fun hmem => ?_, List.nodup_range.map_on fun i hi j hj heq => ?_⟩
    · obtain ⟨i, hi, heq⟩ := List.mem_map.mp hmem
      have hlt := List.mem_range.mp hi
      exact absurd (eventId_numbered_injOn (by omega) (by omega) heq) (Nat.succ_ne_zero i)
    · rw [List.mem_range] at hi hj
      have := eventId_numbered_injOn (by omega) (by omega) heq
      omega
  · rw [List.length_map, List.length_range, maxSeenEventIds]
  · rw [maxSeenEventIds]
    decide

end RecentEvents

end NostrPubsub.Fips
