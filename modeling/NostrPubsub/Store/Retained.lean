import Mathlib.Algebra.Order.BigOperators.Group.List
import Mathlib.Algebra.Order.Group.Nat
import NostrPubsub.Core
import NostrPubsub.ToMathlib.Leading

/-!
# Retained events

The bounded event store of `nostr-pubsub/src/retained.rs`. It keeps what a retention policy
selects, one event for each replaceable or addressable coordinate, newest first, up to a
number of events and a number of bytes. Time is an argument of every operation.
-/

namespace NostrPubsub

/-- `MAX_RETAINED_EVENT_BYTES`. -/
def maxRetainedEventBytes : ℕ := 64 * 1024

/-- `MAX_RETAINED_SNAPSHOT_BYTES`. -/
def maxRetainedSnapshotBytes : ℕ := 16 * 1024 * 1024

/-- `MAX_RETAINED_EVENTS`. -/
def maxRetainedEvents : ℕ := 4096

/-! ## Retention policy -/

/-- `filters_match`. -/
def filtersMatch (filters : List Filter) (event : Event) : Bool :=
  filters.isEmpty || filters.any (·.matchEvent event)

/-- `EventRetentionPolicy`. -/
structure EventRetentionPolicy where
  filters : List Filter
  maxEvents : ℕ

/-- `EventRetentionPolicy::accepts_event`. -/
def EventRetentionPolicy.acceptsEvent (policy : EventRetentionPolicy) (event : Event) : Bool :=
  decide (0 < policy.maxEvents) && filtersMatch policy.filters event

/-! ## Which events are current, and which supersede which -/

/-- `str::parse::<u64>` of a non-empty string of ASCII digits, as
`retained_event_is_current` reads an expiration. -/
def parseDigits (value : String) : Option ℕ :=
  if value ≠ "" ∧ value.toList.all (fun c => '0' ≤ c ∧ c ≤ '9') then
    let number := value.toList.foldl (fun n c => 10 * n + (c.toNat - '0'.toNat)) 0
    if number ≤ u64Max then some number else none
  else
    none

/-- `retained_event_is_current`. The first `expiration` tag counts, and one that cannot be
read is expired. -/
def retainedEventIsCurrent (event : Event) (now : ℕ) : Bool :=
  let expiration := event.tags.find? fun tag => tag.head? = some "expiration"
  let unexpired := expiration.all fun tag =>
    (tag[1]?.bind parseDigits).any fun expires => now < expires
  !(decide (20000 ≤ event.kind) && decide (event.kind < 30000))
    && decide (event.createdAt ≤ satAdd now 300)
    && unexpired

/-- `event_supersedes`. -/
def eventSupersedes (candidate previous : Event) : Bool :=
  decide (previous.createdAt < candidate.createdAt)
    || decide (candidate.createdAt = previous.createdAt)
      && decide (EventId.key candidate.id < EventId.key previous.id)

/-- `event_coordinate`. -/
def eventCoordinate (nostr : NostrCrate) (event : Event) : Option (ℕ × List.Vector UInt8 32 × String) :=
  let kind := event.kind
  if kind = 0 ∨ kind = 3 ∨ (10000 ≤ kind ∧ kind ≤ 19999) then
    some (kind, event.pubkey, "")
  else if 30000 ≤ kind ∧ kind < 40000 then
    some (kind, event.pubkey, (nostr.identifier event.tags).getD "")
  else
    none

/-! ## The store -/

/-- `RetainedEvents`. Every event is stored with the length of its JSON form. -/
structure RetainedEvents (nostr : NostrCrate) where
  policy : EventRetentionPolicy
  events : List (VerifiedEvent nostr × ℕ)
  bytes : ℕ

namespace RetainedEvents

variable {nostr : NostrCrate}

/-- `RetainedEvents::new`. -/
def new (policy : EventRetentionPolicy) : Except PubsubError (RetainedEvents nostr) :=
  if policy.maxEvents = 0 ∨ maxRetainedEvents < policy.maxEvents ∨ policy.filters.isEmpty then
    .error (.validation "retention requires filters and 1..=4096 events")
  else
    .ok { policy, events := [], bytes := 0 }

/-- The bytes of a list of stored events, each with a comma. -/
def retainedBytes (events : List (VerifiedEvent nostr × ℕ)) : ℕ :=
  (events.map fun entry => entry.2 + 1).sum

/-- The loop of `insert` that pops the last event while there are too many events or too many
bytes. The number of events is enough fuel: an empty list has no bytes. -/
def evict (maxEvents : ℕ) : ℕ → List (VerifiedEvent nostr × ℕ) → ℕ →
    List (VerifiedEvent nostr × ℕ) × ℕ
  | 0, events, bytes => (events, bytes)
  | fuel + 1, events, bytes =>
    if maxEvents < events.length ∨ maxRetainedSnapshotBytes < bytes + 128 then
      match events.getLast? with
      | some last => evict maxEvents fuel events.dropLast (bytes - (last.2 + 1))
      | none => evict maxEvents fuel events bytes
    else
      (events, bytes)

/-- The `sort_by` of `insert`, a stable sort. -/
def sortByRank (events : List (VerifiedEvent nostr × ℕ)) : List (VerifiedEvent nostr × ℕ) :=
  events.insertionSort fun a b => a.1.event.rank ≤ b.1.event.rank

/-- `RetainedEvents::insert`. -/
def insert (self : RetainedEvents nostr) (event : VerifiedEvent nostr) (now : ℕ) :
    Bool × RetainedEvents nostr :=
  let raw := event.event
  if ¬ self.policy.acceptsEvent raw ∨ ¬ retainedEventIsCurrent raw now
      ∨ self.events.any (fun old => old.1.event.id = raw.id) then
    (false, self)
  else
    match nostr.toJson raw with
    | .error _ => (false, self)
    | .ok encoded =>
      if maxRetainedEventBytes < encoded.length then
        (false, self)
      else
        let coordinate := eventCoordinate nostr raw
        if coordinate.isSome ∧ self.events.any (fun old =>
            eventCoordinate nostr old.1.event = coordinate ∧ ¬ eventSupersedes raw old.1.event) then
          (false, self)
        else
          let retained := self.events.filter fun old =>
            retainedEventIsCurrent old.1.event now
              && (coordinate.isNone || decide (eventCoordinate nostr old.1.event ≠ coordinate))
          let sorted := sortByRank (retained ++ [(event, encoded.length)])
          let kept := evict self.policy.maxEvents sorted.length sorted (retainedBytes sorted)
          (kept.1.any (fun stored => stored.1.event.id = raw.id),
            { self with events := kept.1, bytes := kept.2 })

/-- `RetainedEvents::restore`. -/
def restore (self : RetainedEvents nostr) (events : List Event) (now : ℕ) :
    RetainedEvents nostr :=
  events.foldl (fun self event =>
    match VerifiedEvent.tryFrom nostr event with
    | .ok event => (self.insert event now).2
    | .error _ => self) self

/-- `RetainedEvents::snapshot`. -/
def snapshot (self : RetainedEvents nostr) (now : ℕ) : List Event :=
  (self.events.filter fun entry => retainedEventIsCurrent entry.1.event now).map (·.1.event)

/-- The ids that one filter of a query selects: the loop of `query` over the stored events,
with the number matched so far. -/
def selectIds (filter : Filter) (now : ℕ) : List (VerifiedEvent nostr × ℕ) → ℕ → List EventId
  | [], _ => []
  | entry :: rest, matched =>
    if filter.limit.any (fun limit => limit ≤ matched) then
      []
    else if retainedEventIsCurrent entry.1.event now && filter.matchEvent entry.1.event then
      entry.1.event.id :: selectIds filter now rest (matched + 1)
    else
      selectIds filter now rest matched

/-- `RetainedEvents::query`. `limit` is the one field of `QueryOptions`. -/
def query (self : RetainedEvents nostr) (filters : List Filter) (limit : Option ℕ) (now : ℕ) :
    List (VerifiedEvent nostr) :=
  let selected := filters.flatMap fun filter => selectIds filter now self.events 0
  ((self.events.filter fun entry => entry.1.event.id ∈ selected).take
    (limit.getD self.policy.maxEvents)).map (·.1)

end RetainedEvents

/-! ## The order of the store -/

/-- `event_supersedes` is the order of the store. -/
theorem eventSupersedes_iff {candidate previous : Event} :
    eventSupersedes candidate previous ↔ candidate.rank < previous.rank := by
  simp only [eventSupersedes, Event.rank, Bool.or_eq_true, Bool.and_eq_true, decide_eq_true_eq,
    Prod.Lex.toLex_lt_toLex, OrderDual.toDual_lt_toDual, OrderDual.toDual_inj]

namespace RetainedEvents

variable {nostr : NostrCrate}

/-! ## Bytes and eviction -/

/-- A list of stored events is within the byte limit, with the space of the envelope. -/
def Fits (events : List (VerifiedEvent nostr × ℕ)) : Prop :=
  retainedBytes events + 128 ≤ maxRetainedSnapshotBytes

theorem retainedBytes_append (a b : List (VerifiedEvent nostr × ℕ)) :
    retainedBytes (a ++ b) = retainedBytes a + retainedBytes b := by
  simp [retainedBytes]

theorem retainedBytes_le_of_sublist {a b : List (VerifiedEvent nostr × ℕ)} (h : a.Sublist b) :
    retainedBytes a ≤ retainedBytes b := by
  unfold retainedBytes
  exact (h.map _).sum_le_sum fun n _ => Nat.zero_le n

theorem Fits.of_sublist {a b : List (VerifiedEvent nostr × ℕ)} (h : Fits b)
    (hab : a.Sublist b) : Fits a := by
  have hle := retainedBytes_le_of_sublist hab
  unfold Fits at h ⊢
  omega

/-- What the loop of `insert` leaves: the longest prefix within both limits. -/
structure Evicted (maxEvents : ℕ) (events kept : List (VerifiedEvent nostr × ℕ)) : Prop where
  isPrefix : kept <+: events
  length_le : kept.length ≤ maxEvents
  fits : Fits kept
  longest : ∀ shorter, shorter <+: events → shorter.length ≤ maxEvents → Fits shorter →
    shorter.length ≤ kept.length

theorem evict_evicted (maxEvents : ℕ) {fuel : ℕ} {events : List (VerifiedEvent nostr × ℕ)}
    (hfuel : events.length ≤ fuel) :
    Evicted maxEvents events (evict maxEvents fuel events (retainedBytes events)).1
      ∧ (evict maxEvents fuel events (retainedBytes events)).2
        = retainedBytes (evict maxEvents fuel events (retainedBytes events)).1 := by
  induction fuel generalizing events with
  | zero =>
    obtain rfl : events = [] := List.eq_nil_of_length_eq_zero (by omega)
    refine ⟨⟨List.prefix_rfl, Nat.zero_le _, ?_, fun shorter hpre _ _ => hpre.length_le⟩, rfl⟩
    simp [Fits, evict, retainedBytes, maxRetainedSnapshotBytes]
  | succ fuel ih =>
    rw [evict]
    by_cases hover : maxEvents < events.length
        ∨ maxRetainedSnapshotBytes < retainedBytes events + 128
    · rw [if_pos hover]
      rcases List.eq_nil_or_concat events with rfl | ⟨init, last, rfl⟩
      · -- The empty list is within both limits.
        simp [retainedBytes, maxRetainedSnapshotBytes] at hover
      · have hlast : retainedBytes (init ++ [last]) - (last.2 + 1) = retainedBytes init := by
          rw [retainedBytes_append]
          simp [retainedBytes]
        simp only [List.concat_eq_append, List.getLast?_concat, List.dropLast_concat, hlast] at *
        have hlength : init.length ≤ fuel := by simpa using hfuel
        obtain ⟨hevicted, hbytes⟩ := ih hlength
        refine ⟨?_, hbytes⟩
        exact
          { isPrefix := hevicted.isPrefix.trans (List.prefix_append init [last])
            length_le := hevicted.length_le
            fits := hevicted.fits
            longest := by
              intro shorter hpre hcount hfits
              rcases List.prefix_concat_iff.mp hpre with rfl | hpre
              · -- The whole list is over one of the limits.
                unfold Fits at hfits
                omega
              · exact hevicted.longest shorter hpre hcount hfits }
    · rw [if_neg hover]
      obtain ⟨hcount, hbytes⟩ := not_or.mp hover
      exact ⟨⟨List.prefix_rfl, Nat.not_lt.mp hcount, Nat.not_lt.mp hbytes,
        fun shorter hpre _ _ => hpre.length_le⟩, rfl⟩

/-- When the first `maxEvents` events are within the byte limit, only the number counts. -/
theorem Evicted.eq_take {maxEvents : ℕ} {events kept : List (VerifiedEvent nostr × ℕ)}
    (h : Evicted maxEvents events kept) (hfits : Fits (events.take maxEvents)) :
    kept = events.take maxEvents := by
  have hlong := h.longest _ (List.take_prefix maxEvents events) (List.length_take_le _ _) hfits
  rw [List.length_take] at hlong
  rw [List.prefix_iff_eq_take.mp h.isPrefix]
  rcases Nat.le_total events.length maxEvents with hle | hle
  · rw [List.take_of_length_le (by omega), List.take_of_length_le hle]
  · have hcount := h.length_le
    rw [show kept.length = maxEvents by omega]

/-! ## What `insert` does -/

/-- An event that the store takes at this time, whatever it holds. -/
def Admissible (policy : EventRetentionPolicy) (now : ℕ) (event : VerifiedEvent nostr) : Prop :=
  policy.acceptsEvent event.event ∧ retainedEventIsCurrent event.event now
    ∧ ∃ encoded, nostr.toJson event.event = .ok encoded ∧ encoded.length ≤ maxRetainedEventBytes

/-- The length of the JSON form of an event. -/
def encodedLength (event : VerifiedEvent nostr) : ℕ :=
  match nostr.toJson event.event with
  | .ok encoded => encoded.length
  | .error _ => 0

/-- The coordinate that a stored event holds. -/
def coordinateOf (event : VerifiedEvent nostr) : Option (ℕ × List.Vector UInt8 32 × String) :=
  eventCoordinate nostr event.event

/-- The place of a verified event in the store. -/
def rankOf (event : VerifiedEvent nostr) : ℕᵒᵈ ×ₗ List ℕ := event.event.rank

/-- The stored events an admitted event leaves in place: those still current that do not hold
its coordinate. -/
def besides (self : RetainedEvents nostr) (event : VerifiedEvent nostr) (now : ℕ) :
    List (VerifiedEvent nostr × ℕ) :=
  self.events.filter fun old => retainedEventIsCurrent old.1.event now
    && ((eventCoordinate nostr event.event).isNone
      || decide (eventCoordinate nostr old.1.event ≠ eventCoordinate nostr event.event))

/-- The stored events with an admitted one, before eviction. -/
def admitted (self : RetainedEvents nostr) (event : VerifiedEvent nostr) (now : ℕ) :
    List (VerifiedEvent nostr × ℕ) :=
  sortByRank (self.besides event now ++ [(event, encodedLength event)])

/-- The ways `insert` can end. -/
inductive Inserted (self : RetainedEvents nostr) (event : VerifiedEvent nostr) (now : ℕ) :
    Bool × RetainedEvents nostr → Prop where
  | inadmissible (h : ¬ Admissible self.policy now event) : Inserted self event now (false, self)
  | duplicate (h : Admissible self.policy now event)
      (hid : ∃ old ∈ self.events, old.1.event.id = event.event.id) :
      Inserted self event now (false, self)
  | superseded (h : Admissible self.policy now event)
      (hid : ∀ old ∈ self.events, old.1.event.id ≠ event.event.id)
      (hold : ∃ old ∈ self.events, Competes coordinateOf old.1 event
        ∧ ¬ rankOf event < rankOf old.1) :
      Inserted self event now (false, self)
  | stored (h : Admissible self.policy now event)
      (hid : ∀ old ∈ self.events, old.1.event.id ≠ event.event.id)
      (hwins : ∀ old ∈ self.events, Competes coordinateOf old.1 event → rankOf event < rankOf old.1)
      {kept : List (VerifiedEvent nostr × ℕ)}
      (hkept : Evicted self.policy.maxEvents (self.admitted event now) kept) :
      Inserted self event now
        (kept.any (fun stored => stored.1.event.id = event.event.id),
          { self with events := kept, bytes := retainedBytes kept })

/-- Every `insert` ends in one of these ways. -/
theorem insert_inserted (self : RetainedEvents nostr) (event : VerifiedEvent nostr) (now : ℕ) :
    Inserted self event now (self.insert event now) := by
  unfold insert
  by_cases hrefuse : ¬ self.policy.acceptsEvent event.event
      ∨ ¬ retainedEventIsCurrent event.event now
      ∨ self.events.any (fun old => old.1.event.id = event.event.id)
  · simp only [if_pos hrefuse]
    by_cases h : Admissible self.policy now event
    · refine .duplicate h ?_
      rcases hrefuse with haccepts | hcurrent | hid
      · exact absurd h.1 haccepts
      · exact absurd h.2.1 hcurrent
      · simpa using hid
    · exact .inadmissible h
  simp only [if_neg hrefuse]
  -- The checks are those of the source, in its order: policy, expiry and id first.
  obtain ⟨haccepts, hcurrent, hid⟩ : self.policy.acceptsEvent event.event
      ∧ retainedEventIsCurrent event.event now
      ∧ ∀ old ∈ self.events, old.1.event.id ≠ event.event.id := by
    simpa only [not_or, not_not, List.any_eq_true, decide_eq_true_eq, not_exists, not_and]
      using hrefuse
  rcases hjson : nostr.toJson event.event with error | encoded
  · refine .inadmissible ?_
    rintro ⟨-, -, encoded, hok, -⟩
    rw [hjson] at hok
    cases hok
  -- Then the size of the event as JSON,
  by_cases hlarge : maxRetainedEventBytes < encoded.length
  · simp only [if_pos hlarge]
    refine .inadmissible ?_
    rintro ⟨-, -, other, hok, hsize⟩
    rw [hjson, Except.ok.injEq] at hok
    rw [← hok] at hsize
    omega
  simp only [if_neg hlarge]
  have h : Admissible self.policy now event :=
    ⟨haccepts, hcurrent, encoded, hjson, Nat.not_lt.mp hlarge⟩
  have hlength : encoded.length = encodedLength event := by simp [encodedLength, hjson]
  -- then the versions at its coordinate.
  by_cases hold : ∃ old ∈ self.events, Competes coordinateOf old.1 event
      ∧ ¬ rankOf event < rankOf old.1
  · rw [if_pos]
    · exact .superseded h hid hold
    · obtain ⟨old, hmem, ⟨hcoordinate, hsome⟩, hloses⟩ := hold
      refine ⟨Option.isSome_iff_ne_none.mpr hsome, ?_⟩
      rw [List.any_eq_true]
      refine ⟨old, hmem, decide_eq_true ⟨hcoordinate, ?_⟩⟩
      rwa [eventSupersedes_iff]
  · have hwins : ∀ old ∈ self.events, Competes coordinateOf old.1 event →
        rankOf event < rankOf old.1 := by
      intro old hmem hcompetes
      by_contra hloses
      exact hold ⟨old, hmem, hcompetes, hloses⟩
    rw [if_neg]
    · obtain ⟨hevicted, hbytes⟩ := evict_evicted self.policy.maxEvents
        (Nat.le_refl (self.admitted event now).length)
      have hstored := Inserted.stored h hid hwins hevicted
      rw [← hbytes] at hstored
      rw [hlength]
      exact hstored
    · rintro ⟨hsome, hany⟩
      obtain ⟨old, hmem, hbeaten⟩ := List.any_eq_true.mp hany
      obtain ⟨hcoordinate, hloses⟩ := of_decide_eq_true hbeaten
      rw [eventSupersedes_iff] at hloses
      exact hloses (hwins old hmem ⟨hcoordinate, Option.isSome_iff_ne_none.mp hsome⟩)

/-! ## The invariant of a store -/

/-- The entries are in the order of the store, without repetitions. -/
def InOrder (events : List (VerifiedEvent nostr × ℕ)) : Prop :=
  events.Pairwise fun a b => rankOf a.1 < rankOf b.1

/-- What holds of a store after any inserts, at any times. -/
structure Sound (store : RetainedEvents nostr) : Prop where
  accepted : ∀ entry ∈ store.events, store.policy.acceptsEvent entry.1.event
  encoded : ∀ entry ∈ store.events, ∃ json, nostr.toJson entry.1.event = .ok json
    ∧ json.length = entry.2 ∧ entry.2 ≤ maxRetainedEventBytes
  inOrder : InOrder store.events
  distinct : ∀ a ∈ store.events, ∀ b ∈ store.events, a.1.event.id = b.1.event.id → a = b
  /-- No two entries hold one coordinate. -/
  apart : ∀ a ∈ store.events, ∀ b ∈ store.events, Competes coordinateOf a.1 b.1 → a = b
  length_le : store.events.length ≤ store.policy.maxEvents
  bytes_eq : store.bytes = retainedBytes store.events
  fits : Fits store.events

theorem mem_besides {self : RetainedEvents nostr} {event : VerifiedEvent nostr} {now : ℕ}
    {entry : VerifiedEvent nostr × ℕ} :
    entry ∈ self.besides event now ↔ entry ∈ self.events
      ∧ retainedEventIsCurrent entry.1.event now ∧ ¬ Competes coordinateOf entry.1 event := by
  unfold besides Competes coordinateOf
  rw [List.mem_filter]
  cases hcoordinate : eventCoordinate nostr event.event with
  | none => simp
  | some coordinate => simp

theorem mem_admitted {self : RetainedEvents nostr} {event : VerifiedEvent nostr} {now : ℕ}
    {entry : VerifiedEvent nostr × ℕ} :
    entry ∈ self.admitted event now
      ↔ entry = (event, encodedLength event) ∨ entry ∈ self.besides event now := by
  rw [admitted, sortByRank, List.mem_insertionSort, List.mem_append, List.mem_singleton, or_comm]

/-- An event with a new id finds its place among the stored ones. -/
theorem admitted_inOrder {self : RetainedEvents nostr} {event : VerifiedEvent nostr} {now : ℕ}
    (h : InOrder self.events) (hid : ∀ old ∈ self.events, old.1.event.id ≠ event.event.id) :
    InOrder (self.admitted event now) := by
  have hsorted : (self.admitted event now).Pairwise fun a b => rankOf a.1 ≤ rankOf b.1 :=
    List.pairwise_insertionSort (fun a b : VerifiedEvent nostr × ℕ => rankOf a.1 ≤ rankOf b.1) _
  -- The ranks before sorting are pairwise distinct, so no two are equal after it.
  have hdistinct : (self.besides event now ++ [(event, encodedLength event)]).Pairwise
      fun a b => rankOf a.1 ≠ rankOf b.1 := by
    rw [List.pairwise_append]
    refine ⟨?_, List.pairwise_singleton _ _, ?_⟩
    · exact (h.sublist List.filter_sublist).imp fun hlt => hlt.ne
    · intro old hold new hnew
      rw [List.mem_singleton.mp hnew]
      intro heq
      exact hid old (mem_besides.mp hold).1 (Event.id_eq_of_rank_eq heq)
  have hdistinct' : (self.admitted event now).Pairwise fun a b => rankOf a.1 ≠ rankOf b.1 :=
    ((List.perm_insertionSort _ _).pairwise_iff fun hne => hne.symm).mpr hdistinct
  exact (hsorted.and hdistinct').imp fun hab => lt_of_le_of_ne hab.1 hab.2

theorem sound_new {policy : EventRetentionPolicy} {self : RetainedEvents nostr}
    (h : new policy = .ok self) : Sound self ∧ self.policy = policy ∧ self.events = [] := by
  unfold new at h
  split_ifs at h
  obtain rfl := Except.ok.inj h
  refine ⟨?_, rfl, rfl⟩
  exact
    { accepted := by simp
      encoded := by simp
      inOrder := List.Pairwise.nil
      distinct := by simp
      apart := by simp
      length_le := Nat.zero_le _
      bytes_eq := rfl
      fits := by simp [Fits, retainedBytes, maxRetainedSnapshotBytes] }

/-- The entry of an admissible event. -/
theorem Admissible.encoded {policy : EventRetentionPolicy} {now : ℕ} {event : VerifiedEvent nostr}
    (h : Admissible policy now event) : ∃ json, nostr.toJson event.event = .ok json
      ∧ json.length = encodedLength event ∧ encodedLength event ≤ maxRetainedEventBytes := by
  obtain ⟨-, -, json, hjson, hsize⟩ := h
  have hlength : json.length = encodedLength event := by simp [encodedLength, hjson]
  exact ⟨json, hjson, hlength, hlength ▸ hsize⟩

/-- `insert` keeps a store sound, and its policy. -/
theorem Sound.insert {self : RetainedEvents nostr} (h : Sound self) (event : VerifiedEvent nostr)
    (now : ℕ) : Sound (self.insert event now).2 ∧ (self.insert event now).2.policy = self.policy := by
  have hinserted := insert_inserted self event now
  generalize self.insert event now = result at hinserted ⊢
  cases hinserted with
  | inadmissible _ => exact ⟨h, rfl⟩
  | duplicate _ _ => exact ⟨h, rfl⟩
  | superseded _ _ _ => exact ⟨h, rfl⟩
  | stored hadmissible hid hwins hkept =>
    refine ⟨?_, rfl⟩
    -- What stays is a beginning of the admitted entries: the new one and those besides it.
    have hsub := hkept.isPrefix.subset
    exact
      { accepted := by
          intro entry hentry
          rcases mem_admitted.mp (hsub hentry) with rfl | hold
          · exact hadmissible.1
          · exact h.accepted entry (mem_besides.mp hold).1
        encoded := by
          intro entry hentry
          rcases mem_admitted.mp (hsub hentry) with rfl | hold
          · exact hadmissible.encoded
          · exact h.encoded entry (mem_besides.mp hold).1
        inOrder := (admitted_inOrder h.inOrder hid).sublist hkept.isPrefix.sublist
        distinct := by
          intro a ha b hb hsame
          rcases mem_admitted.mp (hsub ha) with rfl | holda
          · rcases mem_admitted.mp (hsub hb) with rfl | holdb
            · rfl
            · exact absurd hsame.symm (hid b (mem_besides.mp holdb).1)
          · rcases mem_admitted.mp (hsub hb) with rfl | holdb
            · exact absurd hsame (hid a (mem_besides.mp holda).1)
            · exact h.distinct a (mem_besides.mp holda).1 b (mem_besides.mp holdb).1 hsame
        apart := by
          intro a ha b hb hcompetes
          rcases mem_admitted.mp (hsub ha) with rfl | holda
          · rcases mem_admitted.mp (hsub hb) with rfl | holdb
            · rfl
            · exact absurd hcompetes.symm (mem_besides.mp holdb).2.2
          · rcases mem_admitted.mp (hsub hb) with rfl | holdb
            · exact absurd hcompetes (mem_besides.mp holda).2.2
            · exact h.apart a (mem_besides.mp holda).1 b (mem_besides.mp holdb).1 hcompetes
        length_le := hkept.length_le
        bytes_eq := rfl
        fits := hkept.fits }

/-- Entries that carry the size of their event are determined by the events. -/
theorem eq_map_encodedLength {events : List (VerifiedEvent nostr × ℕ)}
    (h : ∀ entry ∈ events, entry.2 = encodedLength entry.1) :
    events = (events.map (·.1)).map fun event => (event, encodedLength event) := by
  rw [List.map_map]
  conv_lhs => rw [← List.map_id events]
  refine List.map_congr_left ?_
  intro entry hentry
  exact Prod.ext rfl (h entry hentry)

theorem Sound.size_eq {store : RetainedEvents nostr} (h : Sound store)
    {entry : VerifiedEvent nostr × ℕ} (hentry : entry ∈ store.events) :
    entry.2 = encodedLength entry.1 := by
  obtain ⟨json, hjson, hlength, -⟩ := h.encoded entry hentry
  simp [encodedLength, hjson, hlength]

/-- A cut that spares the last event spares all. -/
theorem Evicted.eq_of_last_mem {maxEvents : ℕ} {events kept : List (VerifiedEvent nostr × ℕ)}
    (h : Evicted maxEvents events kept) (horder : InOrder events) (last : VerifiedEvent nostr × ℕ)
    (hlast : ∀ entry ∈ events, rankOf entry.1 ≤ rankOf last.1) (hmem : last ∈ kept) :
    kept = events := by
  obtain ⟨rest, rfl⟩ := h.isPrefix
  rcases rest with _ | ⟨next, rest⟩
  · rw [List.append_nil]
  · have hlt := (List.pairwise_append.mp horder).2.2 last hmem next List.mem_cons_self
    exact absurd (hlast next (by simp)) (not_le_of_gt hlt)

/-- `insert` stores nothing but the new event and what was stored. -/
theorem mem_of_mem_insert {store : RetainedEvents nostr} {event : VerifiedEvent nostr} {now : ℕ}
    {entry : VerifiedEvent nostr × ℕ} (h : entry ∈ (store.insert event now).2.events) :
    entry = (event, encodedLength event) ∨ entry ∈ store.events := by
  have hinserted := insert_inserted store event now
  generalize store.insert event now = result at hinserted h
  cases hinserted with
  | inadmissible _ => exact .inr h
  | duplicate _ _ => exact .inr h
  | superseded _ _ _ => exact .inr h
  | stored _ _ _ hkept =>
    rcases mem_admitted.mp (hkept.isPrefix.subset h) with hnew | hold
    · exact .inl hnew
    · exact .inr (mem_besides.mp hold).1

/-! ## Two notes to retain -/

/-- Everything is retained, up to a number of events. -/
def retainAll (maxEvents : ℕ) : EventRetentionPolicy :=
  { filters := [{ criteria := fun _ => true, since := none, until_ := none, limit := none }]
    maxEvents }

/-- An empty store for notes. -/
def noteStore (maxEvents : ℕ) : RetainedEvents noteCrate :=
  { policy := retainAll maxEvents, events := [], bytes := 0 }

end RetainedEvents

end NostrPubsub
