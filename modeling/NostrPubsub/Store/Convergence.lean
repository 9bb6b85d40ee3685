import NostrPubsub.Store.Retained

/-!
# Retained events do not depend on the order of arrival

At a fixed time, a store that received a set of events in any order and with any repetitions
holds the first `max_events` of the winners of the set: the admissible events that no other
admissible event of their coordinate supersedes. An older version that arrives after its
superseding version was evicted does no harm, as it is of a later rank than the evicted one.

The byte limit is not of this kind. A large version that is superseded later may have evicted
an event that would fit in the end (`not_converges_when_last_fits`), so what is retained of
every part of the set has to be within the limit.
-/

namespace NostrPubsub

namespace RetainedEvents

variable {nostr : NostrCrate}

/-- The store after a list of inserts at one time. -/
def insertAll (self : RetainedEvents nostr) (arrivals : List (VerifiedEvent nostr)) (now : ℕ) :
    RetainedEvents nostr :=
  arrivals.foldl (fun store event => (store.insert event now).2) self

/-- The winners of a set of events: those accepted, current and of an admissible size that no
other such event of their coordinate supersedes. -/
def retainedWinners (policy : EventRetentionPolicy) (now : ℕ) (s : Set (VerifiedEvent nostr)) :
    Set (VerifiedEvent nostr) :=
  {event ∈ s | Admissible policy now event ∧ ∀ other ∈ s, Admissible policy now other →
    eventCoordinate nostr other.event = eventCoordinate nostr event.event →
    eventCoordinate nostr event.event ≠ none → ¬ eventSupersedes other.event event.event}

/-- What is retained of a set of events is within the byte limit. -/
def RetainedFits (policy : EventRetentionPolicy) (now : ℕ) (s : Set (VerifiedEvent nostr)) :
    Prop :=
  ∀ retained, IsLeading rankOf policy.maxEvents (retainedWinners policy now s) retained →
    Fits (retained.map fun event => (event, encodedLength event))

/-- The store after the events of `s` arrived: the first winners, with their sizes. -/
structure Converged (policy : EventRetentionPolicy) (now : ℕ) (s : Set (VerifiedEvent nostr))
    (store : RetainedEvents nostr) : Prop where
  sound : Sound store
  policy_eq : store.policy = policy
  leading : IsLeading rankOf policy.maxEvents (retainedWinners policy now s)
    (store.events.map (·.1))

/-! ## Winners -/

theorem retainedWinners_eq (policy : EventRetentionPolicy) (now : ℕ)
    (s : Set (VerifiedEvent nostr)) :
    retainedWinners policy now s
      = winners rankOf coordinateOf {event ∈ s | Admissible policy now event} := by
  ext event
  constructor
  · rintro ⟨hs, hadmissible, hwins⟩
    refine ⟨⟨hs, hadmissible⟩, ?_⟩
    rintro other ⟨hother, hadm⟩ ⟨hcoordinate, hsome⟩
    have hnot := hwins other hother hadm hcoordinate hsome
    rw [eventSupersedes_iff] at hnot
    exact le_of_not_gt hnot
  · rintro ⟨⟨hs, hadmissible⟩, hwins⟩
    refine ⟨hs, hadmissible, ?_⟩
    intro other hother hadm hcoordinate hsome
    rw [eventSupersedes_iff]
    exact not_lt_of_ge (hwins other ⟨hother, hadm⟩ ⟨hcoordinate, hsome⟩)

theorem sep_insert_of_not {policy : EventRetentionPolicy} {now : ℕ}
    {s : Set (VerifiedEvent nostr)} {x : VerifiedEvent nostr} (h : ¬ Admissible policy now x) :
    {event ∈ Insert.insert x s | Admissible policy now event}
      = {event ∈ s | Admissible policy now event} := by
  ext event
  simp only [Set.mem_ofPred_eq, Set.mem_insert_iff]
  constructor
  · rintro ⟨rfl | hs, hadmissible⟩
    · exact absurd hadmissible h
    · exact ⟨hs, hadmissible⟩
  · rintro ⟨hs, hadmissible⟩
    exact ⟨.inr hs, hadmissible⟩

theorem sep_insert_of {policy : EventRetentionPolicy} {now : ℕ}
    {s : Set (VerifiedEvent nostr)} {x : VerifiedEvent nostr} (h : Admissible policy now x) :
    {event ∈ Insert.insert x s | Admissible policy now event}
      = Insert.insert x {event ∈ s | Admissible policy now event} := by
  ext event
  simp only [Set.mem_ofPred_eq, Set.mem_insert_iff]
  constructor
  · rintro ⟨rfl | hs, hadmissible⟩
    · exact .inl rfl
    · exact .inr ⟨hs, hadmissible⟩
  · rintro (rfl | ⟨hs, hadmissible⟩)
    · exact ⟨.inl rfl, h⟩
    · exact ⟨.inr hs, hadmissible⟩

/-- Events with ids of their own have ranks of their own. -/
theorem rankOf_injOn {s : Set (VerifiedEvent nostr)}
    (h : Set.InjOn (fun event : VerifiedEvent nostr => event.event.id) s) : Set.InjOn rankOf s := by
  intro a ha b hb hab
  exact h ha hb (Event.id_eq_of_rank_eq hab)

/-! ## One arrival -/

/-- The events of a store with one more, before the cut. -/
theorem Converged.putInto {policy : EventRetentionPolicy} {now : ℕ}
    {s : Set (VerifiedEvent nostr)} {store : RetainedEvents nostr} {x : VerifiedEvent nostr}
    (h : Converged policy now s store)
    (hid : ∀ old ∈ store.events, old.1.event.id ≠ x.event.id) :
    PutInto rankOf coordinateOf x (store.events.map (·.1))
      ((store.admitted x now).map (·.1)) where
  sorted := by
    rw [List.pairwise_map]
    exact admitted_inOrder h.sound.inOrder hid
  mem_iff := by
    intro event
    simp only [List.mem_map, mem_admitted, mem_besides]
    constructor
    · rintro ⟨entry, rfl | ⟨hentry, -, hfree⟩, rfl⟩
      · exact .inl rfl
      · exact .inr ⟨⟨entry, hentry, rfl⟩, hfree⟩
    · rintro (rfl | ⟨⟨entry, hentry, rfl⟩, hfree⟩)
      · exact ⟨_, .inl rfl, rfl⟩
      · -- What is stored is a winner, hence current.
        have hwinner := h.leading.subset entry.1 (List.mem_map_of_mem hentry)
        exact ⟨entry, .inr ⟨hentry, hwinner.2.1.2.1, hfree⟩, rfl⟩

/-- One more arrival. -/
theorem Converged.insert {policy : EventRetentionPolicy} {now : ℕ}
    {s : Set (VerifiedEvent nostr)} {store : RetainedEvents nostr} {x : VerifiedEvent nostr}
    (h : Converged policy now s store) (hs : s.Finite)
    (hids : Set.InjOn (fun event : VerifiedEvent nostr => event.event.id) (Insert.insert x s))
    (hfits : RetainedFits policy now (Insert.insert x s)) :
    Converged policy now (Insert.insert x s) (store.insert x now).2 := by
  obtain ⟨hsound, hpolicy⟩ := h.sound.insert x now
  refine ⟨hsound, hpolicy.trans h.policy_eq, ?_⟩
  have hleading := h.leading
  have hinserted := insert_inserted store x now
  generalize store.insert x now = result at hinserted hsound ⊢
  rw [RetainedFits] at hfits
  rw [retainedWinners_eq] at hleading hfits ⊢
  cases hinserted with
  | inadmissible hnot =>
    rw [h.policy_eq] at hnot
    -- What is not admissible is among the winners of neither set.
    rwa [sep_insert_of_not hnot]
  | duplicate _ hdup =>
    obtain ⟨old, hold, hid⟩ := hdup
    have hmem : old.1 ∈ s := (h.leading.subset old.1 (List.mem_map_of_mem hold)).1
    have hsame : old.1 = x := hids (Set.mem_insert_of_mem x hmem) (Set.mem_insert x s) hid
    rwa [Set.insert_eq_of_mem (hsame ▸ hmem)]
  | superseded hadmissible hid hbeaten =>
    rw [h.policy_eq] at hadmissible
    obtain ⟨old, hold, hcompetes, hloses⟩ := hbeaten
    -- The older version loses to one that is held, so the winners are the same.
    have hlt : rankOf old.1 < rankOf x := by
      refine lt_of_le_of_ne (le_of_not_gt hloses) ?_
      exact fun heq => hid old hold (Event.id_eq_of_rank_eq heq)
    rw [sep_insert_of hadmissible, winners_insert_of_loses
      (hleading.subset old.1 (List.mem_map_of_mem hold)) hcompetes hlt]
    exact hleading
  | stored hadmissible hid hwins hkept =>
    rw [h.policy_eq] at hadmissible hkept
    rw [sep_insert_of hadmissible] at hfits ⊢
    have hput := hleading.put (hs.subset (Set.sep_subset s _))
      ((rankOf_injOn hids).mono ?_) ?_ ?_ (h.putInto hid)
    · -- The cut by number is within the byte limit, so it is the only one.
      have hsizes : (store.admitted x now).take policy.maxEvents
          = (((store.admitted x now).map (·.1)).take policy.maxEvents).map
            fun event => (event, encodedLength event) := by
        rw [← List.map_take]
        refine eq_map_encodedLength ?_
        intro entry hentry
        rcases mem_admitted.mp (List.mem_of_mem_take hentry) with rfl | hold
        · rfl
        · exact h.sound.size_eq (mem_besides.mp hold).1
      have htake := hkept.eq_take (hsizes ▸ hfits _ hput)
      simp only [htake, List.map_take]
      exact hput
    · exact Set.insert_subset_insert (Set.sep_subset s _)
    · rintro hmem
      obtain ⟨old, hold, rfl⟩ := List.mem_map.mp hmem
      exact hid old hold rfl
    · intro event hevent hcompetes
      obtain ⟨old, hold, rfl⟩ := List.mem_map.mp hevent
      exact hwins old hold hcompetes

/-! ## Any number of arrivals -/

theorem insertAll_append (store : RetainedEvents nostr) (a b : List (VerifiedEvent nostr))
    (now : ℕ) : store.insertAll (a ++ b) now = (store.insertAll a now).insertAll b now :=
  List.foldl_append

/-- What the store holds arrived. -/
theorem mem_of_mem_insertAll {store : RetainedEvents nostr} {arrivals : List (VerifiedEvent nostr)}
    {now : ℕ} {entry : VerifiedEvent nostr × ℕ}
    (h : entry ∈ (store.insertAll arrivals now).events) :
    entry.1 ∈ arrivals ∨ entry ∈ store.events := by
  induction arrivals generalizing store with
  | nil => exact .inr h
  | cons event rest ih =>
    rcases ih h with hrest | hstore
    · exact .inl (List.mem_cons_of_mem event hrest)
    · rcases mem_of_mem_insert hstore with rfl | hold
      · exact .inl List.mem_cons_self
      · exact .inr hold

theorem sound_insertAll {store : RetainedEvents nostr} (h : Sound store)
    (arrivals : List (VerifiedEvent nostr)) (now : ℕ) :
    Sound (store.insertAll arrivals now)
      ∧ (store.insertAll arrivals now).policy = store.policy := by
  induction arrivals generalizing store with
  | nil => exact ⟨h, rfl⟩
  | cons event rest ih =>
    obtain ⟨hsound, hpolicy⟩ := h.insert event now
    obtain ⟨hsound', hpolicy'⟩ := ih hsound
    exact ⟨hsound', hpolicy'.trans hpolicy⟩

theorem converged_new {policy : EventRetentionPolicy} {start : RetainedEvents nostr}
    (h : new policy = .ok start) (now : ℕ) : Converged policy now ∅ start := by
  obtain ⟨hsound, hpolicy, hempty⟩ := sound_new h
  refine ⟨hsound, hpolicy, ?_⟩
  rw [hempty]
  exact
    { sorted := List.Pairwise.nil
      subset := by simp
      length_le := Nat.zero_le _
      all := fun _ event hevent => absurd hevent.1 (Set.notMem_empty event)
      lower := by simp }

/-- Any number of further arrivals. What is retained after each of them has to be within the
byte limit. -/
theorem Converged.insertAll {policy : EventRetentionPolicy} {now : ℕ}
    {s : Set (VerifiedEvent nostr)} (arrivals : List (VerifiedEvent nostr))
    {store : RetainedEvents nostr} (h : Converged policy now s store) (hs : s.Finite)
    (hids : Set.InjOn (fun event : VerifiedEvent nostr => event.event.id)
      (s ∪ {event | event ∈ arrivals}))
    (hfits : ∀ before, before <+: arrivals →
      RetainedFits policy now (s ∪ {event | event ∈ before})) :
    Converged policy now (s ∪ {event | event ∈ arrivals}) (store.insertAll arrivals now) := by
  induction arrivals generalizing s store with
  | nil => simpa [RetainedEvents.insertAll] using h
  | cons x rest ih =>
    have hunion : ∀ before : List (VerifiedEvent nostr), s ∪ {event | event ∈ x :: before}
        = Insert.insert x s ∪ {event | event ∈ before} := by
      intro before
      ext event
      simp only [Set.mem_union, Set.mem_ofPred_eq, Set.mem_insert_iff, List.mem_cons]
      tauto
    rw [hunion] at hids ⊢
    have hfirst := hfits [x] ((List.prefix_cons_inj x).mpr List.nil_prefix)
    rw [hunion] at hfirst
    have hnext := h.insert hs (hids.mono Set.subset_union_left) (by simpa using hfirst)
    refine ih hnext (hs.insert x) hids ?_
    intro before hbefore
    rw [← hunion]
    exact hfits (x :: before) ((List.prefix_cons_inj x).mpr hbefore)

/-- A store holds the same list whatever the order in which a set of events arrived, and
however often: the first `max_events` winners of the set, in order. No two of them share an id
or a coordinate, and `bytes` is the sum of their sizes and one for each. What is retained of
every part of the set has to be within the byte limit. -/
theorem insertAll_converges {policy : EventRetentionPolicy} {start : RetainedEvents nostr}
    (hnew : new policy = .ok start) (now : ℕ) (s : Finset (VerifiedEvent nostr))
    (hids : Set.InjOn (fun event : VerifiedEvent nostr => event.event.id) s)
    (hfits : ∀ t : Set (VerifiedEvent nostr), t ⊆ s → RetainedFits policy now t)
    (arrivals : List (VerifiedEvent nostr)) (harrivals : ∀ event, event ∈ arrivals ↔ event ∈ s) :
    IsLeading rankOf policy.maxEvents (retainedWinners policy now s)
      ((start.insertAll arrivals now).events.map (·.1))
    ∧ (∀ arrivals' : List (VerifiedEvent nostr), (∀ event, event ∈ arrivals' ↔ event ∈ s) →
      (start.insertAll arrivals' now).events = (start.insertAll arrivals now).events)
    ∧ (start.insertAll arrivals now).events.Pairwise (fun a b =>
      a.1.event.id ≠ b.1.event.id
      ∧ (eventCoordinate nostr a.1.event = eventCoordinate nostr b.1.event →
        eventCoordinate nostr a.1.event = none))
    ∧ (start.insertAll arrivals now).bytes
      = ((start.insertAll arrivals now).events.map fun entry => encodedLength entry.1 + 1).sum := by
  -- Whatever the order, what is left are the first winners of all that arrived.
  have hconverged : ∀ arrivals : List (VerifiedEvent nostr),
      (∀ event, event ∈ arrivals ↔ event ∈ s) →
      Converged policy now s (start.insertAll arrivals now) := by
    intro arrivals harrivals
    have hset : (s : Set (VerifiedEvent nostr)) = ∅ ∪ {event | event ∈ arrivals} := by
      ext event
      simp [harrivals]
    rw [hset] at hids hfits ⊢
    refine (converged_new hnew now).insertAll arrivals Set.finite_empty hids ?_
    intro before hbefore
    exact hfits _ (Set.union_subset_union_right ∅ fun event hevent => hbefore.subset hevent)
  have h := hconverged arrivals harrivals
  refine ⟨h.leading, ?_, ?_, ?_⟩
  · intro arrivals' harrivals'
    have h' := hconverged arrivals' harrivals'
    rw [eq_map_encodedLength fun entry => h.sound.size_eq,
      eq_map_encodedLength fun entry => h'.sound.size_eq, h'.leading.unique h.leading]
  · refine h.sound.inOrder.imp_of_mem ?_
    intro a b ha hb hlt
    refine ⟨?_, ?_⟩
    · intro hid
      have hmem : ∀ {entry}, entry ∈ (start.insertAll arrivals now).events → entry.1 ∈ s :=
        fun hentry => (h.leading.subset _ (List.mem_map_of_mem hentry)).1
      rw [hids (hmem ha) (hmem hb) hid] at hlt
      exact lt_irrefl _ hlt
    · intro hcoordinate
      by_contra hsome
      rw [hcoordinate] at hsome
      rw [h.sound.apart a ha b hb ⟨hcoordinate, hsome⟩] at hlt
      exact lt_irrefl _ hlt
  · rw [h.sound.bytes_eq, retainedBytes]
    congr 1
    refine List.map_congr_left ?_
    intro entry hentry
    rw [h.sound.size_eq hentry]

/-- A store of at most 255 events is always within the byte limit. -/
theorem retainedFits_of_maxEvents_le {policy : EventRetentionPolicy}
    (h : policy.maxEvents ≤ 255) (now : ℕ) (s : Set (VerifiedEvent nostr)) :
    RetainedFits policy now s := by
  intro retained hretained
  have hsum : retainedBytes (retained.map fun event => (event, encodedLength event))
      ≤ retained.length * (maxRetainedEventBytes + 1) := by
    rw [retainedBytes, List.map_map]
    refine (List.sum_le_card_nsmul _ (maxRetainedEventBytes + 1) ?_).trans (by simp)
    intro size hsize
    obtain ⟨event, hevent, rfl⟩ := List.mem_map.mp hsize
    obtain ⟨json, -, -, hle⟩ := (hretained.subset event hevent).2.1.encoded
    exact Nat.succ_le_succ hle
  have hlength : retained.length ≤ 255 := hretained.length_le.trans h
  have hmul := Nat.mul_le_mul_right (maxRetainedEventBytes + 1) hlength
  unfold Fits
  simp only [maxRetainedEventBytes, maxRetainedSnapshotBytes] at *
  omega

/-! ## Three events in two orders -/

/-- Two versions of an addressable event, and a note. -/
def olderVersion : VerifiedEvent plainCrate := plainEvent 1 0 30000 10 "a"

def newerVersion : VerifiedEvent plainCrate := plainEvent 2 0 30000 11 "b"

def plainNote : VerifiedEvent plainCrate := plainEvent 3 0 1 5 ""

/-- A store for two events that holds the newer version and the note, in either order of arrival. -/
theorem insertAll_converges_versions :
    let start : RetainedEvents plainCrate := ⟨retainAll 2, [], 0⟩
    (start.insertAll [newerVersion, plainNote, olderVersion, plainNote] 20).events
        = (start.insertAll [plainNote, olderVersion, newerVersion] 20).events ∧
      (start.insertAll [plainNote, olderVersion, newerVersion] 20).events.map (·.1) =
        [newerVersion, plainNote] := by
  intro start
  have hids : Set.InjOn (fun event : VerifiedEvent plainCrate => event.event.id)
      (({olderVersion, newerVersion, plainNote} : Finset (VerifiedEvent plainCrate)) : Set _) := by
    have hall : ∀ a ∈ ({olderVersion, newerVersion, plainNote} : Finset (VerifiedEvent plainCrate)),
        ∀ b ∈ ({olderVersion, newerVersion, plainNote} : Finset (VerifiedEvent plainCrate)),
        a.event.id = b.event.id → a = b := by decide +kernel
    intro a ha b hb
    exact hall a ha b hb
  have hnew : new (retainAll 2) = .ok start := rfl
  refine ⟨(insertAll_converges hnew 20 {olderVersion, newerVersion, plainNote} hids
    (fun t _ => retainedFits_of_maxEvents_le (Nat.le_of_ble_eq_true rfl) 20 t)
    [plainNote, olderVersion, newerVersion] ?_).2.1 [newerVersion, plainNote, olderVersion, plainNote]
    ?_, by decide +kernel⟩
  · intro event
    simp only [List.mem_cons, List.not_mem_nil, or_false, Finset.mem_insert, Finset.mem_singleton]
    tauto
  · intro event
    simp only [List.mem_cons, List.not_mem_nil, or_false, Finset.mem_insert, Finset.mem_singleton]
    tauto

/-! ## Large versions that are superseded later

256 addressable events of nearly the maximal size do not fit into a store together with a
note. A note that is in the store before them is evicted; after each of them was superseded by
a small version, there would be room for it again. -/

section ByteLimit

/-- An addressable event of 65535 bytes. -/
def large (i : ℕ) : VerifiedEvent plainCrate :=
  plainEvent (UInt8.ofNat i) 1 (30000 + i) 10 (String.ofList (List.replicate 65197 'x'))

/-- The version that supersedes it. -/
def small (i : ℕ) : VerifiedEvent plainCrate := plainEvent (UInt8.ofNat i) 2 (30000 + i) 11 ""

/-- A note older than all of them. -/
def oldNote : VerifiedEvent plainCrate := plainEvent 0 3 1 1 ""

def larges : List (VerifiedEvent plainCrate) := (List.range 256).map large

def smalls : List (VerifiedEvent plainCrate) := (List.range 256).map small

/-- The empty store for up to 4096 events. -/
def crowdStore : RetainedEvents plainCrate := { policy := retainAll 4096, events := [], bytes := 0 }

theorem length_utf8Bytes_replicate (n : ℕ) :
    (utf8Bytes (String.ofList (List.replicate n 'x'))).length = n := by
  have hone : ['x'].utf8Encode.size = 1 := by decide
  unfold utf8Bytes
  rw [String.toByteArray_ofList]
  induction n with
  | zero => rfl
  | succ n ih =>
    rw [List.replicate_succ, List.utf8Encode_cons]
    simp only [ByteArray.data_append, Array.toList_append, List.length_append, Array.length_toList,
      ByteArray.size_data] at ih ⊢
    omega

theorem length_plainJson (event : Event) :
    event.plainJson.length = 331 + (utf8Bytes (toString event.createdAt)).length
      + (utf8Bytes (toString event.kind)).length + (utf8Bytes event.content).length := by
  have hhex : ∀ bytes : List UInt8, (hexBytes bytes).length = 2 * bytes.length := by
    intro bytes
    simp [hexBytes, hexByte, Nat.mul_comm]
  have hliterals : (utf8Bytes "\x7b\"id\":\"").length = 7
      ∧ (utf8Bytes "\",\"pubkey\":\"").length = 12
      ∧ (utf8Bytes "\",\"created_at\":").length = 15 ∧ (utf8Bytes ",\"kind\":").length = 8
      ∧ (utf8Bytes ",\"tags\":[],\"content\":\"").length = 22
      ∧ (utf8Bytes "\",\"sig\":\"").length = 9 ∧ (utf8Bytes "\"\x7d").length = 2 := by
    decide +kernel
  obtain ⟨h1, h2, h3, h4, h5, h6, h7⟩ := hliterals
  simp only [Event.plainJson, List.length_append, hhex, h1, h2, h3, h4, h5, h6, h7,
    List.Vector.toList_length]
  omega

theorem encodedLength_plain (event : VerifiedEvent plainCrate) :
    encodedLength event = 331 + (utf8Bytes (toString event.event.createdAt)).length
      + (utf8Bytes (toString event.event.kind)).length
      + (utf8Bytes event.event.content).length := by
  rw [← length_plainJson]
  rfl

theorem encodedLength_large {i : ℕ} (hi : i < 256) : encodedLength (large i) = 65535 := by
  have hkind : ∀ i < 256, (utf8Bytes (toString (30000 + i))).length = 5 := by decide +kernel
  have htime : (utf8Bytes (toString 10)).length = 2 := by decide +kernel
  rw [encodedLength_plain]
  simp only [large, plainEvent, hkind i hi, htime, length_utf8Bytes_replicate]

theorem encodedLength_small {i : ℕ} (hi : i < 256) : encodedLength (small i) = 338 := by
  have hkind : ∀ i < 256, (utf8Bytes (toString (30000 + i))).length = 5 := by decide +kernel
  have htime : (utf8Bytes (toString 11)).length = 2 := by decide +kernel
  have hcontent : (utf8Bytes "").length = 0 := by decide +kernel
  rw [encodedLength_plain]
  simp only [small, plainEvent, hkind i hi, htime, hcontent]

theorem encodedLength_oldNote : encodedLength oldNote = 333 := by decide +kernel

/-- The note, the large versions and the small ones. -/
def Crowd (event : VerifiedEvent plainCrate) : Prop :=
  event = oldNote ∨ ∃ i < 256, event = large i ∨ event = small i

theorem mem_larges {event : VerifiedEvent plainCrate} :
    event ∈ larges ↔ ∃ i < 256, event = large i := by
  simp only [larges, List.mem_map, List.mem_range, eq_comm]

theorem mem_smalls {event : VerifiedEvent plainCrate} :
    event ∈ smalls ↔ ∃ i < 256, event = small i := by
  simp only [smalls, List.mem_map, List.mem_range, eq_comm]

theorem id_plainEvent_eq {a b c d : UInt8} {kind kind' time time' : ℕ} {content content' : String}
    (h : (plainEvent a b kind time content).event.id = (plainEvent c d kind' time' content').event.id) :
    a = c ∧ b = d := by
  have hlist := congrArg List.Vector.toList h
  simp only [plainEvent, List.Vector.toList_mk, List.cons.injEq] at hlist
  exact ⟨hlist.1, hlist.2.1⟩

theorem ofNat_inj {i j : ℕ} (hi : i < 256) (hj : j < 256) (h : UInt8.ofNat i = UInt8.ofNat j) :
    i = j := by
  have hnat := congrArg UInt8.toNat h
  simp only [UInt8.toNat_ofNat'] at hnat
  omega

theorem crowd_id_injOn :
    Set.InjOn (fun event : VerifiedEvent plainCrate => event.event.id) {event | Crowd event} := by
  rintro a (rfl | ⟨i, hi, rfl | rfl⟩) b (rfl | ⟨j, hj, rfl | rfl⟩) hid
  · rfl
  · exact absurd (id_plainEvent_eq hid).2 (by decide)
  · exact absurd (id_plainEvent_eq hid).2 (by decide)
  · exact absurd (id_plainEvent_eq hid).2 (by decide)
  · rw [ofNat_inj hi hj (id_plainEvent_eq hid).1]
  · exact absurd (id_plainEvent_eq hid).2 (by decide)
  · exact absurd (id_plainEvent_eq hid).2 (by decide)
  · exact absurd (id_plainEvent_eq hid).2 (by decide)
  · rw [ofNat_inj hi hj (id_plainEvent_eq hid).1]

section PlainEvent

variable (a b : UInt8) {kind time : ℕ} (content : String)

theorem coordinateOf_plainEvent (hkind : 30000 ≤ kind ∧ kind < 40000) :
    coordinateOf (plainEvent a b kind time content) = some (kind, noteAuthor, "") := by
  have hother : ¬ (kind = 0 ∨ kind = 3 ∨ (10000 ≤ kind ∧ kind ≤ 19999)) := by omega
  have hsecond : 30000 ≤ (plainEvent a b kind time content).event.kind
      ∧ (plainEvent a b kind time content).event.kind < 40000 := hkind
  change (if kind = 0 ∨ kind = 3 ∨ (10000 ≤ kind ∧ kind ≤ 19999) then _ else _) = _
  rw [if_neg hother, if_pos hsecond]
  rfl

theorem isCurrent_plainEvent (hkind : ¬ (20000 ≤ kind ∧ kind < 30000)) (htime : time ≤ 320) :
    retainedEventIsCurrent (plainEvent a b kind time content).event 20 := by
  have hnow : satAdd 20 300 = 320 := by decide
  have hephemeral : (decide (20000 ≤ kind) && decide (kind < 30000)) = false := by
    rw [← Bool.decide_and, decide_eq_false hkind]
  simp only [retainedEventIsCurrent, plainEvent, hnow, htime, List.find?_nil, Option.all_none,
    decide_true, Bool.and_true]
  exact congrArg not hephemeral

theorem supersedes_plainEvent {c d : UInt8} {kind' time' : ℕ} {content' : String}
    (h : time < time') :
    eventSupersedes (plainEvent c d kind' time' content').event
      (plainEvent a b kind time content).event := by
  have htime : (plainEvent a b kind time content).event.createdAt
      < (plainEvent c d kind' time' content').event.createdAt := h
  simp [eventSupersedes, htime]

end PlainEvent

theorem coordinateOf_large {i : ℕ} (hi : i < 256) :
    coordinateOf (large i) = some (30000 + i, noteAuthor, "") :=
  coordinateOf_plainEvent _ _ _ (by omega)

theorem coordinateOf_small {i : ℕ} (hi : i < 256) :
    coordinateOf (small i) = some (30000 + i, noteAuthor, "") :=
  coordinateOf_plainEvent _ _ _ (by omega)

theorem admissible_crowd {event : VerifiedEvent plainCrate} (h : Crowd event) :
    Admissible (retainAll 4096) 20 event := by
  have hsize : encodedLength event ≤ maxRetainedEventBytes := by
    unfold maxRetainedEventBytes
    rcases h with rfl | ⟨i, hi, rfl | rfl⟩
    · rw [encodedLength_oldNote]
      omega
    · rw [encodedLength_large hi]
      omega
    · rw [encodedLength_small hi]
      omega
  refine ⟨rfl, ?_, _, rfl, hsize⟩
  rcases h with rfl | ⟨i, hi, rfl | rfl⟩
  · exact isCurrent_plainEvent _ _ _ (by omega) (by omega)
  · exact isCurrent_plainEvent _ _ _ (by omega) (by omega)
  · exact isCurrent_plainEvent _ _ _ (by omega) (by omega)

/-- A set with the small version of each of its large ones retains nothing large. -/
theorem retainedFits_of_smalls {t : Set (VerifiedEvent plainCrate)} (ht : t ⊆ {event | Crowd event})
    (hsmalls : ∀ i < 256, large i ∈ t → small i ∈ t) : RetainedFits (retainAll 4096) 20 t := by
  intro retained hretained
  have hlight : ∀ event ∈ retained, encodedLength event ≤ 338 := by
    intro event hevent
    obtain ⟨hmem, -, hwins⟩ := hretained.subset event hevent
    rcases ht hmem with rfl | ⟨i, hi, rfl | rfl⟩
    · rw [encodedLength_oldNote]
      omega
    · -- A large version loses to its small one.
      have hsmall := hsmalls i hi hmem
      have hsame : coordinateOf (small i) = coordinateOf (large i) := by
        rw [coordinateOf_small hi, coordinateOf_large hi]
      have hsome : coordinateOf (large i) ≠ none := by simp [coordinateOf_large hi]
      exact absurd (supersedes_plainEvent _ _ _ (by omega))
        (hwins _ hsmall (admissible_crowd (ht hsmall)) hsame hsome)
    · rw [encodedLength_small hi]
  have hsum : retainedBytes (retained.map fun event => (event, encodedLength event))
      ≤ retained.length * 339 := by
    rw [retainedBytes, List.map_map]
    refine (List.sum_le_card_nsmul _ 339 ?_).trans (by simp)
    intro size hsize
    obtain ⟨event, hevent, rfl⟩ := List.mem_map.mp hsize
    exact Nat.succ_le_succ (hlight event hevent)
  have hlength : retained.length ≤ 4096 := hretained.length_le
  unfold Fits
  simp only [maxRetainedSnapshotBytes]
  omega

theorem crowdStore_new : new (retainAll 4096) = .ok crowdStore := rfl

/-- With the small versions first, the note finds room at the end. -/
theorem oldNote_mem_after_smalls :
    oldNote ∈ (crowdStore.insertAll (smalls ++ larges ++ [oldNote]) 20).events.map (·.1) := by
  have hcrowd : ∀ event ∈ smalls ++ larges ++ [oldNote], Crowd event := by
    intro event hevent
    simp only [List.mem_append, mem_smalls, mem_larges, List.mem_singleton] at hevent
    rcases hevent with (⟨i, hi, rfl⟩ | ⟨i, hi, rfl⟩) | rfl
    · exact .inr ⟨i, hi, .inr rfl⟩
    · exact .inr ⟨i, hi, .inl rfl⟩
    · exact .inl rfl
  have hlarge : ∀ i < 256, large i ∉ smalls := by
    intro i hi hmem
    obtain ⟨j, hj, heq⟩ := mem_smalls.mp hmem
    exact absurd (id_plainEvent_eq (congrArg (·.event.id) heq)).2 (by decide)
  have hconverged := (converged_new crowdStore_new 20).insertAll
    (smalls ++ larges ++ [oldNote]) Set.finite_empty ?_ ?_
  · by_contra hmiss
    have hwinner : oldNote ∈ retainedWinners (retainAll 4096) 20
        (∅ ∪ {event | event ∈ smalls ++ larges ++ [oldNote]}) := by
      refine ⟨.inr (by simp), admissible_crowd (.inl rfl), ?_⟩
      intro other _ _ _ hsome
      exact absurd rfl hsome
    have hsub : (crowdStore.insertAll (smalls ++ larges ++ [oldNote]) 20).events.map (·.1)
        ⊆ smalls ++ larges ++ [oldNote] := by
      intro event hevent
      exact (hconverged.leading.subset event hevent).1.resolve_left (Set.notMem_empty event)
    have hlength := (hconverged.leading.nodup.subperm hsub).length_le
    refine hmiss (hconverged.leading.all (hlength.trans_lt ?_) oldNote hwinner)
    simp [smalls, larges, retainAll]
  · refine crowd_id_injOn.mono ?_
    rw [Set.empty_union]
    exact hcrowd
  · -- The large versions come when all small ones are there.
    intro before hbefore
    rw [Set.empty_union]
    refine retainedFits_of_smalls (fun event hevent => hcrowd event (hbefore.subset hevent)) ?_
    intro i hi hmem
    rcases List.prefix_or_prefix_of_prefix hbefore
      ((List.prefix_append smalls larges).trans (List.prefix_append _ [oldNote])) with hpre | hpre
    · exact absurd (hpre.subset hmem) (hlarge i hi)
    · exact hpre.subset (mem_smalls.mpr ⟨i, hi, rfl⟩)

theorem rankOf_large_lt (i : ℕ) : rankOf (large i) < rankOf oldNote :=
  eventSupersedes_iff.mp (supersedes_plainEvent _ _ _ (by omega))

theorem large_ne_oldNote (i : ℕ) : large i ≠ oldNote := by
  intro heq
  have hlt := rankOf_large_lt i
  rw [heq] at hlt
  exact lt_irrefl _ hlt

/-- Large versions with ids of their own do not compete, with each other or with the note. -/
theorem not_competes_large {event : VerifiedEvent plainCrate} {i : ℕ} (hi : i < 256)
    (hevent : event = oldNote ∨ ∃ j < 256, event = large j)
    (hid : event.event.id ≠ (large i).event.id) : ¬ Competes coordinateOf event (large i) := by
  rintro ⟨hcoordinate, hsome⟩
  rcases hevent with rfl | ⟨j, hj, rfl⟩
  · exact hsome hcoordinate.symm
  · rw [coordinateOf_large hi, coordinateOf_large hj, Option.some.injEq, Prod.mk.injEq] at hcoordinate
    obtain rfl : j = i := by omega
    exact hid rfl

/-- The note stays only as long as nothing had to be evicted. -/
theorem mem_of_oldNote_mem {before : List (VerifiedEvent plainCrate)}
    (hbefore : ∀ event ∈ before, ∃ i < 256, event = large i)
    (hnote : oldNote ∈ (crowdStore.insertAll (oldNote :: before) 20).events.map (·.1)) :
    ∀ event ∈ before, event ∈ (crowdStore.insertAll (oldNote :: before) 20).events.map (·.1) := by
  -- By the order of arrival: an insert that evicts anything evicts the note first.
  induction before using List.reverseRecOn with
  | nil => simp
  | append_singleton before x ih =>
    obtain ⟨i, hi, rfl⟩ := hbefore x (by simp)
    have hbefore' : ∀ event ∈ before, ∃ i < 256, event = large i :=
      fun event hevent => hbefore event (by simp [hevent])
    have hstep : crowdStore.insertAll (oldNote :: (before ++ [large i])) 20
        = ((crowdStore.insertAll (oldNote :: before) 20).insert (large i) 20).2 := by
      rw [← List.cons_append, insertAll_append]
      rfl
    obtain ⟨hsound, hpolicy⟩ :=
      sound_insertAll (sound_new crowdStore_new).1 (oldNote :: before) 20
    have harrived : ∀ entry ∈ (crowdStore.insertAll (oldNote :: before) 20).events,
        entry.1 = oldNote ∨ ∃ j < 256, entry.1 = large j := by
      intro entry hentry
      rcases mem_of_mem_insertAll hentry with harrived | hnone
      · rcases List.mem_cons.mp harrived with hold | hlarge
        · exact .inl hold
        · exact .inr (hbefore' entry.1 hlarge)
      · exact absurd hnone (List.not_mem_nil)
    rw [hstep] at hnote ⊢
    -- The note that stands after the last insert stood before it.
    obtain ⟨note, hnoteMem, hnoteEq⟩ := List.mem_map.mp hnote
    have hnoteOld : note ∈ (crowdStore.insertAll (oldNote :: before) 20).events := by
      refine (mem_of_mem_insert hnoteMem).resolve_left ?_
      rintro rfl
      exact large_ne_oldNote i hnoteEq
    have hall := ih hbefore' (List.mem_map.mpr ⟨note, hnoteOld, hnoteEq⟩)
    generalize crowdStore.insertAll (oldNote :: before) 20 = store at *
    have hinserted := insert_inserted store (large i) 20
    generalize store.insert (large i) 20 = result at hinserted hnoteMem ⊢
    have hadmissible : Admissible store.policy 20 (large i) := by
      rw [hpolicy]
      exact admissible_crowd (.inr ⟨i, hi, .inl rfl⟩)
    cases hinserted with
    | inadmissible hnot => exact absurd hadmissible hnot
    | duplicate _ hdup =>
      obtain ⟨old, hold, hid⟩ := hdup
      intro event hevent
      rcases List.mem_append.mp hevent with hevent | hx
      · exact hall event hevent
      · rw [List.mem_singleton.mp hx]
        have hcrowd : Crowd old.1 := by
          rcases harrived old hold with hnote | ⟨j, hj, hlarge⟩
          · exact .inl hnote
          · exact .inr ⟨j, hj, .inl hlarge⟩
        have hsame := crowd_id_injOn hcrowd (.inr ⟨i, hi, .inl rfl⟩ : Crowd (large i)) hid
        exact List.mem_map.mpr ⟨old, hold, hsame⟩
    | superseded _ hid hbeaten =>
      obtain ⟨old, hold, hcompetes, -⟩ := hbeaten
      exact absurd hcompetes (not_competes_large hi (harrived old hold) (hid old hold))
    | stored _ hid _ hkept =>
      -- The note comes last in the order of eviction, so nothing was evicted.
      have hkept := hkept.eq_of_last_mem (admitted_inOrder hsound.inOrder hid) note ?_ hnoteMem
      · rw [hkept]
        intro event hevent
        rcases List.mem_append.mp hevent with hevent | hx
        · obtain ⟨entry, hentry, rfl⟩ := List.mem_map.mp (hall event hevent)
          refine List.mem_map.mpr ⟨entry, mem_admitted.mpr (.inr (mem_besides.mpr ?_)), rfl⟩
          obtain ⟨j, hj, hlarge⟩ := hbefore' entry.1 hevent
          refine ⟨hentry, ?_, not_competes_large hi (harrived entry hentry) (hid entry hentry)⟩
          rw [hlarge]
          exact (admissible_crowd (.inr ⟨j, hj, .inl rfl⟩)).2.1
        · rw [List.mem_singleton.mp hx]
          exact List.mem_map.mpr ⟨_, mem_admitted.mpr (.inl rfl), rfl⟩
      · intro entry hentry
        rw [hnoteEq]
        rcases mem_admitted.mp hentry with rfl | hold
        · exact (rankOf_large_lt i).le
        · rcases harrived entry (mem_besides.mp hold).1 with heq | ⟨j, -, heq⟩
          · rw [heq]
          · rw [heq]
            exact (rankOf_large_lt j).le

/-- The large versions alone take more than the limit. -/
theorem not_fits_larges {events : List (VerifiedEvent plainCrate × ℕ)}
    (hsizes : ∀ entry ∈ events, entry.2 = encodedLength entry.1)
    (hlarges : ∀ event ∈ larges, event ∈ events.map (·.1)) : ¬ Fits events := by
  have hnodup : larges.Nodup := by
    refine List.Nodup.map_on ?_ List.nodup_range
    intro i hi j hj heq
    exact ofNat_inj (List.mem_range.mp hi) (List.mem_range.mp hj)
      (id_plainEvent_eq (congrArg (·.event.id) heq)).1
  obtain ⟨listed, hperm, hsub⟩ := hnodup.subperm hlarges
  have hsum : (larges.map fun event => encodedLength event + 1).sum = 256 * 65536 := by
    have hconst : larges.map (fun event => encodedLength event + 1)
        = (List.range 256).map fun _ => 65536 := by
      rw [larges, List.map_map]
      refine List.map_congr_left ?_
      intro i hi
      rw [Function.comp_apply, encodedLength_large (List.mem_range.mp hi)]
    rw [hconst, List.map_const', List.sum_replicate, List.length_range]
    rfl
  have hle : (larges.map fun event => encodedLength event + 1).sum ≤ retainedBytes events := by
    rw [← (hperm.map _).sum_eq, eq_map_encodedLength hsizes, retainedBytes, List.map_map]
    exact (hsub.map _).sum_le_sum fun n _ => Nat.zero_le n
  unfold Fits
  simp only [maxRetainedSnapshotBytes]
  omega

/-- With the large versions in between, the note is gone. -/
theorem oldNote_notMem_after_larges :
    oldNote ∉ (crowdStore.insertAll (oldNote :: larges ++ smalls) 20).events.map (·.1) := by
  intro hmem
  rw [insertAll_append] at hmem
  obtain ⟨entry, hentry, hnote⟩ := List.mem_map.mp hmem
  have hstill : entry ∈ (crowdStore.insertAll (oldNote :: larges) 20).events := by
    refine (mem_of_mem_insertAll hentry).resolve_left ?_
    rw [hnote, mem_smalls]
    rintro ⟨i, hi, heq⟩
    exact absurd (id_plainEvent_eq (congrArg (·.event.id) heq)).2 (by decide)
  have hall := mem_of_oldNote_mem (fun event => mem_larges.mp)
    (List.mem_map.mpr ⟨entry, hstill, hnote⟩)
  have hsound := (sound_insertAll (sound_new crowdStore_new).1 (oldNote :: larges) 20).1
  exact not_fits_larges (fun entry => hsound.size_eq) hall hsound.fits

/-- All of these events. -/
def crowd : Finset (VerifiedEvent plainCrate) := (oldNote :: larges ++ smalls).toFinset

/-- What is retained of all of these events is within the byte limit, yet two orders of their
arrival end in different stores. -/
theorem not_converges_when_last_fits :
    Set.InjOn (fun event : VerifiedEvent plainCrate => event.event.id) crowd
    ∧ RetainedFits (retainAll 4096) 20 (crowd : Set (VerifiedEvent plainCrate))
    ∧ (∀ event, event ∈ oldNote :: larges ++ smalls ↔ event ∈ crowd)
    ∧ (∀ event, event ∈ smalls ++ larges ++ [oldNote] ↔ event ∈ crowd)
    ∧ (crowdStore.insertAll (oldNote :: larges ++ smalls) 20).events
      ≠ (crowdStore.insertAll (smalls ++ larges ++ [oldNote]) 20).events := by
  have hmem : ∀ event, event ∈ crowd ↔ event ∈ oldNote :: larges ++ smalls :=
    fun event => List.mem_toFinset
  have hcrowd : (crowd : Set (VerifiedEvent plainCrate)) ⊆ {event | Crowd event} := by
    intro event hevent
    have hlist := (hmem event).mp hevent
    simp only [List.cons_append, List.mem_cons, List.mem_append, mem_larges, mem_smalls] at hlist
    rcases hlist with rfl | ⟨i, hi, rfl⟩ | ⟨i, hi, rfl⟩
    · exact .inl rfl
    · exact .inr ⟨i, hi, .inl rfl⟩
    · exact .inr ⟨i, hi, .inr rfl⟩
  refine ⟨crowd_id_injOn.mono hcrowd, ?_, fun event => (hmem event).symm, ?_, ?_⟩
  · refine retainedFits_of_smalls hcrowd ?_
    intro i hi _
    refine (hmem _).mpr (List.mem_append_right _ (mem_smalls.mpr ⟨i, hi, rfl⟩))
  · intro event
    rw [hmem]
    simp only [List.cons_append, List.mem_cons, List.mem_append, List.not_mem_nil, or_false]
    tauto
  · intro heq
    have hlate := oldNote_mem_after_smalls
    rw [← heq] at hlate
    exact oldNote_notMem_after_larges hlate

end ByteLimit

end RetainedEvents

end NostrPubsub
