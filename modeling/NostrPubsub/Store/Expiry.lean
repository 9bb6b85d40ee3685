import NostrPubsub.Store.Refusal
import NostrPubsub.Store.Restart

/-!
# Whether entries that are no longer current can be observed

Reads skip the entries that are not current, and an insertion that is admitted removes them. Before
that they take part in the checks of `insert`: an expired version of a coordinate still refuses the
older versions, although nobody can read it any more. What a store answers therefore depends on
whether an unrelated event was inserted in between (`unobservable_iff`).

The other way in which an entry that is not current can be observed is a clock that goes back: an
entry that is then too far in the future becomes current again.
-/

namespace NostrPubsub

namespace RetainedEvents

variable {nostr : NostrCrate}

/-- A store without the entries that are not current. -/
def purge (store : RetainedEvents nostr) (now : ℕ) : RetainedEvents nostr :=
  let current := store.events.filter fun entry => retainedEventIsCurrent entry.1.event now
  { store with events := current, bytes := retainedBytes current }

/-- From a time on, two stores answer every query alike and give the same snapshots. -/
def SameReads (a b : RetainedEvents nostr) (now : ℕ) : Prop :=
  ∀ time, now ≤ time → (∀ filters limit, a.query filters limit time = b.query filters limit time) ∧
    a.snapshot time = b.snapshot time

/-- An insertion has the same result, and is followed by the same reads, whether or not the entries
that are not current are removed first. -/
def Unobservable (store : RetainedEvents nostr) (event : VerifiedEvent nostr) (now : ℕ) : Prop :=
  (store.insert event now).1 = ((store.purge now).insert event now).1 ∧
    SameReads (store.insert event now).2 ((store.purge now).insert event now).2 now

/-- No entry that is not current becomes current again. -/
def NoReturn (store : RetainedEvents nostr) (now : ℕ) : Prop :=
  ∀ old ∈ store.events, ∀ time, now ≤ time → retainedEventIsCurrent old.1.event time = true →
    retainedEventIsCurrent old.1.event now = true

/-- The current events all come before an event, and leave no room for it. -/
def LeavesNoRoom (store : RetainedEvents nostr) (event : VerifiedEvent nostr) (now : ℕ) : Prop :=
  (∀ old ∈ store.events, retainedEventIsCurrent old.1.event now = true →
      rankOf old.1 < rankOf event) ∧
    ¬((store.currentBefore event now).length < store.policy.maxEvents ∧
      Fits (store.currentBefore event now ++ [entryOf event]))

variable {store : RetainedEvents nostr} {event : VerifiedEvent nostr} {now : ℕ}

theorem mem_purge {entry : VerifiedEvent nostr × ℕ} :
    entry ∈ (store.purge now).events ↔
      entry ∈ store.events ∧ retainedEventIsCurrent entry.1.event now = true := List.mem_filter

theorem Sound.purge (h : Sound store) (now : ℕ) : Sound (store.purge now) := by
  have hsublist : (store.purge now).events.Sublist store.events := List.filter_sublist
  exact
    { accepted := fun entry hentry => h.accepted entry (hsublist.subset hentry)
      encoded := fun entry hentry => h.encoded entry (hsublist.subset hentry)
      inOrder := h.inOrder.sublist hsublist
      distinct := fun a ha b hb => h.distinct a (hsublist.subset ha) b (hsublist.subset hb)
      apart := fun a ha b hb => h.apart a (hsublist.subset ha) b (hsublist.subset hb)
      length_le := hsublist.length_le.trans h.length_le
      bytes_eq := rfl
      fits := h.fits.of_sublist hsublist }

theorem Takes.purge (h : Takes store event now) : Takes (store.purge now) event now :=
  ⟨h.1, fun old hold => h.2.1 old (mem_purge.mp hold).1,
    fun old hold => h.2.2 old (mem_purge.mp hold).1⟩

theorem currentBefore_purge :
    (store.purge now).currentBefore event now = store.currentBefore event now := by
  rw [currentBefore, purge, List.filter_filter, currentBefore]
  refine List.filter_congr fun old _ => ?_
  cases retainedEventIsCurrent old.1.event now <;> simp

theorem admitted_purge : (store.purge now).admitted event now = store.admitted event now := by
  have hbesides : (store.purge now).besides event now = store.besides event now := by
    rw [besides, purge, List.filter_filter, besides]
    refine List.filter_congr fun old _ => ?_
    cases retainedEventIsCurrent old.1.event now <;> simp
  rw [admitted, hbesides, admitted]

/-- The loop of `insert` has one outcome. -/
theorem Evicted.unique {maxEvents : ℕ} {events kept kept' : List (VerifiedEvent nostr × ℕ)}
    (h : Evicted maxEvents events kept) (h' : Evicted maxEvents events kept') : kept = kept' := by
  have hle := h'.longest kept h.isPrefix h.length_le h.fits
  have hle' := h.longest kept' h'.isPrefix h'.length_le h'.fits
  have hkept : kept <+: kept' := List.prefix_of_prefix_length_le h.isPrefix h'.isPrefix hle
  exact hkept.eq_of_length (le_antisymm hle hle')

/-- An insertion that the whole store admits removes the entries anyway. -/
theorem insert_purge_of_takes (h : Takes store event now) :
    (store.purge now).insert event now = store.insert event now := by
  obtain ⟨kept, hkept, heq⟩ := insert_of_takes h
  obtain ⟨kept', hkept', heq'⟩ := insert_of_takes h.purge
  rw [admitted_purge] at hkept'
  rw [heq, heq', hkept.unique hkept']
  rfl

/-! ## What can be read -/

/-- A store that has lost entries is read like the whole one exactly if none of them is current at
any later time. -/
theorem sameReads_iff_of_filter (h : Sound store) {after : RetainedEvents nostr}
    (hpolicy : after.policy = store.policy) {p : VerifiedEvent nostr × ℕ → Bool}
    (hevents : after.events = store.events.filter p) :
    SameReads store after now ↔ ∀ old ∈ store.events, ∀ time, now ≤ time →
      retainedEventIsCurrent old.1.event time = true → p old = true := by
  constructor
  · intro hreads old hold time htime hcurrent
    exact (snapshot_eq_iff_of_filter hevents time).mp (hreads time htime).2.symm old hold hcurrent
  · intro hkeeps time htime
    have hkeep : ∀ old ∈ store.events, retainedEventIsCurrent old.1.event time = true →
        p old = true := fun old hold => hkeeps old hold time htime
    refine ⟨fun filters limit => ?_, ?_⟩
    · exact (query_eq_of_filter h hpolicy hevents hkeep filters limit).symm
    · exact ((snapshot_eq_iff_of_filter hevents time).mpr hkeep).symm

theorem sameReads_purge_iff (h : Sound store) :
    SameReads store (store.purge now) now ↔ NoReturn store now := by
  have hevents : (store.purge now).events =
      store.events.filter fun old => retainedEventIsCurrent old.1.event now := rfl
  have hpolicy : (store.purge now).policy = store.policy := rfl
  exact sameReads_iff_of_filter h hpolicy hevents

theorem sameReads_currentBefore_iff (h : Sound store) {after : RetainedEvents nostr}
    (hpolicy : after.policy = store.policy)
    (hevents : after.events = store.currentBefore event now) :
    SameReads store after now ↔ NoReturn store now ∧
      ∀ old ∈ store.events, retainedEventIsCurrent old.1.event now = true →
        rankOf old.1 < rankOf event := by
  rw [sameReads_iff_of_filter h hpolicy hevents]
  simp only [Bool.and_eq_true, decide_eq_true_eq]
  constructor
  · intro hkeeps
    exact ⟨fun old hold time htime hcurrent => (hkeeps old hold time htime hcurrent).1,
      fun old hold hcurrent => (hkeeps old hold now le_rfl hcurrent).2⟩
  · rintro ⟨hreturn, hbefore⟩ old hold time htime hcurrent
    have hnow := hreturn old hold time htime hcurrent
    exact ⟨hnow, hbefore old hold hnow⟩

/-- Entries that are not current cannot be observed by an insertion and later reads exactly if the
whole store admits the event, or if nothing becomes current again and the event would not stay in
the purged store either. -/
theorem unobservable_iff (h : Reachable store) (event : VerifiedEvent nostr) (now : ℕ) :
    Unobservable store event now ↔ store.Takes event now ∨
      NoReturn store now ∧
        (¬(store.purge now).Takes event now ∨ store.LeavesNoRoom event now) := by
  have hsound := h.sound
  by_cases htakes : store.Takes event now
  · rw [Unobservable, insert_purge_of_takes htakes]
    exact ⟨fun _ => .inl htakes, fun _ => ⟨rfl, fun _ _ => ⟨fun _ _ => rfl, rfl⟩⟩⟩
  rw [or_iff_right htakes, Unobservable, insert_of_not_takes htakes]
  by_cases hpurged : (store.purge now).Takes event now
  swap
  · -- both stores turn the event away
    rw [insert_of_not_takes hpurged, sameReads_purge_iff hsound]
    simp only [hpurged, not_false_eq_true, true_or, and_true, true_and]
  rw [or_iff_right (not_not.mpr hpurged), LeavesNoRoom, ← currentBefore_purge]
  by_cases hroom : ((store.purge now).currentBefore event now).length < store.policy.maxEvents ∧
      Fits ((store.purge now).currentBefore event now ++ [entryOf event])
  · -- the purged store accepts what the whole one refuses
    rw [insert_of_room (hsound.purge now) hpurged hroom.1 hroom.2]
    refine ⟨fun hsame => absurd hsame.1 Bool.false_ne_true, ?_⟩
    rintro ⟨-, -, hfull⟩
    exact absurd hroom hfull
  · obtain ⟨hfalse, hevents⟩ := insert_of_full (hsound.purge now) hpurged hroom
    rw [currentBefore_purge] at hevents
    have hpolicy := ((hsound.purge now).insert event now).2
    rw [hfalse, sameReads_currentBefore_iff hsound hpolicy hevents]
    simp only [hroom, not_false_eq_true, and_true, true_and]

/-! ### A profile that expires -/

/-- The signed metadata of an author. -/
def olderProfile : Event where
  id :=
    ⟨[6, 190, 249, 73, 129, 176, 31, 130, 228, 148, 174, 19, 254, 133, 114, 253, 127, 98, 216,
      250, 20, 186, 214, 205, 198, 242, 249, 183, 224, 91, 2, 210], rfl⟩
  pubkey := noteAuthor
  createdAt := 1
  kind := 0
  tags := []
  content := "a"
  sig :=
    ⟨[112, 212, 11, 45, 120, 121, 80, 137, 35, 219, 237, 223, 140, 109, 23, 193, 5, 139, 210,
      109, 10, 225, 123, 114, 27, 3, 101, 65, 25, 212, 183, 4, 22, 89, 58, 41, 165, 96, 202,
      130, 115, 75, 169, 106, 170, 161, 15, 126, 178, 115, 245, 130, 33, 35, 131, 81, 51, 230,
      228, 186, 102, 155, 244, 202], rfl⟩

/-- A newer version that expires at 100. -/
def newerProfile : Event where
  id :=
    ⟨[227, 119, 213, 133, 26, 198, 69, 109, 149, 6, 59, 96, 114, 148, 41, 154, 27, 45, 143, 57,
      167, 215, 183, 167, 227, 18, 41, 243, 188, 113, 113, 217], rfl⟩
  pubkey := noteAuthor
  createdAt := 2
  kind := 0
  tags := [["expiration", "100"]]
  content := "b"
  sig :=
    ⟨[61, 245, 22, 255, 169, 212, 57, 228, 217, 236, 247, 204, 14, 59, 187, 6, 93, 55, 233, 107,
      220, 6, 58, 210, 126, 125, 214, 25, 25, 157, 180, 221, 220, 44, 33, 26, 36, 201, 177, 245,
      62, 192, 47, 129, 197, 204, 229, 163, 240, 40, 185, 89, 199, 115, 233, 179, 164, 213, 20,
      55, 197, 128, 120, 132], rfl⟩

/-- The JSON form of tags without escapes. -/
def plainTags (tags : List (List String)) : String :=
  let items := fun texts : List String => "[" ++ ",".intercalate texts ++ "]"
  items (tags.map fun tag => items (tag.map fun value => "\"" ++ value ++ "\""))

/-- The crate as it behaves on the two profiles: both verify, nothing else does, and their JSON form
needs no escapes. -/
def profileCrate : NostrCrate where
  verify event :=
    if event = olderProfile ∨ event = newerProfile then .ok () else .error "Invalid signature"
  toJson event := .ok
    (utf8Bytes "\x7b\"id\":\"" ++ hexBytes event.id.toList
      ++ utf8Bytes "\",\"pubkey\":\"" ++ hexBytes event.pubkey.toList
      ++ utf8Bytes "\",\"created_at\":" ++ utf8Bytes (toString event.createdAt)
      ++ utf8Bytes ",\"kind\":" ++ utf8Bytes (toString event.kind)
      ++ utf8Bytes ",\"tags\":" ++ utf8Bytes (plainTags event.tags)
      ++ utf8Bytes ",\"content\":\"" ++ utf8Bytes event.content
      ++ utf8Bytes "\",\"sig\":\"" ++ hexBytes event.sig.toList ++ utf8Bytes "\"\x7d")
  identifier := firstIdentifier

def olderVerified : VerifiedEvent profileCrate := ⟨olderProfile, by decide +kernel⟩

def newerVerified : VerifiedEvent profileCrate := ⟨newerProfile, by decide +kernel⟩

/-- A store into which the newer version was put at time 50. -/
def profileStore : RetainedEvents profileCrate :=
  (RetainedEvents.insert ⟨retainAll 8, [], 0⟩ newerVerified 50).2

theorem reachable_profileStore : Reachable profileStore :=
  Reachable.insert (@Reachable.new _ (retainAll 8) _ rfl) newerVerified 50

/-- At time 150 the newer version has expired and still refuses the older one. -/
theorem expired_profile_observed :
    Reachable profileStore ∧ ¬Unobservable profileStore olderVerified 150 := by
  refine ⟨reachable_profileStore, ?_⟩
  rintro ⟨hresult, -⟩
  revert hresult
  decide +kernel

/-- At time 60 it is current, and both stores refuse the older one. -/
theorem current_profile_unobservable :
    (profileStore.insert olderVerified 60).1 = false ∧ Unobservable profileStore olderVerified 60 := by
  refine ⟨by decide +kernel, (unobservable_iff reachable_profileStore olderVerified 60).mpr ?_⟩
  have hcurrent : ∀ old ∈ profileStore.events, retainedEventIsCurrent old.1.event 60 = true := by
    decide +kernel
  have hbeaten : ∃ old ∈ (profileStore.purge 60).events,
      (coordinateOf old.1 = coordinateOf olderVerified ∧ coordinateOf olderVerified ≠ none) ∧
        ¬eventSupersedes olderVerified.event old.1.event = true := by
    decide +kernel
  refine .inr ⟨fun old hold _ _ _ => hcurrent old hold, .inl fun htakes => ?_⟩
  obtain ⟨old, hold, hcompetes, hloses⟩ := hbeaten
  exact hloses (eventSupersedes_iff.mpr (htakes.2.2 old hold hcompetes))

end RetainedEvents

end NostrPubsub
