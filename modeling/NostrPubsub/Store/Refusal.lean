import NostrPubsub.Store.Convergence

/-!
# What a refused insertion loses

`insert` removes the version that the new event supersedes, puts the event in its place, and then
pops events from the end until both limits hold. If the event itself is popped, `insert` returns
false, but everything that stood behind the event has been popped before it, and the superseded
version is gone as well. The number of events never leads to this: the store was within its limit,
so that the event is then the last one and replaces nothing. The limit on bytes does
(`refused_insert_keeps_iff`).

`FileEventBus::publish` throws a refused candidate away and reports that nothing has changed.
-/

namespace NostrPubsub

namespace RetainedEvents

variable {nostr : NostrCrate}

/-- The states of a store: after `new`, any inserts and restores, at any times. -/
inductive Reachable : RetainedEvents nostr → Prop where
  | new {policy : EventRetentionPolicy} {store : RetainedEvents nostr} (h : new policy = .ok store) :
    Reachable store
  | insert {store : RetainedEvents nostr} (h : Reachable store) (event : VerifiedEvent nostr)
      (now : ℕ) : Reachable (store.insert event now).2
  | restore {store : RetainedEvents nostr} (h : Reachable store) (events : List Event) (now : ℕ) :
    Reachable (store.restore events now)

theorem Sound.restore {store : RetainedEvents nostr} (h : Sound store) (events : List Event)
    (now : ℕ) : Sound (store.restore events now) := by
  induction events generalizing store with
  | nil => exact h
  | cons event rest ih =>
    rw [RetainedEvents.restore, List.foldl_cons]
    cases hverified : VerifiedEvent.tryFrom nostr event with
    | error error => exact ih h
    | ok verified => exact ih (h.insert verified now).1

theorem Reachable.sound {store : RetainedEvents nostr} (h : Reachable store) : Sound store := by
  induction h with
  | new hnew => exact (sound_new hnew).1
  | insert _ event now ih => exact (ih.insert event now).1
  | restore _ events now ih => exact ih.restore events now

/-! ## Where the new event stands -/

/-- The current stored events that come before an event. -/
def currentBefore (self : RetainedEvents nostr) (event : VerifiedEvent nostr) (now : ℕ) :
    List (VerifiedEvent nostr × ℕ) :=
  self.events.filter fun old =>
    retainedEventIsCurrent old.1.event now && decide (rankOf old.1 < rankOf event)

/-- The stored events that stay and come after an event. -/
def besidesAfter (self : RetainedEvents nostr) (event : VerifiedEvent nostr) (now : ℕ) :
    List (VerifiedEvent nostr × ℕ) :=
  (self.besides event now).filter fun old => decide (rankOf event < rankOf old.1)

/-- An event supersedes what is stored at its coordinate. -/
def Supersedes (self : RetainedEvents nostr) (event : VerifiedEvent nostr) : Prop :=
  ∀ old ∈ self.events, Competes coordinateOf old.1 event → rankOf event < rankOf old.1

/-- No stored event has the id of an event. -/
def NewId (self : RetainedEvents nostr) (event : VerifiedEvent nostr) : Prop :=
  ∀ old ∈ self.events, old.1.event.id ≠ event.event.id

/-- The checks of `insert` admit an event. -/
def Takes (self : RetainedEvents nostr) (event : VerifiedEvent nostr) (now : ℕ) : Prop :=
  Admissible self.policy now event ∧ self.NewId event ∧ self.Supersedes event

variable {self : RetainedEvents nostr} {event : VerifiedEvent nostr} {now : ℕ}

theorem insert_of_takes (h : self.Takes event now) :
    ∃ kept, Evicted self.policy.maxEvents (self.admitted event now) kept ∧
      self.insert event now = (kept.any (fun stored => stored.1.event.id = event.event.id),
        { self with events := kept, bytes := retainedBytes kept }) := by
  obtain ⟨hadmissible, hid, hwins⟩ := h
  have hinserted := insert_inserted self event now
  generalize self.insert event now = result at hinserted ⊢
  cases hinserted with
  | inadmissible hnot => exact absurd hadmissible hnot
  | duplicate _ hdup =>
    obtain ⟨old, hold, heq⟩ := hdup
    exact absurd heq (hid old hold)
  | superseded _ _ hbeaten =>
    obtain ⟨old, hold, hcompetes, hloses⟩ := hbeaten
    exact absurd (hwins old hold hcompetes) hloses
  | stored _ _ _ hkept => exact ⟨_, hkept, rfl⟩

/-- An event that the checks turn away leaves the store as it is. -/
theorem insert_of_not_takes (h : ¬self.Takes event now) : self.insert event now = (false, self) := by
  have hinserted := insert_inserted self event now
  generalize self.insert event now = result at hinserted ⊢
  cases hinserted with
  | inadmissible _ => rfl
  | duplicate _ _ => rfl
  | superseded _ _ _ => rfl
  | stored hadmissible hid hwins _ => exact absurd ⟨hadmissible, hid, hwins⟩ h

theorem mem_currentBefore {entry : VerifiedEvent nostr × ℕ} :
    entry ∈ self.currentBefore event now ↔ entry ∈ self.events ∧
      retainedEventIsCurrent entry.1.event now = true ∧ rankOf entry.1 < rankOf event := by
  simp [currentBefore]

/-- The list that `insert` cuts: what comes before the event, the event, and what comes after. -/
theorem admitted_eq (h : Sound self) (hid : self.NewId event) (hwins : self.Supersedes event) :
    self.admitted event now =
      self.currentBefore event now ++ (event, encodedLength event) :: self.besidesAfter event now := by
  have hsorted : InOrder (self.admitted event now) := admitted_inOrder h.inOrder hid
  have hbefore : InOrder (self.currentBefore event now) := h.inOrder.sublist List.filter_sublist
  have hafter : InOrder (self.besidesAfter event now) :=
    h.inOrder.sublist (List.filter_sublist.trans List.filter_sublist)
  have hjoined : InOrder (self.currentBefore event now ++
      (event, encodedLength event) :: self.besidesAfter event now) := by
    refine List.pairwise_append.mpr ⟨hbefore, List.pairwise_cons.mpr ⟨?_, hafter⟩, ?_⟩
    · intro later hlater
      exact of_decide_eq_true (List.mem_filter.mp hlater).2
    · intro earlier hearlier later hlater
      have hlt := (mem_currentBefore.mp hearlier).2.2
      rcases List.mem_cons.mp hlater with rfl | hlater
      · exact hlt
      · exact hlt.trans (of_decide_eq_true (List.mem_filter.mp hlater).2)
  have hrank := @IsLeading.eq_of_sorted _ _ _ (fun entry : VerifiedEvent nostr × ℕ => rankOf entry.1)
    _ _ hsorted hjoined
  refine hrank fun entry => ?_
  rw [mem_admitted, List.mem_append, List.mem_cons, mem_currentBefore, besidesAfter, List.mem_filter]
  constructor
  · rintro (heq | hentry)
    · exact .inr (.inl heq)
    · obtain ⟨hstored, hcurrent, hfree⟩ := mem_besides.mp hentry
      rcases lt_trichotomy (rankOf entry.1) (rankOf event) with hlt | heq | hlt
      · exact .inl ⟨hstored, hcurrent, hlt⟩
      · exact absurd (Event.id_eq_of_rank_eq heq) (hid entry hstored)
      · exact .inr (.inr ⟨hentry, decide_eq_true hlt⟩)
  · rintro (⟨hstored, hcurrent, hlt⟩ | heq | ⟨hentry, -⟩)
    · -- what competes with the event comes after it
      refine .inr (mem_besides.mpr ⟨hstored, hcurrent, fun hcompetes => ?_⟩)
      exact absurd (hwins entry hstored hcompetes) hlt.not_gt
    · exact .inl heq
    · exact .inr hentry

section Cut

variable {maxEvents : ℕ} {before after kept : List (VerifiedEvent nostr × ℕ)}
  {entry : VerifiedEvent nostr × ℕ}

theorem prefix_next (before after : List (VerifiedEvent nostr × ℕ))
    (entry : VerifiedEvent nostr × ℕ) : before ++ [entry] <+: before ++ entry :: after :=
  ⟨after, by rw [List.append_assoc, List.singleton_append]⟩

/-- A cut spares an entry up to which both limits hold. -/
theorem Evicted.mem_of_room (h : Evicted maxEvents (before ++ entry :: after) kept)
    (hlength : before.length < maxEvents) (hfits : Fits (before ++ [entry])) : entry ∈ kept := by
  have hlong := h.longest _ (prefix_next before after entry)
    (by rw [List.length_append]; exact hlength) hfits
  have hkept : before ++ [entry] <+: kept :=
    List.prefix_of_prefix_length_le (prefix_next before after entry) h.isPrefix hlong
  exact hkept.subset (List.mem_append_right _ (List.mem_singleton_self entry))

/-- A cut falls before an entry at which a limit is exceeded. -/
theorem Evicted.eq_of_full (h : Evicted maxEvents (before ++ entry :: after) kept)
    (hlength : before.length ≤ maxEvents) (hfits : Fits before)
    (hfull : ¬(before.length < maxEvents ∧ Fits (before ++ [entry]))) : kept = before := by
  have hlong := h.longest before (List.prefix_append _ _) hlength hfits
  have hkept : before <+: kept :=
    List.prefix_of_prefix_length_le (List.prefix_append _ _) h.isPrefix hlong
  by_contra hne
  have hlt : before.length < kept.length :=
    lt_of_le_of_ne hlong fun heq => hne (hkept.eq_of_length heq).symm
  have hover : before ++ [entry] <+: kept :=
    List.prefix_of_prefix_length_le (prefix_next before after entry) h.isPrefix
      (by rw [List.length_append]; exact hlt)
  exact hfull ⟨hlt.trans_le h.length_le, h.fits.of_sublist hover.sublist⟩

end Cut

/-! ## What is lost -/

/-- The entry of an event that is put into a store. -/
def entryOf (event : VerifiedEvent nostr) : VerifiedEvent nostr × ℕ := (event, encodedLength event)

/-- An insertion that is refused although it changes the store: the event is one that the store
would take, but it does not fit behind the current events that come before it, and a current event
comes after it. -/
structure LosesEvents (store : RetainedEvents nostr) (event : VerifiedEvent nostr) (now : ℕ) :
    Prop where
  takes : store.Takes event now
  tooLarge : ¬Fits (store.currentBefore event now ++ [entryOf event])
  later : ∃ old ∈ store.events, retainedEventIsCurrent old.1.event now = true ∧
    rankOf event < rankOf old.1

/-- What is left of a store that had to give up the event. -/
theorem insert_of_full (h : Sound self) (htakes : self.Takes event now)
    (hfull : ¬((self.currentBefore event now).length < self.policy.maxEvents ∧
      Fits (self.currentBefore event now ++ [entryOf event]))) :
    (self.insert event now).1 = false ∧
      (self.insert event now).2.events = self.currentBefore event now := by
  have hsublist : (self.currentBefore event now).Sublist self.events := List.filter_sublist
  obtain ⟨kept, hkept, heq⟩ := insert_of_takes htakes
  rw [admitted_eq h htakes.2.1 htakes.2.2] at hkept
  have hbefore := hkept.eq_of_full (hsublist.length_le.trans h.length_le)
    (h.fits.of_sublist hsublist) hfull
  rw [heq, hbefore]
  refine ⟨?_, rfl⟩
  rw [List.any_eq_false]
  intro old hold
  rw [decide_eq_true_iff]
  exact htakes.2.1 old (hsublist.subset hold)

theorem insert_of_room (h : Sound self) (htakes : self.Takes event now)
    (hlength : (self.currentBefore event now).length < self.policy.maxEvents)
    (hfits : Fits (self.currentBefore event now ++ [entryOf event])) :
    (self.insert event now).1 = true := by
  obtain ⟨kept, hkept, heq⟩ := insert_of_takes htakes
  rw [admitted_eq h htakes.2.1 htakes.2.2] at hkept
  rw [heq, List.any_eq_true]
  exact ⟨entryOf event, hkept.mem_of_room hlength hfits, decide_eq_true rfl⟩

/-- If a full number of events comes before the event, they are all that is stored. -/
theorem no_later_of_full_number (h : Sound self)
    (hfull : ¬(self.currentBefore event now).length < self.policy.maxEvents) :
    self.currentBefore event now = self.events := by
  have hsublist : (self.currentBefore event now).Sublist self.events := List.filter_sublist
  exact hsublist.eq_of_length_le (h.length_le.trans (not_lt.mp hfull))

/-- A store that has lost entries shows it exactly if one of them is current. -/
theorem snapshot_eq_iff_of_filter {after : RetainedEvents nostr} {p : VerifiedEvent nostr × ℕ → Bool}
    (h : after.events = self.events.filter p) (time : ℕ) :
    after.snapshot time = self.snapshot time ↔
      ∀ old ∈ self.events, retainedEventIsCurrent old.1.event time = true → p old = true := by
  have hswap : (self.events.filter p).filter (fun old => retainedEventIsCurrent old.1.event time) =
      (self.events.filter fun old => retainedEventIsCurrent old.1.event time).filter p := by
    rw [List.filter_filter, List.filter_filter]
    exact List.filter_congr fun old _ => Bool.and_comm _ _
  rw [snapshot, snapshot, h, hswap]
  constructor
  · intro heq old hold hcurrent
    have hlength := congrArg List.length heq
    rw [List.length_map, List.length_map] at hlength
    exact List.filter_eq_self.mp (List.filter_sublist.eq_of_length hlength) old
      (List.mem_filter.mpr ⟨hold, hcurrent⟩)
  · intro hkeeps
    congr 1
    rw [List.filter_eq_self]
    intro old hold
    obtain ⟨hstored, hcurrent⟩ := List.mem_filter.mp hold
    exact hkeeps old hstored hcurrent

theorem rankOf_lt_of_not_gt (hid : self.NewId event) {old : VerifiedEvent nostr × ℕ}
    (hold : old ∈ self.events) (h : ¬rankOf event < rankOf old.1) : rankOf old.1 < rankOf event :=
  lt_of_le_of_ne (not_lt.mp h) fun heq => hid old hold (Event.id_eq_of_rank_eq heq)

theorem snapshot_eq_iff_of_currentBefore {after : RetainedEvents nostr}
    (hid : self.NewId event) (hafter : after.events = self.currentBefore event now) :
    after.snapshot now = self.snapshot now ↔
      ¬∃ old ∈ self.events, retainedEventIsCurrent old.1.event now = true ∧
        rankOf event < rankOf old.1 := by
  rw [snapshot_eq_iff_of_filter hafter]
  simp only [Bool.and_eq_true, decide_eq_true_eq]
  constructor
  · rintro hbefore ⟨old, hold, hcurrent, hlt⟩
    exact absurd (hbefore old hold hcurrent).2 hlt.not_gt
  · intro hnone old hold hcurrent
    refine ⟨hcurrent, rankOf_lt_of_not_gt hid hold fun hlt => ?_⟩
    exact hnone ⟨old, hold, hcurrent, hlt⟩

/-- The exact condition for a sound store. -/
theorem Sound.keeps_refused_iff (h : Sound self) (event : VerifiedEvent nostr) (now : ℕ) :
    ((self.insert event now).1 = false →
        (self.insert event now).2.snapshot now = self.snapshot now) ↔
      ¬LosesEvents self event now := by
  by_cases htakes : self.Takes event now
  swap
  · -- nothing is touched
    rw [insert_of_not_takes htakes]
    exact ⟨fun _ hloses => htakes hloses.takes, fun _ _ => rfl⟩
  by_cases hroom : (self.currentBefore event now).length < self.policy.maxEvents ∧
      Fits (self.currentBefore event now ++ [entryOf event])
  · rw [insert_of_room h htakes hroom.1 hroom.2]
    exact ⟨fun _ hloses => hloses.tooLarge hroom.2, fun _ => nofun⟩
  · obtain ⟨hfalse, hevents⟩ := insert_of_full h htakes hroom
    rw [imp_iff_right hfalse, snapshot_eq_iff_of_currentBefore htakes.2.1 hevents, not_iff_not]
    constructor
    · intro hlater
      refine ⟨htakes, fun hfits => ?_, hlater⟩
      -- it was the number of events, so nothing comes after the event
      have hall := no_later_of_full_number h fun hlt => hroom ⟨hlt, hfits⟩
      obtain ⟨old, hold, -, hlt⟩ := hlater
      rw [← hall] at hold
      exact absurd (mem_currentBefore.mp hold).2.2 hlt.not_gt
    · exact LosesEvents.later

/-- A refused insertion keeps the current events, and their order, exactly if it is not the limit on
bytes that refuses an event with a current event after it. -/
theorem refused_insert_keeps_iff {store : RetainedEvents nostr} (h : Reachable store)
    (event : VerifiedEvent nostr) (now : ℕ) :
    ((store.insert event now).1 = false →
        (store.insert event now).2.snapshot now = store.snapshot now) ↔
      ¬LosesEvents store event now :=
  h.sound.keeps_refused_iff event now

/-- A store for one event that holds the newer note. -/
def newerNoteStore : RetainedEvents noteCrate := ((noteStore 1).insert verifiedB 1800000000).2

/-- The older note is refused, and the newer one stays. -/
theorem refused_insert_keeps_note :
    (newerNoteStore.insert verifiedA 1800000000).1 = false ∧
      (newerNoteStore.insert verifiedA 1800000000).2.snapshot 1800000000 =
        newerNoteStore.snapshot 1800000000 := by
  have hreachable : Reachable newerNoteStore :=
    Reachable.insert (@Reachable.new _ (retainAll 1) _ rfl) verifiedB 1800000000
  have hrefused : (newerNoteStore.insert verifiedA 1800000000).1 = false := by decide +kernel
  refine ⟨hrefused, (refused_insert_keeps_iff hreachable verifiedA 1800000000).mpr ?_ hrefused⟩
  intro hloses
  have hfits : retainedBytes (newerNoteStore.currentBefore verifiedA 1800000000 ++
      [entryOf verifiedA]) + 128 ≤ maxRetainedSnapshotBytes := by decide +kernel
  exact hloses.tooLarge hfits

/-! ### A crowded store -/

/-- All large events but the last. -/
def mostLarges : List (VerifiedEvent plainCrate) := (List.range 255).map large

theorem mem_mostLarges {event : VerifiedEvent plainCrate} :
    event ∈ mostLarges ↔ ∃ i < 255, event = large i := by
  simp only [mostLarges, List.mem_map, List.mem_range, eq_comm]

/-- A store with the note and all large events but the last. -/
def fullStore : RetainedEvents plainCrate := crowdStore.insertAll (oldNote :: mostLarges) 20

theorem crowd_of_mem {event : VerifiedEvent plainCrate} (h : event ∈ oldNote :: mostLarges) :
    Crowd event := by
  rcases List.mem_cons.mp h with rfl | h
  · exact .inl rfl
  · obtain ⟨i, hi, rfl⟩ := mem_mostLarges.mp h
    exact .inr ⟨i, by omega, .inl rfl⟩

theorem retainedBytes_mostLarges :
    retainedBytes ((oldNote :: mostLarges).map entryOf) = 334 + 255 * 65536 := by
  have hconst : mostLarges.map ((fun entry => entry.2 + 1) ∘ entryOf) =
      (List.range 255).map fun _ => 65536 := by
    rw [mostLarges, List.map_map]
    refine List.map_congr_left fun i hi => ?_
    have hlt : i < 256 := (List.mem_range.mp hi).trans (by decide)
    rw [Function.comp_apply, Function.comp_apply, entryOf, encodedLength_large hlt]
  have hnote : ((fun entry => entry.2 + 1) ∘ entryOf) oldNote = 334 := by
    rw [Function.comp_apply, entryOf, encodedLength_oldNote]
  rw [retainedBytes, List.map_map, List.map_cons, List.sum_cons, hconst, hnote, List.map_const',
    List.sum_replicate, List.length_range]
  rfl

/-- The note and all large events but the last are within the limit. -/
theorem fits_of_subset {retained : List (VerifiedEvent plainCrate)} (hnodup : retained.Nodup)
    (hsub : retained ⊆ oldNote :: mostLarges) :
    Fits (retained.map fun event => (event, encodedLength event)) := by
  obtain ⟨listed, hperm, hsublist⟩ := hnodup.subperm hsub
  have hle : retainedBytes (listed.map entryOf) ≤ 334 + 255 * 65536 := by
    rw [← retainedBytes_mostLarges]
    exact retainedBytes_le_of_sublist (hsublist.map entryOf)
  have heq : retainedBytes (retained.map entryOf) = retainedBytes (listed.map entryOf) := by
    rw [retainedBytes, retainedBytes]
    exact (((hperm.map entryOf).map _).sum_eq).symm
  change retainedBytes (retained.map entryOf) + 128 ≤ _
  rw [heq]
  simp only [maxRetainedSnapshotBytes]
  omega

theorem fullStore_converged :
    Converged (retainAll 4096) 20 (∅ ∪ {event | event ∈ oldNote :: mostLarges}) fullStore := by
  refine (converged_new crowdStore_new 20).insertAll (oldNote :: mostLarges) Set.finite_empty ?_ ?_
  · refine crowd_id_injOn.mono ?_
    rw [Set.empty_union]
    exact fun event hevent => crowd_of_mem hevent
  · intro before hbefore retained hretained
    refine fits_of_subset hretained.nodup fun event hevent => ?_
    exact hbefore.subset ((hretained.subset event hevent).1.resolve_left (Set.notMem_empty event))

/-- Nothing has been evicted yet. -/
theorem mem_fullStore {event : VerifiedEvent plainCrate} (h : event ∈ oldNote :: mostLarges) :
    event ∈ fullStore.events.map (·.1) := by
  have hconverged := fullStore_converged
  have hsub : fullStore.events.map (·.1) ⊆ oldNote :: mostLarges := fun other hother =>
    (hconverged.leading.subset other hother).1.resolve_left (Set.notMem_empty other)
  have hlength := (hconverged.leading.nodup.subperm hsub).length_le
  refine hconverged.leading.all (hlength.trans_lt (by simp [mostLarges, retainAll])) event ?_
  refine ⟨.inr h, admissible_crowd (crowd_of_mem h), fun other hother _ hcoordinate hsome => ?_⟩
  have hother := hother.resolve_left (Set.notMem_empty other)
  -- the events hold coordinates of their own
  have hsame : other = event := by
    refine crowd_id_injOn (crowd_of_mem hother) (crowd_of_mem h) ?_
    by_contra hid
    rcases List.mem_cons.mp h with rfl | hlarge
    · exact hsome rfl
    · obtain ⟨i, hi, rfl⟩ := mem_mostLarges.mp hlarge
      refine not_competes_large (by omega) ?_ hid ⟨hcoordinate, hsome⟩
      rcases List.mem_cons.mp hother with rfl | hother
      · exact .inl rfl
      · obtain ⟨j, hj, rfl⟩ := mem_mostLarges.mp hother
        exact .inr ⟨j, by omega, rfl⟩
  rw [hsame, eventSupersedes_iff]
  exact lt_irrefl _

theorem rankOf_large_lt_last {i : ℕ} (hi : i < 255) : rankOf (large i) < rankOf (large 255) := by
  refine eventSupersedes_iff.mp ?_
  have hkey : ∀ i, EventId.key (large i).event.id =
      (UInt8.ofNat i).toNat :: (1 : UInt8).toNat :: (List.replicate 30 0).map UInt8.toNat :=
    fun i => rfl
  have hfirst : (UInt8.ofNat i).toNat < (UInt8.ofNat 255).toNat := by
    rw [UInt8.toNat_ofNat', UInt8.toNat_ofNat']
    omega
  rw [eventSupersedes, Bool.or_eq_true, Bool.and_eq_true, hkey, hkey]
  exact .inr ⟨decide_eq_true rfl, decide_eq_true (List.Lex.rel hfirst)⟩

theorem large_mem_fullStore {i : ℕ} (hi : i < 255) : ∃ entry ∈ fullStore.events, entry.1 = large i :=
  List.mem_map.mp (mem_fullStore (List.mem_cons_of_mem _ (mem_mostLarges.mpr ⟨i, hi, rfl⟩)))

theorem mem_arrivals_of_mem_fullStore {entry : VerifiedEvent plainCrate × ℕ}
    (h : entry ∈ fullStore.events) : entry.1 ∈ oldNote :: mostLarges :=
  (fullStore_converged.leading.subset entry.1 (List.mem_map_of_mem h)).1.resolve_left
    (Set.notMem_empty _)

theorem newId_fullStore : fullStore.NewId (large 255) := by
  intro old hold hid
  have hcrowd : Crowd (large 255) := .inr ⟨255, by decide, .inl rfl⟩
  have hsame := crowd_id_injOn (crowd_of_mem (mem_arrivals_of_mem_fullStore hold)) hcrowd hid
  have hold := mem_arrivals_of_mem_fullStore hold
  rw [hsame] at hold
  rcases List.mem_cons.mp hold with heq | hlarge
  · exact large_ne_oldNote 255 heq
  · obtain ⟨i, hi, heq⟩ := mem_mostLarges.mp hlarge
    have hlt := rankOf_large_lt_last hi
    rw [heq] at hlt
    exact lt_irrefl _ hlt

/-- The last large event does not fit behind the others, and the note comes after it. -/
theorem losesEvents_fullStore : LosesEvents fullStore (large 255) 20 := by
  have hpolicy : fullStore.policy = retainAll 4096 := fullStore_converged.policy_eq
  have hcurrent : ∀ entry ∈ fullStore.events, retainedEventIsCurrent entry.1.event 20 = true :=
    fun entry hentry =>
      (admissible_crowd (crowd_of_mem (mem_arrivals_of_mem_fullStore hentry))).2.1
  refine ⟨⟨?_, newId_fullStore, ?_⟩, ?_, ?_⟩
  · rw [hpolicy]
    exact admissible_crowd (.inr ⟨255, by decide, .inl rfl⟩)
  · intro old hold hcompetes
    refine absurd hcompetes (not_competes_large (by decide) ?_ (newId_fullStore old hold))
    rcases List.mem_cons.mp (mem_arrivals_of_mem_fullStore hold) with heq | hlarge
    · exact .inl heq
    · obtain ⟨i, hi, heq⟩ := mem_mostLarges.mp hlarge
      exact .inr ⟨i, by omega, heq⟩
  · refine not_fits_larges (fun entry hentry => ?_) fun event hevent => ?_
    · rcases List.mem_append.mp hentry with hentry | hentry
      · exact fullStore_converged.sound.size_eq (mem_currentBefore.mp hentry).1
      · rw [List.mem_singleton.mp hentry]
        rfl
    · obtain ⟨i, hi, rfl⟩ := mem_larges.mp hevent
      rw [List.map_append, List.mem_append]
      by_cases hlast : i = 255
      · subst hlast
        exact .inr (List.mem_singleton_self _)
      · have hlt : i < 255 := by omega
        obtain ⟨entry, hentry, heq⟩ := large_mem_fullStore hlt
        refine .inl (List.mem_map.mpr ⟨entry, mem_currentBefore.mpr ?_, heq⟩)
        exact ⟨hentry, hcurrent entry hentry, heq ▸ rankOf_large_lt_last hlt⟩
  · obtain ⟨entry, hentry, heq⟩ := List.mem_map.mp (mem_fullStore List.mem_cons_self)
    exact ⟨entry, hentry, hcurrent entry hentry, heq ▸ rankOf_large_lt 255⟩

theorem reachable_insertAll {store : RetainedEvents nostr} (h : Reachable store)
    (arrivals : List (VerifiedEvent nostr)) (now : ℕ) : Reachable (store.insertAll arrivals now) := by
  induction arrivals generalizing store with
  | nil => exact h
  | cons event rest ih => exact ih (h.insert event now)

/-- The last large event is refused, and the note is gone. -/
theorem refused_insert_loses_note :
    Reachable fullStore ∧ ¬((fullStore.insert (large 255) 20).1 = false →
      (fullStore.insert (large 255) 20).2.snapshot 20 = fullStore.snapshot 20) := by
  refine ⟨reachable_insertAll (.new crowdStore_new) _ 20, ?_⟩
  rw [fullStore_converged.sound.keeps_refused_iff, not_not]
  exact losesEvents_fullStore

end RetainedEvents

end NostrPubsub
