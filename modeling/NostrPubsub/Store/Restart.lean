import NostrPubsub.Store.FileStore

/-!
# Restarting a retained store

A store is rebuilt from its snapshot. The store that was live may hold entries that have
expired since; the rebuilt one never had them. No query can tell the two apart: an entry that
a later query sees was in the snapshot, and `restore` refuses no entry that is current,
whatever the order of the snapshot. The entries of a store are of distinct ids and
coordinates and within both limits, and so is every part of them.
-/

namespace NostrPubsub

/-! ## Time -/

theorem satAdd_mono {a b : ℕ} (h : a ≤ b) : satAdd a 300 ≤ satAdd b 300 :=
  satAdd_le_satAdd h 300

/-- An event that is current later, and not dated too far ahead now, is current now. -/
theorem current_of_later {event : Event} {now later : ℕ} (hle : now ≤ later)
    (hdated : event.createdAt ≤ satAdd now 300) (h : retainedEventIsCurrent event later) :
    retainedEventIsCurrent event now := by
  simp only [retainedEventIsCurrent, Bool.and_eq_true, decide_eq_true_eq] at h ⊢
  refine ⟨⟨h.1.1, hdated⟩, ?_⟩
  have hunexpired := h.2
  cases hfind : event.tags.find? fun tag => tag.head? = some "expiration" with
  | none => rfl
  | some tag =>
    rw [hfind] at hunexpired
    simp only [Option.all_some] at hunexpired ⊢
    cases hvalue : tag[1]?.bind parseDigits with
    | none =>
      rw [hvalue] at hunexpired
      cases hunexpired
    | some expires =>
      simp only [hvalue, Option.any_some, decide_eq_true_eq] at hunexpired ⊢
      omega

namespace RetainedEvents

variable {nostr : NostrCrate}

/-! ## Stores reached by inserts -/

/-- The store after a list of inserts, each with its time. -/
def insertTimed (self : RetainedEvents nostr) (inserts : List (VerifiedEvent nostr × ℕ)) :
    RetainedEvents nostr :=
  inserts.foldl (fun store insertion => (store.insert insertion.1 insertion.2).2) self

/-- A sound store none of whose entries is dated too far ahead. -/
structure DatedBy (now : ℕ) (store : RetainedEvents nostr) : Prop where
  sound : Sound store
  dated : ∀ entry ∈ store.events, entry.1.event.createdAt ≤ satAdd now 300

theorem current_dated {event : Event} {now : ℕ} (h : retainedEventIsCurrent event now) :
    event.createdAt ≤ satAdd now 300 := by
  simp only [retainedEventIsCurrent, Bool.and_eq_true, decide_eq_true_eq] at h
  exact h.1.2

theorem DatedBy.insert {now : ℕ} {store : RetainedEvents nostr} (h : DatedBy now store)
    (event : VerifiedEvent nostr) {time : ℕ} (htime : time ≤ now) :
    DatedBy now (store.insert event time).2 := by
  refine ⟨(h.sound.insert event time).1, ?_⟩
  intro entry hentry
  have hinserted := insert_inserted store event time
  generalize store.insert event time = result at hinserted hentry
  cases hinserted with
  | inadmissible _ => exact h.dated entry hentry
  | duplicate _ _ => exact h.dated entry hentry
  | superseded _ _ _ => exact h.dated entry hentry
  | stored hadmissible _ _ hkept =>
    rcases mem_admitted.mp (hkept.isPrefix.subset hentry) with rfl | hold
    · exact (current_dated hadmissible.2.1).trans (satAdd_mono htime)
    · exact h.dated entry (mem_besides.mp hold).1

theorem DatedBy.insertTimed {now : ℕ} (inserts : List (VerifiedEvent nostr × ℕ))
    (htimes : ∀ insertion ∈ inserts, insertion.2 ≤ now) {store : RetainedEvents nostr}
    (h : DatedBy now store) :
    DatedBy now (store.insertTimed inserts)
      ∧ (store.insertTimed inserts).policy = store.policy := by
  induction inserts generalizing store with
  | nil => exact ⟨h, rfl⟩
  | cons insertion rest ih =>
    obtain ⟨hlast, hpolicy⟩ := ih (fun i hi => htimes i (List.mem_cons_of_mem _ hi))
      (h.insert insertion.1 (htimes insertion List.mem_cons_self))
    exact ⟨hlast, hpolicy.trans (h.sound.insert insertion.1 insertion.2).2⟩

/-! ## Restoring -/

/-- The rebuilt store so far: the entries of the live one that `restored` names and that are
current. -/
structure Rebuilt (live : RetainedEvents nostr) (now : ℕ) (restored : List Event)
    (store : RetainedEvents nostr) : Prop where
  sound : Sound store
  policy_eq : store.policy = live.policy
  mem_iff : ∀ entry, entry ∈ store.events ↔ entry ∈ live.events
    ∧ retainedEventIsCurrent entry.1.event now ∧ entry.1.event ∈ restored

/-- The place of an entry in the store. -/
def entryRank (entry : VerifiedEvent nostr × ℕ) : ℕᵒᵈ ×ₗ List ℕ := rankOf entry.1

/-- A list in order is determined by its entries. -/
theorem InOrder.eq {a b : List (VerifiedEvent nostr × ℕ)} (ha : InOrder a) (hb : InOrder b)
    (hmem : ∀ entry, entry ∈ a ↔ entry ∈ b) : a = b :=
  IsLeading.eq_of_sorted (show a.Pairwise fun x y => entryRank x < entryRank y from ha) hb hmem

/-- A list in order all of whose entries are in another one is a sublist of it. -/
theorem InOrder.sublist_of_subset {a b : List (VerifiedEvent nostr × ℕ)} (ha : InOrder a)
    (hb : InOrder b) (hsub : ∀ entry ∈ a, entry ∈ b) : a.Sublist b := by
  classical
  have heq : a = b.filter fun entry => entry ∈ a := by
    refine ha.eq (List.Pairwise.sublist List.filter_sublist hb) ?_
    intro entry
    simp only [List.mem_filter, decide_eq_true_eq]
    exact ⟨fun h => ⟨hsub entry h, h⟩, fun h => h.2⟩
  rw [heq]
  exact List.filter_sublist

/-- Nothing is evicted from entries that a sound store holds together. -/
theorem Evicted.eq_of_subset {live : RetainedEvents nostr} (hlive : Sound live)
    {events kept : List (VerifiedEvent nostr × ℕ)} (h : Evicted live.policy.maxEvents events kept)
    (horder : InOrder events) (hsub : ∀ entry ∈ events, entry ∈ live.events) : kept = events := by
  have hsublist := horder.sublist_of_subset hlive.inOrder hsub
  have hlength := h.longest events List.prefix_rfl (hsublist.length_le.trans hlive.length_le)
    (hlive.fits.of_sublist hsublist)
  exact h.isPrefix.eq_of_length_le hlength

/-- An entry of the live store that is current is restored. -/
theorem Rebuilt.insert {live : RetainedEvents nostr} (hlive : Sound live) {now : ℕ}
    {restored : List Event} {store : RetainedEvents nostr} (h : Rebuilt live now restored store)
    {entry : VerifiedEvent nostr × ℕ} (hentry : entry ∈ live.events) :
    Rebuilt live now (restored ++ [entry.1.event]) (store.insert entry.1 now).2 := by
  obtain ⟨hsound, hpolicy⟩ := h.sound.insert entry.1 now
  refine ⟨hsound, hpolicy.trans h.policy_eq, ?_⟩
  -- Entries of the live store are told apart by their events.
  have hname : ∀ other ∈ live.events, other.1.event = entry.1.event → other = entry :=
    fun other hother heq => hlive.distinct other hother entry hentry (by rw [heq])
  have hinserted := insert_inserted store entry.1 now
  generalize store.insert entry.1 now = result at hinserted ⊢
  intro other
  rw [List.mem_append, List.mem_singleton]
  cases hinserted with
  | inadmissible hnot =>
    -- Only an entry that has expired can be refused.
    have hexpired : ¬ retainedEventIsCurrent entry.1.event now := by
      intro hcurrent
      obtain ⟨json, hjson, hlength, hsize⟩ := hlive.encoded entry hentry
      refine hnot ⟨?_, hcurrent, json, hjson, hlength ▸ hsize⟩
      rw [h.policy_eq]
      exact hlive.accepted entry hentry
    rw [h.mem_iff]
    constructor
    · rintro ⟨hother, hcurrent, hrestored⟩
      exact ⟨hother, hcurrent, .inl hrestored⟩
    · rintro ⟨hother, hcurrent, hrestored | heq⟩
      · exact ⟨hother, hcurrent, hrestored⟩
      · rw [heq] at hcurrent
        exact absurd hcurrent hexpired
  | duplicate _ hdup =>
    obtain ⟨old, hold, hid⟩ := hdup
    obtain ⟨hmem, -, hrestored⟩ := (h.mem_iff old).mp hold
    rw [hlive.distinct old hmem entry hentry hid] at hrestored
    rw [h.mem_iff]
    constructor
    · rintro ⟨hother, hcurrent, hother'⟩
      exact ⟨hother, hcurrent, .inl hother'⟩
    · rintro ⟨hother, hcurrent, hother' | heq⟩
      · exact ⟨hother, hcurrent, hother'⟩
      · exact ⟨hother, hcurrent, heq ▸ hrestored⟩
  | superseded _ hid hbeaten =>
    obtain ⟨old, hold, hcompetes, -⟩ := hbeaten
    have hsame := hlive.apart old ((h.mem_iff old).mp hold).1 entry hentry hcompetes
    exact absurd (by rw [hsame]) (hid old hold)
  | stored hadmissible hid _ hkept =>
    have hself : (entry.1, encodedLength entry.1) = entry :=
      Prod.ext rfl (hlive.size_eq hentry).symm
    have hbesides : ∀ other, other ∈ store.besides entry.1 now ↔ other ∈ store.events := by
      intro other
      rw [mem_besides]
      refine ⟨fun hother => hother.1, fun hother => ?_⟩
      obtain ⟨hmem, hcurrent, -⟩ := (h.mem_iff other).mp hother
      refine ⟨hother, hcurrent, fun hcompetes => ?_⟩
      have hsame := hlive.apart other hmem entry hentry hcompetes
      exact hid other hother (by rw [hsame])
    rw [h.policy_eq] at hkept
    rw [hkept.eq_of_subset hlive (admitted_inOrder h.sound.inOrder hid) ?_]
    · rw [mem_admitted, hbesides, h.mem_iff, hself]
      constructor
      · rintro (rfl | ⟨hother, hcurrent, hrestored⟩)
        · exact ⟨hentry, hadmissible.2.1, .inr rfl⟩
        · exact ⟨hother, hcurrent, .inl hrestored⟩
      · rintro ⟨hother, hcurrent, hrestored | heq⟩
        · exact .inr ⟨hother, hcurrent, hrestored⟩
        · exact .inl (hname other hother heq)
    · intro other hother
      rcases mem_admitted.mp hother with rfl | hold
      · rwa [hself]
      · exact ((h.mem_iff other).mp ((hbesides other).mp hold)).1

/-- A fresh store rebuilds, from entries of the live one in any order, those that are
current. -/
theorem Rebuilt.restore {live : RetainedEvents nostr} (hlive : Sound live) {now : ℕ}
    (entries : List Event) (hentries : ∀ event ∈ entries, ∃ entry ∈ live.events, entry.1.event = event)
    {restored : List Event} {store : RetainedEvents nostr} (h : Rebuilt live now restored store) :
    Rebuilt live now (restored ++ entries) (store.restore entries now) := by
  induction entries generalizing restored store with
  | nil => simpa [RetainedEvents.restore] using h
  | cons event rest ih =>
    obtain ⟨entry, hentry, rfl⟩ := hentries event List.mem_cons_self
    have hnext := ih (fun e he => hentries e (List.mem_cons_of_mem _ he)) (h.insert hlive hentry)
    rw [List.append_assoc, List.singleton_append] at hnext
    simpa only [RetainedEvents.restore, List.foldl_cons, VerifiedEvent.tryFrom_event] using hnext

/-! ## Queries -/

/-- A filter that has reached its limit selects nothing more. -/
theorem selectIds_of_limit {filter : Filter} {now matched : ℕ}
    (h : filter.limit.any fun limit => limit ≤ matched) (events : List (VerifiedEvent nostr × ℕ)) :
    selectIds filter now events matched = [] := by
  cases events with
  | nil => rfl
  | cons entry rest => rw [selectIds, if_pos h]

/-- Leaving out entries that are not current does not change what a filter selects. -/
theorem selectIds_filter {filter : Filter} {now : ℕ} {p : VerifiedEvent nostr × ℕ → Bool}
    {events : List (VerifiedEvent nostr × ℕ)}
    (hp : ∀ entry ∈ events, retainedEventIsCurrent entry.1.event now → p entry) (matched : ℕ) :
    selectIds filter now (events.filter p) matched = selectIds filter now events matched := by
  induction events generalizing matched with
  | nil => rfl
  | cons entry rest ih =>
    have ih := ih fun e he => hp e (List.mem_cons_of_mem _ he)
    by_cases hkeep : p entry
    · rw [List.filter_cons_of_pos hkeep, selectIds, selectIds, ih, ih]
    · have hexpired : ¬ retainedEventIsCurrent entry.1.event now :=
        fun hcurrent => hkeep (hp entry List.mem_cons_self hcurrent)
      rw [List.filter_cons_of_neg hkeep, ih, selectIds]
      by_cases hlimit : filter.limit.any fun limit => limit ≤ matched
      · rw [if_pos hlimit, selectIds_of_limit hlimit]
      · rw [if_neg hlimit, if_neg (by simp [hexpired])]

/-- What a filter selects is current. -/
theorem exists_of_mem_selectIds {filter : Filter} {now : ℕ} {id : EventId}
    {events : List (VerifiedEvent nostr × ℕ)} {matched : ℕ}
    (h : id ∈ selectIds filter now events matched) :
    ∃ entry ∈ events, entry.1.event.id = id ∧ retainedEventIsCurrent entry.1.event now := by
  induction events generalizing matched with
  | nil => simp [selectIds] at h
  | cons entry rest ih =>
    rw [selectIds] at h
    split_ifs at h with hlimit hmatch
    · simp at h
    · rcases List.mem_cons.mp h with rfl | hrest
      · exact ⟨entry, List.mem_cons_self, rfl, (Bool.and_eq_true_iff.mp hmatch).1⟩
      · obtain ⟨other, hother, hid, hcurrent⟩ := ih hrest
        exact ⟨other, List.mem_cons_of_mem entry hother, hid, hcurrent⟩
    · obtain ⟨other, hother, hid, hcurrent⟩ := ih h
      exact ⟨other, List.mem_cons_of_mem entry hother, hid, hcurrent⟩

/-- A store without the entries that are not current answers queries like the whole one. -/
theorem query_eq_of_filter {live store : RetainedEvents nostr} (hlive : Sound live)
    (hpolicy : store.policy = live.policy) {p : VerifiedEvent nostr × ℕ → Bool}
    (hevents : store.events = live.events.filter p) {time : ℕ}
    (hp : ∀ entry ∈ live.events, retainedEventIsCurrent entry.1.event time → p entry)
    (filters : List Filter) (limit : Option ℕ) :
    store.query filters limit time = live.query filters limit time := by
  have hselected : ∀ filter, selectIds filter time store.events 0
      = selectIds filter time live.events 0 := by
    intro filter
    rw [hevents, selectIds_filter hp]
  unfold query
  simp only [hselected, hpolicy]
  congr 2
  rw [hevents, List.filter_filter]
  refine List.filter_congr ?_
  intro entry hentry
  -- A selected id is that of a current entry, and there is one entry for it.
  have hkeep : entry.1.event.id ∈ filters.flatMap (fun filter => selectIds filter time live.events 0)
      → p entry := by
    intro hmem
    obtain ⟨filter, -, hid⟩ := List.mem_flatMap.mp hmem
    obtain ⟨other, hother, hsame, hcurrent⟩ := exists_of_mem_selectIds hid
    rw [hlive.distinct entry hentry other hother hsame.symm]
    exact hp other hother hcurrent
  rw [Bool.eq_iff_iff, Bool.and_eq_true, decide_eq_true_eq]
  exact ⟨fun h => h.1, fun h => ⟨h, hkeep h⟩⟩

/-- Restart fidelity. From every store reached by inserts at times up to `now`, and at every
later time `now'`: a fresh store that restores the snapshot, in any order, answers every query
from `now'` on as the live one does, and holds every entry of the snapshot that is current.
The snapshots that `publish` writes are within the byte limit, so that neither `publish` nor a
later `open` of the file reports the limit. -/
theorem restart_fidelity {policy : EventRetentionPolicy} {start : RetainedEvents nostr}
    (hnew : new policy = .ok start) (now : ℕ) (inserts : List (VerifiedEvent nostr × ℕ))
    (htimes : ∀ insertion ∈ inserts, insertion.2 ≤ now) :
    (∀ now' entries, now ≤ now' → entries.Perm ((start.insertTimed inserts).snapshot now) →
      (∀ filters limit time, now' ≤ time →
        (start.restore entries now').query filters limit time
          = (start.insertTimed inserts).query filters limit time)
      ∧ ∀ event ∈ (start.insertTimed inserts).snapshot now, retainedEventIsCurrent event now' →
        event ∈ (start.restore entries now').events.map (·.1.event))
    ∧ ∀ file event time io,
      ((start.insertTimed inserts).insert event time).1 = true →
      ∃ bytes, snapshotJson nostr (((start.insertTimed inserts).insert event time).2.snapshot time)
          = .ok bytes
        ∧ bytes.length ≤ maxRetainedSnapshotBytes
        ∧ FileEventBus.publish { events := some (start.insertTimed inserts), file } event time io
          = FileEventBus.commit { events := some (start.insertTimed inserts), file }
            ((start.insertTimed inserts).insert event time).2 bytes io
        ∧ ∀ parse later, FileEventBus.openFile parse policy (some bytes) later
          = (FileEventBus.restoreSnapshot parse start bytes later).map fun events =>
            { events := some events, file := some bytes } := by
  obtain ⟨hstart, hpolicy, hempty⟩ := sound_new hnew
  have hdated : DatedBy now start := ⟨hstart, by simp [hempty]⟩
  obtain ⟨hlive, hsame⟩ := hdated.insertTimed inserts htimes
  generalize start.insertTimed inserts = live at hlive hsame ⊢
  refine ⟨?_, ?_⟩
  · intro now' entries hnow hentries
    have hfresh : Rebuilt live now' [] start := by
      refine ⟨hstart, hsame.symm, ?_⟩
      simp [hempty]
    -- The snapshot is what was current at `now`; the restore stores what still is at `now'`.
    have hmem : ∀ event, event ∈ entries ↔ ∃ entry ∈ live.events,
        retainedEventIsCurrent entry.1.event now ∧ entry.1.event = event := by
      intro event
      rw [hentries.mem_iff, snapshot, List.mem_map]
      simp only [List.mem_filter, and_assoc]
    have hrebuilt := hfresh.restore hlive.sound entries (by
      intro event hevent
      obtain ⟨entry, hentry, -, heq⟩ := (hmem event).mp hevent
      exact ⟨entry, hentry, heq⟩)
    rw [List.nil_append] at hrebuilt
    -- Both stores keep their entries in order of rank, so the same entries are the same list.
    have hevents : (start.restore entries now').events
        = live.events.filter fun entry => retainedEventIsCurrent entry.1.event now' := by
      refine hrebuilt.sound.inOrder.eq
        (List.Pairwise.sublist List.filter_sublist hlive.sound.inOrder) ?_
      intro entry
      rw [hrebuilt.mem_iff, List.mem_filter]
      constructor
      · rintro ⟨hentry, hcurrent, -⟩
        exact ⟨hentry, hcurrent⟩
      · rintro ⟨hentry, hcurrent⟩
        refine ⟨hentry, hcurrent, (hmem _).mpr ⟨entry, hentry, ?_, rfl⟩⟩
        exact current_of_later hnow (hlive.dated entry hentry) hcurrent
    refine ⟨?_, ?_⟩
    · intro filters limit time htime
      refine query_eq_of_filter hlive.sound hrebuilt.policy_eq hevents ?_ filters limit
      intro entry hentry hcurrent
      exact current_of_later htime
        ((hlive.dated entry hentry).trans (satAdd_mono hnow)) hcurrent
    · intro event hevent hcurrent
      obtain ⟨entry, hentry, -, rfl⟩ := (hmem event).mp (hentries.mem_iff.mpr hevent)
      rw [hevents]
      exact List.mem_map.mpr ⟨entry, List.mem_filter.mpr ⟨hentry, hcurrent⟩, rfl⟩
  · -- the snapshot of a store within its byte limit is within the limit of the file
    intro file event time io haccepted
    obtain ⟨bytes, hbytes, hsize⟩ := (hlive.sound.insert event time).1.snapshotJson time
    refine ⟨bytes, hbytes, hsize, ?_, ?_⟩
    · simp only [FileEventBus.publish, haccepted, if_true, hbytes, if_neg (Nat.not_lt.mpr hsize)]
    · intro parse later
      simp only [FileEventBus.openFile, hnew, if_neg (Nat.not_lt.mpr hsize)]
      cases FileEventBus.restoreSnapshot parse start bytes later with
      | error _ => rfl
      | ok _ => rfl

/-- A store with the two notes, restored from the reversed snapshot. -/
theorem restart_fidelity_notes :
    ((noteStore 10).restore [noteA, noteB] 8).query (retainAll 10).filters (some 1) 9
      = ((noteStore 10).insertTimed [(verifiedA, 5), (verifiedB, 6)]).query
        (retainAll 10).filters (some 1) 9 := by
  have hnew : new (retainAll 10) = .ok (noteStore 10) := rfl
  have htimes : ∀ insertion ∈ [(verifiedA, 5), (verifiedB, 6)], insertion.2 ≤ 7 := by decide +kernel
  have hperm : [noteA, noteB].Perm
      (((noteStore 10).insertTimed [(verifiedA, 5), (verifiedB, 6)]).snapshot 7) := by
    decide +kernel
  exact ((restart_fidelity hnew 7 [(verifiedA, 5), (verifiedB, 6)] htimes).1 8 [noteA, noteB]
    (by omega) hperm).1 (retainAll 10).filters (some 1) 9 (by omega)

end RetainedEvents

end NostrPubsub
