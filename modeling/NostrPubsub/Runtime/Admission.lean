import NostrPubsub.Runtime.EventStore

/-!
# Which events the runtime keeps

What an admission does to the stored events is said once (`admit_cases`): it changes nothing because
a stored deletion names the event or a newer version is stored, or it stores the event and drops the
older versions and what the event deletes.

Along every run all deletions stay stored, nothing stored is deleted, one event is stored for each
address, and what was lost is deleted or has a newer version (`Kept`). A version that was replaced
is gone for good. Where the newest version of an address is deleted and an older one is not, the order
of arrival therefore decides whether the older one is stored; elsewhere the stored events do not
depend on it (`admission_converges`).
-/

namespace NostrPubsub.Runtime

/-! ## Addresses -/

theorem address_eq_some {event : Event} {key : String} :
    address event = some key ↔ (Replaceable event.kind ∨ Addressable event.kind) ∧
      key = s!"{event.kind}:{pubkeyText event}:{identifierText event}" := by
  have hsome : (replacementFilter event).isSome ↔
      Replaceable event.kind ∨ Addressable event.kind := by
    unfold replacementFilter
    by_cases hreplaceable : Replaceable event.kind
    · rw [if_pos hreplaceable]
      simp [hreplaceable]
    · by_cases haddressable : Addressable event.kind
      · rw [if_neg hreplaceable, if_pos haddressable]
        simp [haddressable]
      · simp [hreplaceable, haddressable]
  unfold address
  split
  · next h =>
    rw [Option.some.injEq, eq_comm]
    exact ⟨fun heq => ⟨hsome.mp h, heq⟩, And.right⟩
  · next h =>
    rw [← hsome]
    exact ⟨fun heq => (nomatch heq), fun heq => absurd heq.1 h⟩

theorem colon_notMem_kind (kind : ℕ) : ':' ∉ (toString kind).toList := by
  intro hmem
  rw [Nat.toString_eq_repr, Nat.toList_repr] at hmem
  have hdigit := Nat.isDigit_of_mem_toDigits (by decide) (by decide) hmem
  exact absurd hdigit (by decide)

theorem colon_notMem_pubkeyText (event : Event) : ':' ∉ (pubkeyText event).toList := by
  intro hmem
  rw [pubkeyText, EventId.toHex, String.toList_ofList] at hmem
  obtain ⟨byte, -, hbyte⟩ := List.mem_flatMap.mp hmem
  have hlt := byte.toNat_lt
  have hdigits : ∀ n < 16, ':' ≠ hexDigit n := by decide
  rcases List.mem_cons.mp hbyte with h | h
  · exact hdigits _ (by omega) h
  · exact hdigits _ (by omega) (List.mem_singleton.mp h)

/-- The parts of an address. -/
theorem splitOn_address (event : Event) :
    (s!"{event.kind}:{pubkeyText event}:{identifierText event}").toList.splitOn ':' =
      (toString event.kind).toList :: (pubkeyText event).toList ::
        (identifierText event).toList.splitOn ':' := by
  have hchars : (s!"{event.kind}:{pubkeyText event}:{identifierText event}").toList =
      (toString event.kind).toList ++ ':' :: ((pubkeyText event).toList ++
        ':' :: (identifierText event).toList) := by
    simp only [String.toList_append, List.append_assoc]
    rfl
  rw [hchars, List.splitOn_append_cons_self, List.splitOn_append_cons_self,
    List.splitOn_eq_singleton (colon_notMem_kind _),
    List.splitOn_eq_singleton (colon_notMem_pubkeyText _)]
  rfl

theorem address_ne_empty {event : Event} {key : String} (h : address event = some key) : key ≠ "" := by
  rintro rfl
  obtain ⟨-, heq⟩ := address_eq_some.mp h
  have hsplit := congrArg (fun text : String => (text.toList.splitOn ':').length) heq
  simp only [splitOn_address, List.length_cons] at hsplit
  simp at hsplit

theorem toHex_ne_empty (id : EventId) : EventId.toHex id ≠ "" := by
  intro h
  have hchars := congrArg String.toList h
  rw [EventId.toHex, String.toList_ofList] at hchars
  have hlength := id.toList_length
  cases hbytes : id.toList with
  | nil =>
    rw [hbytes] at hlength
    cases hlength
  | cons byte rest =>
    rw [hbytes, List.flatMap_cons] at hchars
    cases hchars

/-- An address says the kind, the author and the identifier. -/
theorem address_inj {a b : Event} {key : String} (ha : address a = some key)
    (hb : address b = some key) :
    a.kind = b.kind ∧ a.pubkey = b.pubkey ∧ identifierText a = identifierText b := by
  obtain ⟨-, rfl⟩ := address_eq_some.mp ha
  obtain ⟨-, heq⟩ := address_eq_some.mp hb
  have hsplit := congrArg (fun text : String => text.toList.splitOn ':') heq
  simp only [splitOn_address, List.cons.injEq] at hsplit
  obtain ⟨hkind, hpubkey, hidentifier⟩ := hsplit
  refine ⟨?_, ?_, ?_⟩
  · rw [Nat.toString_eq_repr, Nat.toString_eq_repr, Nat.toList_repr, Nat.toList_repr] at hkind
    have hvalue := congrArg (Nat.ofDigitChars 10 · 0) hkind
    simpa only [Nat.ofDigitChars_ten_toDigits] using hvalue
  · exact EventId.toHex_injective (String.toList_injective hpubkey)
  · have hjoin := congrArg (List.intercalate [':']) hidentifier
    rw [List.intercalate_splitOn, List.intercalate_splitOn] at hjoin
    exact String.toList_injective hjoin

/-! ## Queries -/

variable {matchFilter : NostrFilter → Event → Bool}

theorem mem_sortEvents {events : List Event} {event : Event} :
    event ∈ sortEvents events ↔ event ∈ events :=
  (List.perm_insertionSort _ events).mem_iff

theorem mem_query {filters : List NostrFilter} {nowMs : ℕ} {store : MemoryEventStore} {event : Event} :
    event ∈ store.query matchFilter filters nowMs ↔
      event ∈ store.events ∧ expired event nowMs = false ∧
        ∃ filter ∈ filters, matchFilter filter event = true := by
  simp only [MemoryEventStore.query, List.mem_filter, mem_sortEvents, List.any_eq_true,
    Bool.not_eq_true', and_assoc]

theorem hasTag_of_mem {event : Event} {tag : List String} {name value : String}
    {values : List String} (htag : tag ∈ event.tags) (hname : tag[0]? = some name)
    (hvalue : tag[1]? = some value) (hmem : value ∈ values) : hasTag event name values = true := by
  refine List.any_eq_true.mpr ⟨tag, htag, ?_⟩
  simp [hname, hvalue, hmem]

theorem pubkeyText_eq {a b : Event} (h : a.pubkey = b.pubkey) : pubkeyText a = pubkeyText b := by
  rw [pubkeyText, pubkeyText, h]

/-- The identifier is the value of a `d` tag, unless it is empty. -/
theorem hasTag_identifierText {event : Event} (h : identifierText event ≠ "") :
    hasTag event "d" [identifierText event] = true := by
  unfold identifierText at h ⊢
  cases hfind : event.tags.find? fun tag => tag.head? = some "d" with
  | none => simp [hfind] at h
  | some tag =>
    have hhead : tag.head? = some "d" := by simpa using List.find?_some hfind
    simp only [hfind, Option.bind_some] at h ⊢
    cases hvalue : tag[1]? with
    | none => simp [hvalue] at h
    | some value =>
      refine hasTag_of_mem (List.mem_of_find?_eq_some hfind) ?_ hvalue ?_
      · rwa [← List.head?_eq_getElem?]
      · simp

namespace MemoryEventStore

/-- The stored versions of an event's address are found. -/
theorem mem_previousVersions (hmatch : MatchesNip01 matchFilter) {event old : Event} {nowMs : ℕ}
    {store : MemoryEventStore} (hold : expired old nowMs = false) :
    old ∈ previousVersions matchFilter event nowMs store ↔
      old ∈ store.events ∧ (address event).isSome ∧ address old = address event := by
  unfold previousVersions
  cases hfilter : replacementFilter event with
  | none =>
    have hnone : address event = none := by simp [address, hfilter]
    simp [hnone]
  | some filter =>
    have hsome : (address event).isSome := by simp [address, hfilter]
    simp only [List.mem_filter, mem_query, List.mem_singleton, exists_eq_left, hold, true_and,
      decide_eq_true_eq, hsome]
    constructor
    · rintro ⟨⟨hmem, -⟩, haddress⟩
      exact ⟨hmem, haddress⟩
    · rintro ⟨hmem, haddress⟩
      refine ⟨⟨hmem, ?_⟩, haddress⟩
      -- the same address means the same kind, author and identifier
      obtain ⟨key, hkey⟩ := Option.isSome_iff_exists.mp hsome
      obtain ⟨hkind, hpubkey, hidentifier⟩ := address_inj (haddress.trans hkey) hkey
      rw [hmatch, NostrFilter.meets]
      unfold replacementFilter at hfilter
      split at hfilter
      · cases hfilter
        simp [pubkeyText_eq hpubkey, hkind]
      · split at hfilter
        · cases hfilter
          by_cases hempty : identifierText event = ""
          · simp [pubkeyText_eq hpubkey, hkind, hempty]
          · have htag : hasTag old "d" [identifierText event] = true := by
              rw [← hidentifier]
              exact hasTag_identifierText (by rwa [hidentifier])
            simp [pubkeyText_eq hpubkey, hkind, hempty, htag]
        · cases hfilter

end MemoryEventStore

/-! ## Deletions -/

theorem deletedBy_iff {event deletion : Event} :
    deletedBy event deletion = true ↔ deletion.kind = 5 ∧ deletion.pubkey = event.pubkey ∧
      event.createdAt ≤ deletion.createdAt ∧ event.kind ≠ 5 ∧ ∃ tag ∈ deletion.tags,
        tag[0]? = some "e" ∧ tag[1]? = some event.id.toHex ∨
        tag[0]? = some "a" ∧ (address event).isSome ∧ tag[1]? = address event := by
  unfold deletedBy
  split
  · next hguard =>
    constructor
    · intro h
      cases h
    · rintro ⟨hkind, hpubkey, htime, hother, -⟩
      rcases hguard with h | h | h | h
      · exact absurd hkind h
      · exact absurd hpubkey h
      · omega
      · exact absurd h hother
  · next hguard =>
    push Not at hguard
    obtain ⟨hkind, hpubkey, htime, hother⟩ := hguard
    simp only [List.any_eq_true, Bool.or_eq_true, Bool.and_eq_true, decide_eq_true_eq, and_assoc]
    constructor
    · rintro h
      exact ⟨hkind, hpubkey, htime, hother, h⟩
    · rintro ⟨-, -, -, -, h⟩
      exact h

namespace MemoryEventStore

/-- The stored deletions that name an event are found. -/
theorem mem_ownDeletions (hmatch : MatchesNip01 matchFilter) {event deletion : Event} {nowMs : ℕ}
    {store : MemoryEventStore} (hmem : deletion ∈ store.events)
    (hunexpired : expired deletion nowMs = false) (h : deletedBy event deletion = true) :
    deletion ∈ store.query matchFilter (deletionFilters event) nowMs := by
  obtain ⟨hkind, hpubkey, -, -, tag, htag, hnamed⟩ := deletedBy_iff.mp h
  refine mem_query.mpr ⟨hmem, hunexpired, ?_⟩
  rcases hnamed with ⟨hname, hvalue⟩ | ⟨hname, hsome, hvalue⟩
  · refine ⟨_, List.mem_cons_self, ?_⟩
    have hhas := hasTag_of_mem htag hname hvalue (List.mem_singleton.mpr rfl)
    rw [hmatch, NostrFilter.meets]
    simp [pubkeyText_eq hpubkey, hkind, hhas]
  · obtain ⟨key, hkey⟩ := Option.isSome_iff_exists.mp hsome
    refine ⟨{ authors := some [pubkeyText event], kinds := some [5], tags := [("a", [key])] }, ?_, ?_⟩
    · simp [deletionFilters, hkey]
    · have hhas := hasTag_of_mem htag hname (hvalue.trans hkey) (List.mem_singleton.mpr rfl)
      rw [hmatch, NostrFilter.meets]
      simp [pubkeyText_eq hpubkey, hkind, hhas]

/-- The filter of an `a` tag with the address of an event of the same author matches the event. -/
theorem coordinateFilter_address {event deletion : Event} {key : String}
    (hkey : address event = some key) (hpubkey : deletion.pubkey = event.pubkey) :
    ∃ filter, coordinateFilter deletion key = some filter ∧ filter.meets event = true := by
  obtain ⟨-, rfl⟩ := address_eq_some.mp hkey
  have hnumber : readNumber (String.ofList (toString event.kind).toList) = some event.kind := by
    rw [String.ofList_toList, readNumber, if_pos]
    · rw [Nat.toString_eq_repr, Nat.toList_repr, Nat.ofDigitChars_ten_toDigits]
    · refine ⟨Nat.toString_eq_repr ▸ Nat.repr_ne_empty, List.all_eq_true.mpr fun c hc => ?_⟩
      rw [Nat.toString_eq_repr, Nat.toList_repr] at hc
      exact Nat.isDigit_of_mem_toDigits (by decide) (by decide) hc
  have hauthor : String.ofList (pubkeyText event).toList = pubkeyText deletion := by
    rw [String.ofList_toList, pubkeyText_eq hpubkey]
  have hidentifier : String.ofList ([':'].intercalate ((identifierText event).toList.splitOn ':'))
      = identifierText event := by
    rw [List.intercalate_splitOn, String.ofList_toList]
  unfold coordinateFilter
  rw [splitOn_address]
  simp only [hnumber, hauthor, if_true, hidentifier]
  refine ⟨_, rfl, ?_⟩
  by_cases htagged : 30000 ≤ event.kind ∧ identifierText event ≠ ""
  · simp [NostrFilter.meets, pubkeyText_eq hpubkey, htagged, hasTag_identifierText htagged.2]
  · simp [NostrFilter.meets, pubkeyText_eq hpubkey, htagged]

theorem mem_tagValues {event : Event} {tag : List String} {name value : String}
    (htag : tag ∈ event.tags) (hname : tag[0]? = some name) (hvalue : tag[1]? = some value)
    (hne : value ≠ "") : value ∈ tagValues name event := by
  refine List.mem_filterMap.mpr ⟨tag, htag, ?_⟩
  rw [if_pos hname, hvalue]
  exact Option.filter_some_pos (by simpa using hne)

/-- The stored events that a deletion names are found. -/
theorem mem_named (hmatch : MatchesNip01 matchFilter) {event deletion : Event} {nowMs : ℕ}
    {store : MemoryEventStore} (hmem : event ∈ store.events) (hunexpired : expired event nowMs = false)
    (h : deletedBy event deletion = true) :
    namedFilters deletion ≠ [] ∧ event ∈ store.query matchFilter (namedFilters deletion) nowMs := by
  obtain ⟨-, hpubkey, -, -, tag, htag, hnamed⟩ := deletedBy_iff.mp h
  suffices hfilter : ∃ filter ∈ namedFilters deletion, filter.meets event = true by
    obtain ⟨filter, hfilter, hmeets⟩ := hfilter
    refine ⟨List.ne_nil_of_mem hfilter, mem_query.mpr ⟨hmem, hunexpired, filter, hfilter, ?_⟩⟩
    rw [hmatch]
    exact hmeets
  rcases hnamed with ⟨hname, hvalue⟩ | ⟨hname, hsome, hvalue⟩
  · have hid := mem_tagValues htag hname hvalue (toHex_ne_empty event.id)
    refine ⟨{ ids := some (tagValues "e" deletion), authors := some [pubkeyText deletion] },
      List.mem_append_left _ ?_, ?_⟩
    · rw [if_neg (List.ne_nil_of_mem hid)]
      exact List.mem_singleton.mpr rfl
    · simp [NostrFilter.meets, pubkeyText_eq hpubkey, hid]
  · obtain ⟨key, hkey⟩ := Option.isSome_iff_exists.mp hsome
    obtain ⟨filter, hfilter, hmeets⟩ := coordinateFilter_address hkey hpubkey
    have hvalue' := mem_tagValues htag hname (hvalue.trans hkey) (address_ne_empty hkey)
    exact ⟨filter, List.mem_append_right _ (List.mem_filterMap.mpr ⟨key, hvalue', hfilter⟩), hmeets⟩

end MemoryEventStore

/-! ## What an admission does -/

namespace MemoryEventStore

variable {store : MemoryEventStore} {event : Event} {nowMs : ℕ}

theorem mem_delete {ids : List EventId} {x : Event} :
    x ∈ (store.delete ids).events ↔ x ∈ store.events ∧ x.id ∉ ids := by
  simp [delete]

/-- Where there is room, an event is stored and nothing is dropped. -/
theorem put_eq (hroom : event ∈ store.events ∨ store.events.length < store.maxEvents) :
    store.put event = (.ok (), { store with events := store.events.setBy Event.id event }) := by
  unfold put
  rw [if_neg]
  rintro ⟨hfresh, hfull⟩
  rcases hroom with hmem | hroom
  · have hstored : store.events.any (·.id = event.id) = true :=
      List.any_eq_true.mpr ⟨event, hmem, by simp⟩
    rw [hstored] at hfresh
    cases hfresh
  · omega

/-- What an admission needs: its events are unexpired, ids tell events apart, and there is room. -/
structure Ready (event : Event) (nowMs : ℕ) (store : MemoryEventStore) : Prop where
  unexpired : expired event nowMs = false
  stored_unexpired : ∀ old ∈ store.events, expired old nowMs = false
  storable : ¬Ephemeral event.kind
  id_inj : ∀ a, a = event ∨ a ∈ store.events → ∀ b, b = event ∨ b ∈ store.events → a.id = b.id → a = b
  room : event ∈ store.events ∨ store.events.length < store.maxEvents

theorem Ready.id_notMem_map (h : Ready event nowMs store) {l : List Event} {x : Event}
    (hl : ∀ y ∈ l, y ∈ store.events) (hx : x ∈ store.events) : x.id ∉ l.map Event.id ↔ x ∉ l := by
  constructor
  · intro hid hmem
    exact hid (List.mem_map_of_mem hmem)
  · intro hmem hid
    obtain ⟨y, hy, hyx⟩ := List.mem_map.mp hid
    exact hmem (h.id_inj y (.inr (hl y hy)) x (.inr hx) hyx ▸ hy)

/-- The versions that an event replaces are dropped. -/
theorem Ready.mem_replaced (h : Ready event nowMs store) (hmatch : MatchesNip01 matchFilter)
    {x : Event} :
    x ∈ (store.delete (((previousVersions matchFilter event nowMs store).filter
        fun old => old.id ≠ event.id).map Event.id)).events ↔
      x ∈ store.events ∧ ((address event).isSome → address x = address event → x = event) := by
  rw [mem_delete]
  refine and_congr_right fun hx => ?_
  rw [h.id_notMem_map ?_ hx, List.mem_filter,
    mem_previousVersions hmatch (h.stored_unexpired x hx)]
  · constructor
    · intro hkept hsome haddress
      by_contra hne
      refine hkept ⟨⟨hx, hsome, haddress⟩, ?_⟩
      simpa using fun hid => hne (h.id_inj x (.inr hx) event (.inl rfl) hid)
    · rintro hkept ⟨⟨-, hsome, haddress⟩, hid⟩
      have heq := hkept hsome haddress
      rw [heq] at hid
      simp at hid
  · intro y hy
    have hprevious := (List.mem_filter.mp hy).1
    unfold previousVersions at hprevious
    split at hprevious
    · exact (mem_query.mp (List.mem_filter.mp hprevious).1).1
    · cases hprevious

/-- What a deletion names is dropped. -/
theorem mem_applyDeletion (hmatch : MatchesNip01 matchFilter)
    (hunexpired : ∀ old ∈ store.events, expired old nowMs = false)
    (hids : ∀ a ∈ store.events, ∀ b ∈ store.events, a.id = b.id → a = b) {x : Event} :
    x ∈ (applyDeletion matchFilter event nowMs store).events ↔
      x ∈ store.events ∧ deletedBy x event = false := by
  unfold applyDeletion
  split
  · next hkind =>
    simp only
    rw [mem_delete]
    refine and_congr_right fun hx => ?_
    rw [← Bool.not_eq_true]
    refine not_congr ?_
    rw [List.mem_map]
    constructor
    · rintro ⟨y, hy, hid⟩
      obtain ⟨hquery, hdeleted⟩ := List.mem_filter.mp hy
      have hmem : y ∈ store.events := by
        split at hquery
        · cases hquery
        · exact (mem_query.mp hquery).1
      rw [← hids y hmem x hx hid]
      exact hdeleted
    · intro hdeleted
      obtain ⟨hne, hquery⟩ := mem_named hmatch hx (hunexpired x hx) hdeleted
      refine ⟨x, List.mem_filter.mpr ⟨?_, hdeleted⟩, rfl⟩
      rw [if_neg hne]
      exact hquery
  · next hkind =>
    constructor
    · intro hx
      refine ⟨hx, ?_⟩
      rw [← Bool.not_eq_true]
      intro hdeleted
      exact hkind (deletedBy_iff.mp hdeleted).1
    · exact And.left

/-- A deletion only drops events. -/
theorem applyDeletion_eq (matchFilter : NostrFilter → Event → Bool) (event : Event) (nowMs : ℕ)
    (store : MemoryEventStore) :
    ∃ events, applyDeletion matchFilter event nowMs store = { store with events } ∧
      events.Sublist store.events := by
  unfold applyDeletion
  split
  · exact ⟨_, rfl, List.filter_sublist⟩
  · exact ⟨_, rfl, List.Sublist.refl _⟩

theorem deletedBy_self (event : Event) : deletedBy event event = false := by
  rw [← Bool.not_eq_true]
  intro hself
  obtain ⟨hkind, -, -, hother, -⟩ := deletedBy_iff.mp hself
  exact hother hkind

/-- An admission finds a stored deletion or a newer version and changes nothing, or it stores the
event, without the versions it replaces and what it deletes. -/
theorem admit_cases (hmatch : MatchesNip01 matchFilter) (h : Ready event nowMs store) :
    (∃ deletion ∈ store.events, deletedBy event deletion = true ∧
      admitRuntimeEvent matchFilter event nowMs store = (.ok .rejected, store)) ∨
    (∃ newer ∈ store.events, (address event).isSome ∧ address newer = address event ∧
      newer.rank < event.rank ∧
      admitRuntimeEvent matchFilter event nowMs store = (.ok .superseded, store)) ∨
    ((∀ deletion ∈ store.events, deletedBy event deletion = false) ∧
      (∀ old ∈ store.events, (address event).isSome → address old = address event →
        ¬old.rank < event.rank) ∧
      ∃ events, admitRuntimeEvent matchFilter event nowMs store
          = (.ok .admitted, { store with events }) ∧
        ((store.events.map Event.id).Nodup → (events.map Event.id).Nodup) ∧
        ∀ x, x ∈ events ↔ x = event ∨ x ∈ store.events ∧ deletedBy x event = false ∧
          ((address event).isSome → address x = address event → x = event)) := by
  have hunexpired := h.unexpired
  unfold admitRuntimeEvent
  rw [if_neg (by rw [hunexpired]; decide), if_neg h.storable]
  simp only
  split
  · next hdeleted =>
    obtain ⟨deletion, hfound, hdeletedBy⟩ := List.any_eq_true.mp hdeleted
    exact .inl ⟨deletion, (mem_query.mp hfound).1, hdeletedBy, rfl⟩
  · next hundeleted =>
    split
    · next hnewer =>
      obtain ⟨newer, hfound, hrank⟩ := List.any_eq_true.mp hnewer
      have hmem : newer ∈ store.events := by
        unfold previousVersions at hfound
        split at hfound
        · exact (mem_query.mp (List.mem_filter.mp hfound).1).1
        · cases hfound
      obtain ⟨-, hsome, haddress⟩ :=
        (mem_previousVersions hmatch (h.stored_unexpired newer hmem)).mp hfound
      exact .inr (.inl ⟨newer, hmem, hsome, haddress, of_decide_eq_true hrank, rfl⟩)
    · next hnewest =>
      refine .inr (.inr ⟨?_, ?_, ?_⟩)
      · intro deletion hmem
        rw [← Bool.not_eq_true]
        intro hdeletedBy
        refine hundeleted (List.any_eq_true.mpr ⟨deletion, ?_, hdeletedBy⟩)
        exact mem_ownDeletions hmatch hmem (h.stored_unexpired deletion hmem) hdeletedBy
      · intro old hmem hsome haddress hrank
        refine hnewest (List.any_eq_true.mpr ⟨old, ?_, by simpa using hrank⟩)
        exact (mem_previousVersions hmatch (h.stored_unexpired old hmem)).mpr ⟨hmem, hsome, haddress⟩
      · set ids := ((previousVersions matchFilter event nowMs store).filter
          fun old => old.id ≠ event.id).map Event.id with hids
        have hreplaced : ∀ x, x ∈ (store.delete ids).events ↔ _ := fun x => h.mem_replaced hmatch
        have hdropped : ∀ x, x ∈ (applyDeletion matchFilter event nowMs (store.delete ids)).events ↔
            x ∈ (store.delete ids).events ∧ deletedBy x event = false := fun x =>
          mem_applyDeletion hmatch
            (fun old hold => h.stored_unexpired old ((hreplaced old).mp hold).1)
            (fun a ha b hb => h.id_inj a (.inr ((hreplaced a).mp ha).1) b
              (.inr ((hreplaced b).mp hb).1))
        obtain ⟨events, heq, hsublist⟩ :=
          applyDeletion_eq matchFilter event nowMs (store.delete ids)
        rw [heq] at hdropped ⊢
        have hstored : events.Sublist store.events := hsublist.trans List.filter_sublist
        -- the two removals leave room, and the event itself if it was stored
        have hroom : event ∈ events ∨ events.length < store.maxEvents := by
          rcases h.room with hmem | hroom
          · refine .inl ((hdropped event).mpr ⟨(hreplaced event).mpr ⟨hmem, fun _ _ => rfl⟩, ?_⟩)
            exact deletedBy_self event
          · exact .inr (lt_of_le_of_lt hstored.length_le hroom)
        rw [put_eq hroom]
        refine ⟨events.setBy Event.id event, rfl, ?_, ?_⟩
        · intro hnodup
          exact List.nodup_setBy (hnodup.sublist (hstored.map Event.id))
        · intro x
          rw [List.mem_setBy]
          constructor
          · rintro (rfl | ⟨hx, -⟩)
            · exact .inl rfl
            · obtain ⟨hx, hundeletedBy⟩ := (hdropped x).mp hx
              obtain ⟨hx, honly⟩ := (hreplaced x).mp hx
              exact .inr ⟨hx, hundeletedBy, honly⟩
          · rintro (rfl | ⟨hx, hundeletedBy, honly⟩)
            · exact .inl rfl
            · by_cases hid : x.id = event.id
              · exact .inl (h.id_inj x (.inr hx) event (.inl rfl) hid)
              · exact .inr ⟨(hdropped x).mpr ⟨(hreplaced x).mpr ⟨hx, honly⟩, hundeletedBy⟩, hid⟩

/-! ## Runs -/

/-- What holds of the stored events after the events of a set have arrived. -/
structure Kept (seen : Set Event) (store : MemoryEventStore) : Prop where
  stored_seen : ∀ event ∈ store.events, event ∈ seen
  nodup : (store.events.map Event.id).Nodup
  deletions : ∀ deletion ∈ seen, deletion.kind = 5 → deletion ∈ store.events
  undeleted : ∀ event ∈ store.events, ∀ deletion ∈ store.events, deletedBy event deletion = false
  unique : ∀ a ∈ store.events, ∀ b ∈ store.events, (address a).isSome → address b = address a → a = b
  lost : ∀ event ∈ seen, event ∉ store.events →
    (∃ deletion ∈ seen, deletedBy event deletion = true) ∨
    ∃ newer ∈ seen, (address event).isSome ∧ address newer = address event ∧ newer.rank < event.rank

theorem address_eq_none_of_deletion (h : event.kind = 5) : address event = none := by
  cases haddress : address event with
  | none => rfl
  | some key =>
    obtain ⟨hkind, -⟩ := address_eq_some.mp haddress
    rw [h] at hkind
    exact absurd hkind (by decide)

theorem deletedBy_of_deletion {deletion : Event} (h : event.kind = 5) :
    deletedBy event deletion = false := by
  rw [← Bool.not_eq_true]
  intro hdeleted
  exact (deletedBy_iff.mp hdeleted).2.2.2.1 h

/-- A lost event stays accounted for when more has arrived. -/
theorem Kept.lost_insert {seen : Set Event} (h : Kept seen store) {x : Event} (hx : x ∈ seen)
    (hlost : x ∉ store.events) :
    (∃ deletion ∈ insert event seen, deletedBy x deletion = true) ∨
    ∃ newer ∈ insert event seen, (address x).isSome ∧ address newer = address x ∧
      newer.rank < x.rank := by
  rcases h.lost x hx hlost with ⟨deletion, hmem, hdeleted⟩ | ⟨newer, hmem, hnewer⟩
  · exact .inl ⟨deletion, Set.mem_insert_of_mem _ hmem, hdeleted⟩
  · exact .inr ⟨newer, Set.mem_insert_of_mem _ hmem, hnewer⟩

/-- An event that is turned away leaves what holds of the stored events. -/
theorem Kept.turnedAway {seen : Set Event} (h : Kept seen store)
    (hkind : event.kind = 5 → event ∈ store.events)
    (hlost : event ∉ store.events → (∃ deletion ∈ seen, deletedBy event deletion = true) ∨
      ∃ newer ∈ seen, (address event).isSome ∧ address newer = address event ∧
        newer.rank < event.rank) :
    Kept (insert event seen) store where
  stored_seen := fun x hx => Set.mem_insert_of_mem _ (h.stored_seen x hx)
  nodup := h.nodup
  deletions := by
    rintro deletion (rfl | hmem) hdeletion
    · exact hkind hdeletion
    · exact h.deletions deletion hmem hdeletion
  undeleted := h.undeleted
  unique := h.unique
  lost := by
    rintro x (rfl | hx) hnot
    · rcases hlost hnot with ⟨deletion, hmem, hdeleted⟩ | ⟨newer, hmem, hnewer⟩
      · exact .inl ⟨deletion, Set.mem_insert_of_mem _ hmem, hdeleted⟩
      · exact .inr ⟨newer, Set.mem_insert_of_mem _ hmem, hnewer⟩
    · exact h.lost_insert hx hnot

/-- An admission carries on what holds of the stored events. -/
theorem Kept.admit {seen : Set Event} (h : Kept seen store) (hmatch : MatchesNip01 matchFilter)
    (hready : Ready event nowMs store) :
    Kept (insert event seen) (admitRuntimeEvent matchFilter event nowMs store).2 := by
  -- A stored deletion turns the event away, or a newer version at its address does, or it is
  -- stored.
  rcases admit_cases hmatch hready with ⟨deletion, hmem, hdeleted, heq⟩ |
    ⟨newer, hmem, hsome, haddress, hrank, heq⟩ | ⟨hundeleted, hnewest, events, heq, hnodup, hevents⟩
  · rw [heq]
    refine h.turnedAway ?_ fun _ => .inl ⟨deletion, h.stored_seen deletion hmem, hdeleted⟩
    intro hkind
    rw [deletedBy_of_deletion hkind] at hdeleted
    cases hdeleted
  · rw [heq]
    refine h.turnedAway ?_ fun _ => .inr ⟨newer, h.stored_seen newer hmem, hsome, haddress, hrank⟩
    intro hkind
    rw [address_eq_none_of_deletion hkind] at hsome
    cases hsome
  · rw [heq]
    refine ⟨?_, hnodup h.nodup, ?_, ?_, ?_, ?_⟩
    · intro x hx
      rcases (hevents x).mp hx with rfl | ⟨hx, -⟩
      · exact Set.mem_insert _ _
      · exact Set.mem_insert_of_mem _ (h.stored_seen x hx)
    · -- a deletion is not deleted and has no address
      rintro deletion (rfl | hmem) hkind
      · exact (hevents _).mpr (.inl rfl)
      · refine (hevents deletion).mpr (.inr ⟨h.deletions deletion hmem hkind,
          deletedBy_of_deletion hkind, ?_⟩)
        intro hsome haddress
        rw [← haddress, address_eq_none_of_deletion hkind] at hsome
        cases hsome
    · intro x hx deletion hdeletion
      rcases (hevents x).mp hx with rfl | ⟨hx, hxevent, -⟩
      · rcases (hevents deletion).mp hdeletion with rfl | ⟨hdeletion, -⟩
        · exact deletedBy_self _
        · exact hundeleted deletion hdeletion
      · rcases (hevents deletion).mp hdeletion with rfl | ⟨hdeletion, -⟩
        · exact hxevent
        · exact h.undeleted x hx deletion hdeletion
    · -- at most one version for each address: the event replaced the one that was there
      intro a ha b hb hsome haddress
      rcases (hevents a).mp ha with rfl | ⟨ha, -, hae⟩
      · rcases (hevents b).mp hb with rfl | ⟨hb, -, hbe⟩
        · rfl
        · exact (hbe hsome haddress).symm
      · rcases (hevents b).mp hb with rfl | ⟨hb, -, hbe⟩
        · exact hae (haddress ▸ hsome) haddress.symm
        · exact h.unique a ha b hb hsome haddress
    · -- what is missing was deleted or replaced by something seen
      rintro x (rfl | hx) hnot
      · exact absurd ((hevents x).mpr (.inl rfl)) hnot
      · by_cases hstored : x ∈ store.events
        · -- the event dropped it: by deletion, or as the newer version
          by_cases hdeleted : deletedBy x event = true
          · exact .inl ⟨event, Set.mem_insert _ _, hdeleted⟩
          · rw [Bool.not_eq_true] at hdeleted
            have hreplaced : (address event).isSome ∧ address x = address event ∧ x ≠ event := by
              by_contra hkept
              refine hnot ((hevents x).mpr (.inr ⟨hstored, hdeleted, ?_⟩))
              intro hsome haddress
              by_contra hne
              exact hkept ⟨hsome, haddress, hne⟩
            obtain ⟨hsome, haddress, hne⟩ := hreplaced
            refine .inr ⟨event, Set.mem_insert _ _, haddress ▸ hsome, haddress.symm, ?_⟩
            refine lt_of_le_of_ne (not_lt.mp (hnewest x hstored hsome haddress)) ?_
            intro hrank
            have hid := Event.id_eq_of_rank_eq hrank
            exact hne (hready.id_inj x (.inr hstored) event (.inl rfl) hid.symm)
        · exact h.lost_insert hx hstored

/-- The events of a set arrive at the store, each at least once. No event of the set is expired
meanwhile, and the store is not full. -/
structure Arrives (matchFilter : NostrFilter → Event → Bool) (store : MemoryEventStore)
    (events : Set Event) (arrivals : List (Event × ℕ)) : Prop where
  mem_iff : ∀ event, event ∈ events ↔ ∃ nowMs, (event, nowMs) ∈ arrivals
  unexpired : ∀ arrival ∈ arrivals, ∀ event ∈ events, expired event arrival.2 = false
  room : ∀ k < arrivals.length,
    (admitAll matchFilter (arrivals.take k) store).events.length < store.maxEvents

theorem admitAll_concat (matchFilter : NostrFilter → Event → Bool) (arrivals : List (Event × ℕ))
    (arrival : Event × ℕ) (store : MemoryEventStore) :
    admitAll matchFilter (arrivals ++ [arrival]) store =
      (admitRuntimeEvent matchFilter arrival.1 arrival.2 (admitAll matchFilter arrivals store)).2 := by
  rw [admitAll, List.foldl_append]
  rfl

theorem admit_maxEvents (hmatch : MatchesNip01 matchFilter) (h : Ready event nowMs store) :
    (admitRuntimeEvent matchFilter event nowMs store).2.maxEvents = store.maxEvents := by
  rcases admit_cases hmatch h with ⟨_, _, _, heq⟩ | ⟨_, _, _, _, _, heq⟩ | ⟨_, _, _, heq, _⟩ <;>
    rw [heq]

/-- What holds of the stored events after every run from an empty store. -/
theorem kept_admitAll (hmatch : MatchesNip01 matchFilter) {events : Set Event}
    (hids : Set.InjOn Event.id events) (hstorable : ∀ event ∈ events, ¬Ephemeral event.kind)
    (hempty : store.events = []) (arrivals : List (Event × ℕ))
    (hmem : ∀ arrival ∈ arrivals, arrival.1 ∈ events)
    (hunexpired : ∀ arrival ∈ arrivals, ∀ event ∈ events, expired event arrival.2 = false)
    (hroom : ∀ k < arrivals.length,
      (admitAll matchFilter (arrivals.take k) store).events.length < store.maxEvents) :
    Kept {event | ∃ nowMs, (event, nowMs) ∈ arrivals} (admitAll matchFilter arrivals store) ∧
      (admitAll matchFilter arrivals store).maxEvents = store.maxEvents := by
  induction arrivals using List.reverseRecOn with
  | nil =>
    refine ⟨⟨?_, ?_, ?_, ?_, ?_, ?_⟩, rfl⟩ <;> simp [admitAll, hempty]
  | append_singleton arrivals arrival ih =>
    have hold : ∀ x ∈ arrivals, x ∈ arrivals ++ [arrival] := fun x hx =>
      List.mem_append_left _ hx
    have hlast : arrival ∈ arrivals ++ [arrival] := by simp
    obtain ⟨hkept, hmax⟩ := ih (fun x hx => hmem x (hold x hx))
      (fun x hx => hunexpired x (hold x hx)) (by
        intro k hk
        have hk' := hroom k (by rw [List.length_append]; omega)
        rwa [List.take_append_of_le_length hk.le] at hk')
    have hstored : ∀ x ∈ (admitAll matchFilter arrivals store).events, x ∈ events := by
      intro x hx
      obtain ⟨nowMs, hx⟩ := hkept.stored_seen x hx
      exact hmem _ (hold _ hx)
    -- Ids are unique, nothing has expired and there is room, so the last arrival is admitted by the
    -- rules.
    have hready : Ready arrival.1 arrival.2 (admitAll matchFilter arrivals store) := by
      refine ⟨hunexpired _ hlast _ (hmem _ hlast), fun old hold' =>
        hunexpired _ hlast _ (hstored old hold'), hstorable _ (hmem _ hlast), ?_, ?_⟩
      · intro a ha b hb
        refine hids ?_ ?_
        · exact ha.elim (fun h => h ▸ hmem _ hlast) (hstored a)
        · exact hb.elim (fun h => h ▸ hmem _ hlast) (hstored b)
      · right
        have hk := hroom arrivals.length (by simp)
        rw [List.take_left' rfl] at hk
        rw [hmax]
        exact hk
    rw [admitAll_concat, admit_maxEvents hmatch hready]
    refine ⟨?_, hmax⟩
    have hinsert : {event | ∃ nowMs, (event, nowMs) ∈ arrivals ++ [arrival]} =
        insert arrival.1 {event | ∃ nowMs, (event, nowMs) ∈ arrivals} := by
      ext event
      simp only [Set.mem_ofPred_eq, List.mem_append, List.mem_singleton, Set.mem_insert_iff]
      constructor
      · rintro ⟨nowMs, h | rfl⟩
        · exact .inr ⟨nowMs, h⟩
        · exact .inl rfl
      · rintro (rfl | ⟨nowMs, h⟩)
        · exact ⟨arrival.2, .inr rfl⟩
        · exact ⟨nowMs, .inl h⟩
    rw [hinsert]
    exact hkept.admit hmatch hready

end MemoryEventStore

/-! ## Coordinates and deletions of NIP-01 -/

/-- The coordinate of an event: its kind and author, with the identifier if it is addressable. -/
def coordinate (event : Event) : Option (ℕ × List.Vector UInt8 32 × String) :=
  if Replaceable event.kind then some (event.kind, event.pubkey, "")
  else if Addressable event.kind then some (event.kind, event.pubkey, identifierText event)
  else none

/-- The coordinate of an event as the text of an `a` tag. -/
def coordinateText (event : Event) : Option String :=
  (coordinate event).map fun c => s!"{c.1}:{EventId.toHex c.2.1}:{c.2.2}"

/-- A deletion by the author of an event, at least as new, names it by id or by coordinate. -/
def Deletes (deletion event : Event) : Prop :=
  deletion.kind = 5 ∧ deletion.pubkey = event.pubkey ∧ event.createdAt ≤ deletion.createdAt ∧
    ∃ tag ∈ deletion.tags, tag[0]? = some "e" ∧ tag[1]? = some event.id.toHex ∨
      tag[0]? = some "a" ∧ (coordinateText event).isSome ∧ tag[1]? = coordinateText event

/-- A replaceable event without an identifier. -/
def Plain (event : Event) : Prop := Replaceable event.kind → identifierText event = ""

/-- An event that a deletion of a set names. Deletions are not deleted. -/
def Deleted (events : Set Event) (event : Event) : Prop :=
  event.kind ≠ 5 ∧ ∃ deletion ∈ events, Deletes deletion event

/-- No version of an event's coordinate in a set is newer. -/
def Newest (events : Set Event) (event : Event) : Prop :=
  ∀ other ∈ events, coordinate event ≠ none → coordinate other = coordinate event →
    event.rank ≤ other.rank

/-- Where the newest version of a coordinate is deleted, all its versions are. -/
def NewestDecides (events : Set Event) : Prop :=
  ∀ newest ∈ events, Newest events newest → Deleted events newest →
    ∀ other ∈ events, coordinate newest ≠ none →
      coordinate other = coordinate newest → Deleted events other

theorem Plain.address_eq {event : Event} (h : Plain event) : address event = coordinateText event := by
  rw [coordinateText, coordinate]
  by_cases hreplaceable : Replaceable event.kind
  · rw [if_pos hreplaceable]
    refine address_eq_some.mpr ⟨.inl hreplaceable, ?_⟩
    rw [h hreplaceable]
    rfl
  · rw [if_neg hreplaceable]
    by_cases haddressable : Addressable event.kind
    · rw [if_pos haddressable]
      exact address_eq_some.mpr ⟨.inr haddressable, rfl⟩
    · rw [if_neg haddressable]
      cases haddress : address event with
      | none => rfl
      | some key =>
        obtain ⟨hkind, -⟩ := address_eq_some.mp haddress
        exact absurd hkind (by rintro (hkind | hkind) <;> contradiction)

theorem Plain.address_isSome {event : Event} (h : Plain event) :
    (address event).isSome ↔ coordinate event ≠ none := by
  rw [h.address_eq, coordinateText, Option.isSome_map, Option.isSome_iff_ne_none]

/-- Among events without a stray identifier, an address is a coordinate. -/
theorem Plain.same_address_iff {a b : Event} (ha : Plain a) (hb : Plain b) :
    (address a).isSome ∧ address b = address a ↔
      coordinate a ≠ none ∧ coordinate b = coordinate a := by
  rw [ha.address_isSome]
  refine and_congr_right fun hsome => ⟨fun haddress => ?_, fun hcoordinate => ?_⟩
  · obtain ⟨key, hkey⟩ := Option.isSome_iff_exists.mp (ha.address_isSome.mpr hsome)
    obtain ⟨hkind, hpubkey, hidentifier⟩ := address_inj (haddress.trans hkey) hkey
    rw [coordinate, coordinate, hkind, hpubkey, hidentifier]
  · rw [ha.address_eq, hb.address_eq, coordinateText, coordinateText, hcoordinate]

theorem Plain.deletedBy_iff {event deletion : Event} (h : Plain event) :
    deletedBy event deletion = true ↔ event.kind ≠ 5 ∧ Deletes deletion event := by
  rw [Runtime.deletedBy_iff, h.address_eq, Deletes]
  constructor
  · rintro ⟨hdeletion, hpubkey, htime, hkind, hnamed⟩
    exact ⟨hkind, hdeletion, hpubkey, htime, hnamed⟩
  · rintro ⟨hkind, hdeletion, hpubkey, htime, hnamed⟩
    exact ⟨hdeletion, hpubkey, htime, hkind, hnamed⟩

/-! ## Convergence -/

namespace MemoryEventStore

/-- A set of events of which the runtime makes no difference by anything but the rules of NIP-01. -/
structure Regular (events : Set Event) : Prop where
  id_inj : Set.InjOn Event.id events
  storable : ∀ event ∈ events, ¬Ephemeral event.kind
  plain : ∀ event ∈ events, Plain event

theorem Arrives.kept {store : MemoryEventStore} {events : Set Event} {arrivals : List (Event × ℕ)}
    (h : Arrives matchFilter store events arrivals) (hmatch : MatchesNip01 matchFilter)
    (hregular : Regular events) (hempty : store.events = []) :
    Kept events (admitAll matchFilter arrivals store) := by
  have hevents : events = {event | ∃ nowMs, (event, nowMs) ∈ arrivals} := Set.ext h.mem_iff
  have hkept := (kept_admitAll hmatch hregular.id_inj hregular.storable hempty arrivals
    (fun arrival harrival => (h.mem_iff _).mpr ⟨arrival.2, harrival⟩) h.unexpired h.room).1
  rwa [← hevents] at hkept

theorem Arrives.finite {store : MemoryEventStore} {events : Set Event} {arrivals : List (Event × ℕ)}
    (h : Arrives matchFilter store events arrivals) : events.Finite := by
  refine (List.finite_toSet (arrivals.map Prod.fst)).subset fun event hevent => ?_
  obtain ⟨nowMs, hmem⟩ := (h.mem_iff event).mp hevent
  exact List.mem_map.mpr ⟨(event, nowMs), hmem, rfl⟩

theorem Kept.not_deleted {store : MemoryEventStore} {events : Set Event} (h : Kept events store)
    (hregular : Regular events) {event : Event} (hstored : event ∈ store.events) :
    ¬Deleted events event := by
  rintro ⟨hkind, deletion, hdeletion, hdeletes⟩
  have hundeleted := h.undeleted event hstored deletion (h.deletions deletion hdeletion hdeletes.1)
  have hplain := hregular.plain event (h.stored_seen event hstored)
  rw [hplain.deletedBy_iff.mpr ⟨hkind, hdeletes⟩] at hundeleted
  cases hundeleted

theorem Kept.stored_or {store : MemoryEventStore} {events : Set Event} (h : Kept events store)
    (hregular : Regular events) {event : Event} (hevent : event ∈ events)
    (hnewest : Newest events event) : event ∈ store.events ∨ Deleted events event := by
  by_contra hneither
  rw [not_or] at hneither
  have hplain := hregular.plain event hevent
  rcases h.lost event hevent hneither.1 with
    ⟨deletion, hdeletion, hdeleted⟩ | ⟨newer, hnewer, hsome, haddress, hrank⟩
  · obtain ⟨hkind, hdeletes⟩ := hplain.deletedBy_iff.mp hdeleted
    exact hneither.2 ⟨hkind, deletion, hdeletion, hdeletes⟩
  · obtain ⟨hcoordinate, hsame⟩ :=
      (hplain.same_address_iff (hregular.plain newer hnewer)).mp ⟨hsome, haddress⟩
    exact absurd hrank (not_lt.mpr (hnewest newer hnewer hcoordinate hsame))

/-- One event is stored for each coordinate. -/
theorem Kept.coordinate_unique {store : MemoryEventStore} {events : Set Event}
    (h : Kept events store) (hregular : Regular events) {a b : Event} (ha : a ∈ store.events)
    (hb : b ∈ store.events) (hsome : coordinate a ≠ none)
    (hcoordinate : coordinate b = coordinate a) : a = b := by
  have hplainA := hregular.plain a (h.stored_seen a ha)
  have hplainB := hregular.plain b (h.stored_seen b hb)
  obtain ⟨hsome, haddress⟩ := (hplainA.same_address_iff hplainB).mpr ⟨hsome, hcoordinate⟩
  exact h.unique a ha b hb hsome haddress

theorem exists_newest {events : Set Event} (hfinite : events.Finite) {event : Event}
    (hevent : event ∈ events) :
    ∃ newest ∈ events, Newest events newest ∧ coordinate newest = coordinate event := by
  obtain ⟨newest, ⟨hnewest, hcoordinate⟩, hmin⟩ := Set.exists_min_image
    {other ∈ events | coordinate other = coordinate event} Event.rank
    (hfinite.subset fun _ h => h.1) ⟨event, hevent, rfl⟩
  refine ⟨newest, hnewest, fun other hother _ hsame => ?_, hcoordinate⟩
  exact hmin other ⟨hother, hsame.trans hcoordinate⟩

/-- Where the newest version of a coordinate decides, the newest versions that are not deleted are
stored, and nothing else. -/
theorem Kept.mem_iff {store : MemoryEventStore} {events : Set Event} (h : Kept events store)
    (hregular : Regular events) (hfinite : events.Finite) (hdecides : NewestDecides events)
    {event : Event} :
    event ∈ store.events ↔ event ∈ events ∧ Newest events event ∧ ¬Deleted events event := by
  constructor
  · intro hstored
    have hevent := h.stored_seen event hstored
    have hundeleted := h.not_deleted hregular hstored
    refine ⟨hevent, fun other hother hsome hsame => ?_, hundeleted⟩
    obtain ⟨newest, hnewest, hleast, hcoordinate⟩ := exists_newest hfinite hevent
    -- the newest version is stored: if it were deleted, the event would be deleted too
    have hkept : newest ∈ store.events := by
      refine (h.stored_or hregular hnewest hleast).resolve_right fun hdeleted => ?_
      exact hundeleted (hdecides newest hnewest hleast hdeleted event hevent
        (hcoordinate ▸ hsome) hcoordinate.symm)
    rw [h.coordinate_unique hregular hstored hkept hsome hcoordinate]
    exact hleast other hother (hcoordinate ▸ hsome) (hsame.trans hcoordinate.symm)
  · rintro ⟨hevent, hnewest, hundeleted⟩
    exact (h.stored_or hregular hevent hnewest).resolve_right hundeleted

/-- After any run one event is stored for each coordinate, and no stored deletion names a stored
event other than a deletion. Where the newest version of each coordinate decides, what is stored does
not depend on the order of the arrivals or on their repetitions. -/
theorem admission_converges (hmatch : MatchesNip01 matchFilter) {maxEvents maxPending : ℕ}
    {store : MemoryEventStore} (hnew : MemoryEventStore.new maxEvents maxPending = .ok store)
    {events : Set Event} (hregular : Regular events) {arrivals : List (Event × ℕ)}
    (harrivals : Arrives matchFilter store events arrivals) :
    (∀ a ∈ (admitAll matchFilter arrivals store).events,
      ∀ b ∈ (admitAll matchFilter arrivals store).events, coordinate a ≠ none →
        coordinate b = coordinate a → a = b) ∧
    (∀ deletion ∈ (admitAll matchFilter arrivals store).events,
      ∀ event ∈ (admitAll matchFilter arrivals store).events, event.kind ≠ 5 →
        ¬Deletes deletion event) ∧
    (NewestDecides events → ∀ others, Arrives matchFilter store events others → ∀ event,
      event ∈ (admitAll matchFilter arrivals store).events ↔
        event ∈ (admitAll matchFilter others store).events) := by
  have hempty : store.events = [] := by
    unfold MemoryEventStore.new at hnew
    simp only at hnew
    split at hnew <;> cases hnew
    rfl
  have hkept := harrivals.kept hmatch hregular hempty
  refine ⟨?_, ?_, ?_⟩
  · intro a ha b hb hsome hcoordinate
    exact hkept.coordinate_unique hregular ha hb hsome hcoordinate
  · intro deletion hdeletion event hevent hkind hdeletes
    exact hkept.not_deleted hregular hevent
      ⟨hkind, deletion, hkept.stored_seen deletion hdeletion, hdeletes⟩
  · intro hdecides others hothers event
    have hkept' := hothers.kept hmatch hregular hempty
    rw [hkept.mem_iff hregular harrivals.finite hdecides,
      hkept'.mem_iff hregular harrivals.finite hdecides]

/-! ### A profile and its deletions -/

/-- A signed profile. -/
def firstProfile : Event where
  id :=
    ⟨[67, 1, 205, 71, 55, 120, 77, 178, 229, 65, 49, 37, 45, 133, 167, 199, 28, 250, 29, 202,
      198, 38, 204, 37, 150, 72, 17, 95, 216, 65, 36, 165], rfl⟩
  pubkey := noteAuthor
  createdAt := 1
  kind := 0
  tags := []
  content := "\x7b\x7d"
  sig :=
    ⟨[143, 178, 233, 124, 75, 30, 144, 119, 176, 113, 229, 36, 182, 89, 235, 199, 4, 59, 188,
      102, 190, 73, 30, 75, 173, 48, 105, 89, 236, 251, 43, 5, 203, 248, 170, 150, 49, 73,
      118, 126, 229, 124, 29, 128, 138, 73, 169, 17, 195, 123, 247, 188, 65, 167, 138, 156,
      210, 7, 124, 246, 252, 146, 180, 66], rfl⟩

/-- A newer profile of the same author. -/
def secondProfile : Event where
  id :=
    ⟨[119, 224, 42, 69, 6, 44, 173, 83, 169, 131, 165, 221, 146, 178, 50, 234, 246, 183, 51,
      110, 208, 226, 84, 177, 115, 75, 181, 93, 97, 55, 224, 231], rfl⟩
  pubkey := noteAuthor
  createdAt := 2
  kind := 0
  tags := []
  content := "\x7b\x7d"
  sig :=
    ⟨[165, 98, 109, 94, 141, 82, 111, 85, 232, 146, 67, 103, 49, 107, 175, 31, 160, 232, 104,
      16, 6, 150, 255, 66, 44, 110, 198, 135, 162, 99, 176, 153, 169, 151, 129, 102, 49, 15,
      216, 26, 32, 7, 37, 243, 82, 103, 12, 149, 95, 111, 188, 183, 235, 231, 153, 48, 52, 36,
      133, 110, 76, 138, 52, 75], rfl⟩

/-- A deletion of the profile of the author. -/
def profileDeletion : Event where
  id :=
    ⟨[233, 145, 155, 69, 234, 79, 168, 238, 240, 127, 216, 119, 201, 200, 211, 41, 3, 157,
      129, 157, 119, 120, 241, 209, 32, 75, 131, 103, 253, 215, 57, 75], rfl⟩
  pubkey := noteAuthor
  createdAt := 3
  kind := 5
  tags := [["a",
    "0:f9308a019258c31049344f85f89d5229b531c845836f99b08601f113bce036f9:"]]
  content := ""
  sig :=
    ⟨[138, 144, 254, 205, 164, 155, 46, 35, 211, 239, 69, 186, 243, 166, 197, 40, 157, 45, 67,
      139, 248, 70, 47, 138, 84, 250, 109, 158, 73, 53, 59, 152, 127, 17, 225, 70, 188, 42,
      41, 81, 86, 181, 90, 41, 177, 26, 15, 21, 223, 162, 147, 91, 174, 47, 130, 56, 56, 196,
      222, 39, 114, 248, 53, 180], rfl⟩

/-- A deletion of the newer profile alone. -/
def secondDeletion : Event where
  id :=
    ⟨[223, 159, 161, 57, 105, 155, 2, 137, 203, 237, 121, 18, 90, 205, 32, 2, 141, 166, 92,
      55, 181, 28, 44, 102, 126, 136, 34, 72, 158, 152, 231, 246], rfl⟩
  pubkey := noteAuthor
  createdAt := 3
  kind := 5
  tags := [["e", "77e02a45062cad53a983a5dd92b232eaf6b7336ed0e254b1734bb55d6137e0e7"]]
  content := ""
  sig :=
    ⟨[131, 191, 131, 75, 120, 166, 11, 248, 236, 219, 197, 61, 187, 208, 170, 238, 178, 57,
      98, 102, 35, 142, 141, 233, 199, 115, 7, 188, 44, 166, 196, 186, 82, 246, 97, 30, 181,
      22, 155, 144, 6, 84, 246, 232, 223, 105, 198, 60, 119, 204, 244, 79, 127, 1, 146, 201,
      206, 166, 92, 53, 91, 19, 47, 57], rfl⟩

/-- Arrivals of three events that never expire. -/
theorem arrives_of_list {a b c : Event} {arrivals : List (Event × ℕ)} {store : MemoryEventStore}
    (hmem : ∀ event, event = a ∨ event = b ∨ event = c ↔ event ∈ arrivals.map Prod.fst)
    (hexpired : ∀ event ∈ arrivals.map Prod.fst,
      event.tags.find? (fun tag => tag[0]? = some "expiration") = none)
    (hroom : ∀ k < arrivals.length,
      (admitAll NostrFilter.meets (arrivals.take k) store).events.length < store.maxEvents) :
    Arrives NostrFilter.meets store {event | event = a ∨ event = b ∨ event = c} arrivals := by
  refine ⟨fun event => (hmem event).trans ?_, fun arrival _ event hevent => ?_, hroom⟩
  · rw [List.mem_map]
    constructor
    · rintro ⟨⟨_, nowMs⟩, h, rfl⟩
      exact ⟨nowMs, h⟩
    · rintro ⟨nowMs, h⟩
      exact ⟨_, h, rfl⟩
  · rw [expired, hexpired event ((hmem event).mp hevent)]
    rfl

def smallStore : MemoryEventStore := { maxEvents := 4, maxPending := 1, events := [], pending := [] }

theorem admission_converges_profiles :
    MemoryEventStore.new 4 1 = .ok smallStore ∧ ∀ event,
      event ∈ (admitAll NostrFilter.meets
        [(firstProfile, 0), (secondProfile, 0), (profileDeletion, 0)] smallStore).events ↔
      event ∈ (admitAll NostrFilter.meets [(profileDeletion, 1), (secondProfile, 2),
        (firstProfile, 3), (firstProfile, 4)] smallStore).events := by
  have hnew : MemoryEventStore.new 4 1 = .ok smallStore := rfl
  have hregular : Regular
      {event | event = firstProfile ∨ event = secondProfile ∨ event = profileDeletion} := by
    refine ⟨?_, ?_, ?_⟩
    · rintro a (rfl | rfl | rfl) b (rfl | rfl | rfl) h <;> first | rfl | exact absurd h (by decide)
    · rintro a (rfl | rfl | rfl) <;> decide
    · rintro a (rfl | rfl | rfl) <;> exact fun _ => rfl
  refine ⟨hnew, (admission_converges (fun _ _ => rfl) hnew hregular ?_).2.2 ?_ _ ?_⟩
  · refine arrives_of_list ?_ (by decide +kernel) (by decide +kernel)
    intro event
    simp
  · -- the deletion names the coordinate of the two profiles
    have hdeleted : ∀ event, event = firstProfile ∨ event = secondProfile →
        Deleted {event | event = firstProfile ∨ event = secondProfile ∨ event = profileDeletion}
          event := by
      rintro event (rfl | rfl)
      · refine ⟨by decide, profileDeletion, .inr (.inr rfl), rfl, rfl, by decide, _,
          List.mem_singleton.mpr rfl, .inr ?_⟩
        decide +kernel
      · refine ⟨by decide, profileDeletion, .inr (.inr rfl), rfl, rfl, by decide, _,
          List.mem_singleton.mpr rfl, .inr ?_⟩
        decide +kernel
    rintro newest - - hnewest other (rfl | rfl | rfl) hsome hsame
    · exact hdeleted _ (.inl rfl)
    · exact hdeleted _ (.inr rfl)
    · exact absurd hsame.symm hsome
  · refine arrives_of_list ?_ (by decide +kernel) (by decide +kernel)
    intro event
    simp only [List.map_cons, List.map_nil, List.mem_cons, List.not_mem_nil, or_false]
    tauto

/-- When the deletion of the newer profile comes last, the older one is gone already; when it comes
first, the older one is stored. -/
theorem deleted_newest_order_matters :
    Arrives NostrFilter.meets smallStore
        {event | event = firstProfile ∨ event = secondProfile ∨ event = secondDeletion}
        [(firstProfile, 0), (secondProfile, 0), (secondDeletion, 0)] ∧
      Arrives NostrFilter.meets smallStore
        {event | event = firstProfile ∨ event = secondProfile ∨ event = secondDeletion}
        [(secondDeletion, 0), (firstProfile, 0), (secondProfile, 0)] ∧
      firstProfile ∉ (admitAll NostrFilter.meets
        [(firstProfile, 0), (secondProfile, 0), (secondDeletion, 0)] smallStore).events ∧
      firstProfile ∈ (admitAll NostrFilter.meets
        [(secondDeletion, 0), (firstProfile, 0), (secondProfile, 0)] smallStore).events := by
  refine ⟨?_, ?_, by decide +kernel, by decide +kernel⟩
  · refine arrives_of_list ?_ (by decide +kernel) (by decide +kernel)
    intro event
    simp
  · refine arrives_of_list ?_ (by decide +kernel) (by decide +kernel)
    intro event
    simp only [List.map_cons, List.map_nil, List.mem_cons, List.not_mem_nil, or_false]
    tauto

end MemoryEventStore

end NostrPubsub.Runtime
