import NostrPubsub.Routing.Routes

/-!
# Merging routed events

What `merge_routed_events` returns is determined by two things: for each id, which copy comes
first, and which provenance entries its copies carry together. The result lists one event for
each id, newest first. Merging in two levels therefore gives what one merge gives.

- `mem_mergeRoutedEvents`: the events of a merge;
- `mergeRoutedEvents_congr`: what a merge depends on;
- `mergeRoutedEvents_flatten`: merging in two levels.
-/

namespace NostrPubsub

/-! ## The order of hexadecimal ids -/

theorem hexDigit_lt_hexDigit {m n : ℕ} (hm : m < 16) (hn : n < 16) :
    hexDigit m < hexDigit n ↔ m < n := by
  have hall : ∀ i < 16, ∀ j < 16, hexDigit i < hexDigit j ↔ i < j := by decide
  exact hall m hm n hn

theorem hexDigit_inj {m n : ℕ} (hm : m < 16) (hn : n < 16) :
    hexDigit m = hexDigit n ↔ m = n :=
  ⟨hexDigit_injOn hm hn, fun h => h ▸ rfl⟩

/-- Hexadecimal forms are ordered as the bytes are. -/
theorem flatMap_hexByte_lt (a b : List UInt8) :
    a.flatMap hexByte < b.flatMap hexByte ↔ a.map UInt8.toNat < b.map UInt8.toNat := by
  induction a generalizing b with
  | nil =>
    cases b with
    | nil => simp
    | cons y ys => simp [hexByte]
  | cons x xs ih =>
    cases b with
    | nil => simp
    | cons y ys =>
      have hx := x.toNat_lt
      have hy := y.toNat_lt
      simp only [List.flatMap_cons, hexByte, List.cons_append, List.nil_append, List.map_cons,
        List.cons_lt_cons_iff, ih]
      rw [hexDigit_lt_hexDigit (by omega) (by omega), hexDigit_lt_hexDigit (by omega) (by omega),
        hexDigit_inj (by omega) (by omega), hexDigit_inj (by omega) (by omega)]
      -- The first digit is the quotient by 16 and the second the remainder.
      by_cases hrest : xs.map UInt8.toNat < ys.map UInt8.toNat
      · simp only [hrest, and_true]
        omega
      · simp only [hrest, and_false, or_false]
        omega

theorem EventId.toHex_lt_toHex {a b : EventId} :
    EventId.toHex a < EventId.toHex b ↔ EventId.key a < EventId.key b := by
  rw [String.lt_iff_toList_lt, EventId.toHex, EventId.toHex, String.toList_ofList,
    String.toList_ofList, flatMap_hexByte_lt, EventId.key, EventId.key]

/-! ## Ranks -/

theorem sourceKindRank_injective : Function.Injective sourceKindRank := by
  intro a b h
  cases a <;> cases b <;> first | rfl | cases h

theorem optionRank_injective : Function.Injective optionRank := by
  intro a b h
  cases a with
  | none =>
    cases b with
    | none => rfl
    | some y => exact absurd h (WithBot.bot_ne_coe)
  | some x =>
    cases b with
    | none => exact absurd h (WithBot.coe_ne_bot)
    | some y => exact congrArg some (WithBot.coe_inj.mp h)

/-- Provenance entries are compared by all that they hold. -/
theorem RoutedEventProvenance.rank_injective : Function.Injective RoutedEventProvenance.rank := by
  rintro ⟨route, dataset, ⟨id, kind, url⟩, priority⟩ ⟨route', dataset', ⟨id', kind', url'⟩, priority'⟩ h
  simp only [RoutedEventProvenance.rank, EmbeddingLike.apply_eq_iff_eq, Prod.mk.injEq] at h
  obtain ⟨rfl, rfl, hkind, rfl, hurl, rfl⟩ := h
  rw [sourceKindRank_injective hkind, optionRank_injective hurl]

variable {nostr : NostrCrate}

namespace RoutedQueryEvent

/-- The order of the events of a merge. -/
def rank (self : RoutedQueryEvent nostr) : ℕᵒᵈ ×ₗ List ℕ := self.event.event.rank

theorem hexRank_lt_hexRank {a b : RoutedQueryEvent nostr} : a.hexRank < b.hexRank ↔ a.rank < b.rank := by
  simp only [hexRank, rank, Event.rank, Prod.Lex.toLex_lt_toLex, EventId.toHex_lt_toHex, id]

theorem id_eq_of_hexRank_eq {a b : RoutedQueryEvent nostr} (h : a.hexRank = b.hexRank) :
    a.id = b.id := by
  have hpair := toLex.injective h
  exact EventId.toHex_injective (congrArg Prod.snd hpair)

@[simp]
theorem id_extend (known event : RoutedQueryEvent nostr) : (known.extend event).id = known.id := rfl

@[simp]
theorem id_sortProvenance (self : RoutedQueryEvent nostr) : self.sortProvenance.id = self.id := rfl

/-- The first copy with the provenance of all of them. -/
theorem foldl_extend (first : RoutedQueryEvent nostr) (others : List (RoutedQueryEvent nostr)) :
    others.foldl extend first
      = { first with provenance := (first :: others).flatMap (·.provenance) } := by
  induction others generalizing first with
  | nil => simp
  | cons event rest ih =>
    rw [List.foldl_cons, ih]
    simp [extend, List.append_assoc]

end RoutedQueryEvent

/-! ## The events of a merge -/

variable {events events' : List (RoutedQueryEvent nostr)} {event : RoutedQueryEvent nostr}

/-- The copies of an event. -/
def copies (events : List (RoutedQueryEvent nostr)) (id : EventId) :
    List (RoutedQueryEvent nostr) :=
  events.filter fun event => event.id = id

theorem mem_copies {id : EventId} : event ∈ copies events id ↔ event ∈ events ∧ event.id = id := by
  rw [copies, List.mem_filter, decide_eq_true_eq]

/-- A copy with the sorted set of the provenance entries of all copies. -/
def RoutedQueryEvent.withProvenanceOf (first : RoutedQueryEvent nostr)
    (all : List (RoutedQueryEvent nostr)) : RoutedQueryEvent nostr :=
  { first with
    provenance := sortedSet RoutedEventProvenance.rank (all.flatMap (·.provenance)) }

@[simp]
theorem RoutedQueryEvent.id_withProvenanceOf (first : RoutedQueryEvent nostr)
    (all : List (RoutedQueryEvent nostr)) : (first.withProvenanceOf all).id = first.id := rfl

/-- An event of a merge is the first copy of its id, with the provenance of all copies. -/
theorem mem_mergeRoutedEvents :
    event ∈ mergeRoutedEvents events ↔ ∃ first, (copies events event.id).head? = some first
      ∧ event = first.withProvenanceOf (copies events event.id) := by
  rw [mergeRoutedEvents, mem_sortByRank, List.mem_map]
  constructor
  · rintro ⟨gathered, hgathered, rfl⟩
    obtain ⟨first, others, hfilter, rfl⟩ := (List.mem_gather RoutedQueryEvent.id_extend).mp hgathered
    rw [RoutedQueryEvent.foldl_extend] at hfilter ⊢
    have hcopies : copies events first.id = first :: others := hfilter
    refine ⟨first, congrArg List.head? hcopies, ?_⟩
    exact congrArg first.withProvenanceOf hcopies.symm
  · rintro ⟨first, hhead, hevent⟩
    obtain ⟨others, hcopies⟩ := List.head?_eq_some_iff.mp hhead
    have hid : event.id = first.id := by rw [hevent, RoutedQueryEvent.id_withProvenanceOf]
    refine ⟨others.foldl RoutedQueryEvent.extend first,
      (List.mem_gather RoutedQueryEvent.id_extend).mpr ⟨first, others, ?_, rfl⟩, ?_⟩
    · rw [List.key_foldl_combine RoutedQueryEvent.id_extend, ← hid]
      exact hcopies
    · rw [hevent, RoutedQueryEvent.foldl_extend, hcopies]
      rfl

/-- A merge is strictly sorted: newest first, and by id within a second. -/
theorem sorted_mergeRoutedEvents (events : List (RoutedQueryEvent nostr)) :
    (mergeRoutedEvents events).Pairwise fun a b => a.rank < b.rank := by
  have hids := List.nodup_gather RoutedQueryEvent.id_extend events
  have hranks : (((events.gather RoutedQueryEvent.id RoutedQueryEvent.extend).map
      RoutedQueryEvent.sortProvenance).map RoutedQueryEvent.hexRank).Nodup := by
    rw [List.map_map]
    refine List.Pairwise.map _ ?_ (List.pairwise_map.mp hids)
    exact fun a b hne heq => hne (RoutedQueryEvent.id_eq_of_hexRank_eq heq)
  exact (strict_sortByRank hranks).imp RoutedQueryEvent.hexRank_lt_hexRank.mp

/-- Every id of a merge stands there once. -/
theorem nodup_mergeRoutedEvents (events : List (RoutedQueryEvent nostr)) :
    ((mergeRoutedEvents events).map RoutedQueryEvent.id).Nodup := by
  have hperm : ((mergeRoutedEvents events).map RoutedQueryEvent.id).Perm
      ((events.gather RoutedQueryEvent.id RoutedQueryEvent.extend).map RoutedQueryEvent.id) := by
    have hsort := (List.perm_insertionSort (fun a b : RoutedQueryEvent nostr => a.hexRank ≤ b.hexRank)
      ((events.gather RoutedQueryEvent.id RoutedQueryEvent.extend).map
        RoutedQueryEvent.sortProvenance)).map RoutedQueryEvent.id
    rw [List.map_map] at hsort
    exact hsort
  exact hperm.nodup_iff.mpr (List.nodup_gather RoutedQueryEvent.id_extend events)

theorem id_of_head?_copies {id : EventId} {first : RoutedQueryEvent nostr}
    (h : (copies events id).head? = some first) : first.id = id :=
  (mem_copies.mp (List.mem_of_head? h)).2

/-- The first copy of an id is merged. -/
theorem withProvenanceOf_mem_copies {id : EventId} {first : RoutedQueryEvent nostr}
    (h : (copies events id).head? = some first) :
    first.withProvenanceOf (copies events id) ∈ copies (mergeRoutedEvents events) id := by
  have hid := id_of_head?_copies h
  refine mem_copies.mpr ⟨mem_mergeRoutedEvents.mpr ⟨first, ?_, ?_⟩, hid⟩
  · rw [RoutedQueryEvent.id_withProvenanceOf, hid, h]
  · rw [RoutedQueryEvent.id_withProvenanceOf, hid]

/-- What a merge depends on: the first copy of each id and the provenance of its copies. -/
theorem mergeRoutedEvents_congr
    (hfirst : ∀ id, (copies events id).head?.map (fun c => (c.event, c.source, c.priority))
      = (copies events' id).head?.map fun c => (c.event, c.source, c.priority))
    (hprovenance : ∀ id entry, entry ∈ (copies events id).flatMap (·.provenance)
      ↔ entry ∈ (copies events' id).flatMap (·.provenance)) :
    mergeRoutedEvents events = mergeRoutedEvents events' := by
  have hentry : ∀ (first first' : RoutedQueryEvent nostr) id,
      (first.event, first.source, first.priority) = (first'.event, first'.source, first'.priority) →
      first.withProvenanceOf (copies events id) = first'.withProvenanceOf (copies events' id) := by
    intro first first' id hsame
    simp only [Prod.mk.injEq] at hsame
    exact RoutedQueryEvent.ext hsame.1 hsame.2.1 hsame.2.2
      (sortedSet_congr RoutedEventProvenance.rank_injective (hprovenance id))
  refine IsLeading.eq_of_sorted (sorted_mergeRoutedEvents events) (sorted_mergeRoutedEvents events')
    fun event => ?_
  rw [mem_mergeRoutedEvents, mem_mergeRoutedEvents]
  have hheads := hfirst event.id
  cases hhead : (copies events event.id).head? with
  | none =>
    rw [hhead, Option.map_none, eq_comm, Option.map_eq_none_iff] at hheads
    simp [hheads]
  | some first =>
    rw [hhead, Option.map_some, eq_comm, Option.map_eq_some_iff] at hheads
    obtain ⟨first', hhead', hsame⟩ := hheads
    rw [hhead']
    simp only [Option.some.injEq, exists_eq_left']
    rw [hentry first first' event.id hsame.symm]

/-! ## Merging twice -/

/-- The first copy of an id is the same before and after a merge, but for its provenance. -/
theorem head?_copies_mergeRoutedEvents (events : List (RoutedQueryEvent nostr)) (id : EventId) :
    (copies (mergeRoutedEvents events) id).head?.map (fun c => (c.event, c.source, c.priority))
      = (copies events id).head?.map fun c => (c.event, c.source, c.priority) := by
  cases hmerged : (copies (mergeRoutedEvents events) id).head? with
  | some event =>
    obtain ⟨hmem, hid⟩ := mem_copies.mp (List.mem_of_head? hmerged)
    obtain ⟨first, hhead, hevent⟩ := mem_mergeRoutedEvents.mp hmem
    rw [hid] at hhead
    rw [hhead, hevent]
    rfl
  | none =>
    cases hhead : (copies events id).head? with
    | none => rfl
    | some first =>
      -- The first copy would be in the merge.
      have hcopy := withProvenanceOf_mem_copies hhead
      rw [List.head?_eq_none_iff.mp hmerged] at hcopy
      cases hcopy

/-- A merge keeps the provenance entries of every id. -/
theorem mem_provenance_mergeRoutedEvents (events : List (RoutedQueryEvent nostr)) (id : EventId)
    (entry : RoutedEventProvenance) :
    entry ∈ (copies (mergeRoutedEvents events) id).flatMap (·.provenance)
      ↔ entry ∈ (copies events id).flatMap (·.provenance) := by
  constructor
  · intro h
    obtain ⟨event, hevent, hentry⟩ := List.mem_flatMap.mp h
    obtain ⟨hmem, rfl⟩ := mem_copies.mp hevent
    obtain ⟨first, hhead, heq⟩ := mem_mergeRoutedEvents.mp hmem
    rw [heq] at hentry
    exact (mem_sortedSet RoutedEventProvenance.rank_injective).mp hentry
  · intro h
    obtain ⟨event, hevent, -⟩ := List.mem_flatMap.mp h
    obtain ⟨first, others, hcopies⟩ := List.exists_cons_of_ne_nil (List.ne_nil_of_mem hevent)
    have hhead : (copies events id).head? = some first := by rw [hcopies, List.head?_cons]
    exact List.mem_flatMap.mpr ⟨_, withProvenanceOf_mem_copies hhead,
      (mem_sortedSet RoutedEventProvenance.rank_injective).mpr h⟩

theorem mergeRoutedEvents_idem (events : List (RoutedQueryEvent nostr)) :
    mergeRoutedEvents (mergeRoutedEvents events) = mergeRoutedEvents events :=
  mergeRoutedEvents_congr (head?_copies_mergeRoutedEvents events)
    (mem_provenance_mergeRoutedEvents events)

/-- Merging parts and then the whole is merging the whole. -/
theorem mergeRoutedEvents_flatten (parts : List (List (RoutedQueryEvent nostr))) :
    mergeRoutedEvents (parts.map mergeRoutedEvents).flatten = mergeRoutedEvents parts.flatten := by
  refine mergeRoutedEvents_congr (fun id => ?_) (fun id entry => ?_)
  · induction parts with
    | nil => rfl
    | cons part rest ih =>
      simp only [List.map_cons, List.flatten_cons, copies, List.filter_append, List.head?_append,
        Option.map_or] at ih ⊢
      rw [ih]
      exact congrArg (Option.or · _) (head?_copies_mergeRoutedEvents part id)
  · induction parts with
    | nil => rfl
    | cons part rest ih =>
      simp only [List.map_cons, List.flatten_cons, copies, List.filter_append, List.flatMap_append,
        List.mem_append] at ih ⊢
      rw [ih]
      exact or_congr_left (mem_provenance_mergeRoutedEvents part id entry)

/-- Every event of a merge has a copy with its id, time and source. -/
theorem exists_copy_of_mem_mergeRoutedEvents (h : event ∈ mergeRoutedEvents events) :
    ∃ first ∈ events, first.event = event.event := by
  obtain ⟨first, hhead, hevent⟩ := mem_mergeRoutedEvents.mp h
  refine ⟨first, (mem_copies.mp (List.mem_of_head? hhead)).1, ?_⟩
  rw [hevent]
  rfl

/-- Every copy has an event of its id in the merge. -/
theorem exists_mem_mergeRoutedEvents (h : event ∈ events) :
    ∃ merged ∈ mergeRoutedEvents events, merged.id = event.id := by
  have hcopy : event ∈ copies events event.id := mem_copies.mpr ⟨h, rfl⟩
  obtain ⟨first, others, hcopies⟩ := List.exists_cons_of_ne_nil (List.ne_nil_of_mem hcopy)
  have hhead : (copies events event.id).head? = some first := by rw [hcopies, List.head?_cons]
  exact ⟨_, mem_copies.mp (withProvenanceOf_mem_copies hhead)⟩

/-- The provenance of an event of a merge: the sorted set of the entries of all copies. -/
theorem provenance_of_mem_mergeRoutedEvents (h : event ∈ mergeRoutedEvents events) :
    event.provenance.Pairwise (fun a b => a.rank < b.rank)
    ∧ ∀ entry, entry ∈ event.provenance
      ↔ ∃ copy ∈ events, copy.id = event.id ∧ entry ∈ copy.provenance := by
  obtain ⟨first, hhead, hevent⟩ := mem_mergeRoutedEvents.mp h
  have hprovenance : event.provenance = sortedSet RoutedEventProvenance.rank
      ((copies events event.id).flatMap (·.provenance)) := congrArg (·.provenance) hevent
  constructor
  · rw [hprovenance]
    exact strict_sortedSet RoutedEventProvenance.rank_injective _
  · intro entry
    rw [hprovenance, mem_sortedSet RoutedEventProvenance.rank_injective, List.mem_flatMap]
    simp only [mem_copies, and_assoc]

end NostrPubsub
