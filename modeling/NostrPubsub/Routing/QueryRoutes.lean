import NostrPubsub.Routing.Merge

/-!
# Routed queries

`query_routes_with_policy` asks, in each dataset, one replica after the other until one
answers, merges what the datasets answered and cuts the result. Cutting after the merge is
enough although every reader has cut before: the first events of a union are among the first
events of its parts.

- `FirstAnswering`: the replica whose answer counts for its dataset;
- `mergeRoutedEvents_queryRoutesWithPolicy`: what merging and a whole query return.
-/

namespace NostrPubsub

variable {nostr : NostrCrate}

/-! ## Replicas -/

section Replicas

variable (filters : List Filter) (options : QueryOptions)

/-- The reader of a candidate answers the query. -/
def RouteCandidate.Answers (candidate : RouteCandidate nostr) : Prop :=
  ∃ report, candidate.source.reader filters options = .ok report

/-- The first replica of its dataset that answers: the one of highest effective priority and,
among these, the first of the routes. -/
structure FirstAnswering (allowed : List (RouteCandidate nostr))
    (candidate : RouteCandidate nostr) : Prop where
  mem : candidate ∈ allowed
  answers : candidate.Answers filters options
  first : ∀ other ∈ allowed, other.datasetId = candidate.datasetId →
    other.Answers filters options → candidate.rank ≤ other.rank

/-- What `query_dataset` returns: the events of the first replica that answers, if one does. -/
theorem queryDataset_cases (datasetId : String) (replicas : List (RouteCandidate nostr))
    (attempts : List RouteAttempt) :
    (∃ before candidate after report, replicas = before ++ candidate :: after
      ∧ (∀ other ∈ before, ¬ other.Answers filters options)
      ∧ candidate.source.reader filters options = .ok report
      ∧ (queryDataset filters options datasetId replicas attempts).events
        = routedEvents report candidate datasetId
      ∧ (queryDataset filters options datasetId replicas attempts).report.complete = true)
    ∨ ((∀ other ∈ replicas, ¬ other.Answers filters options)
      ∧ (queryDataset filters options datasetId replicas attempts).events = []
      ∧ (queryDataset filters options datasetId replicas attempts).report.complete = false) := by
  induction replicas generalizing attempts with
  | nil => exact .inr ⟨by simp, rfl, rfl⟩
  | cons replica rest ih =>
    rw [queryDataset]
    cases hread : replica.source.reader filters options with
    | ok report => exact .inl ⟨[], replica, rest, report, rfl, by simp, hread, rfl, rfl⟩
    | error error =>
      have hsilent : ¬ replica.Answers filters options := by
        rintro ⟨report, hreport⟩
        rw [hread] at hreport
        cases hreport
      rcases ih (attempts ++ [_]) with
        ⟨before, candidate, after, report, rfl, hbefore, hreport, hevents, hcomplete⟩ | ⟨hnone, hrest⟩
      · refine .inl ⟨replica :: before, candidate, after, report, rfl, ?_, hreport, hevents,
          hcomplete⟩
        exact List.forall_mem_cons.mpr ⟨hsilent, hbefore⟩
      · exact .inr ⟨List.forall_mem_cons.mpr ⟨hsilent, hnone⟩, hrest⟩

end Replicas

/-! ## Datasets -/

theorem foldl_joinGroup (others : List (RouteCandidate nostr))
    (first : String × List (RouteCandidate nostr)) :
    (others.map fun candidate => (candidate.datasetId, [candidate])).foldl joinGroup first
      = (first.1, first.2 ++ others) := by
  induction others generalizing first with
  | nil => simp
  | cons candidate rest ih =>
    rw [List.map_cons, List.foldl_cons, ih, joinGroup, List.append_assoc, List.singleton_append]

/-- A group holds the candidates of one dataset, in their order. -/
theorem mem_groupByDataset {candidates : List (RouteCandidate nostr)} {datasetId : String}
    {replicas : List (RouteCandidate nostr)} :
    (datasetId, replicas) ∈ groupByDataset candidates
      ↔ replicas = candidates.filter (fun candidate => candidate.datasetId = datasetId)
        ∧ replicas ≠ [] := by
  have hkey : ∀ a b : String × List (RouteCandidate nostr), (joinGroup a b).1 = a.1 := fun _ _ => rfl
  rw [groupByDataset, List.mem_gather hkey, List.filter_map]
  simp only [Function.comp_def]
  cases hfilter : candidates.filter (fun candidate => candidate.datasetId = datasetId) with
  | nil => simp
  | cons first others =>
    have hfirst : first.datasetId = datasetId := by
      have hmem : first ∈ candidates.filter (fun candidate => candidate.datasetId = datasetId) := by
        rw [hfilter]
        exact List.mem_cons_self
      simpa using (List.mem_filter.mp hmem).2
    constructor
    · rintro ⟨group, further, hgroups, hfold⟩
      rw [List.map_cons, List.cons.injEq] at hgroups
      obtain ⟨rfl, rfl⟩ := hgroups
      rw [foldl_joinGroup, Prod.mk.injEq] at hfold
      rw [← hfold.2]
      exact ⟨rfl, List.cons_ne_nil _ _⟩
    · rintro ⟨rfl, -⟩
      refine ⟨_, _, rfl, ?_⟩
      rw [foldl_joinGroup]
      exact Prod.ext hfirst rfl

/-! ## Candidates -/

/-- The candidates come in the order of the routes, with their positions. -/
theorem checkRoutes_ordinals {σ : Type} {policy : CheckSource σ} {authorPubkey : Option String}
    {capabilities : Option (List String)} {ordinal : ℕ} {routes : List (RouteQuerySource nostr)}
    {state state' : σ} {allowed : List (RouteCandidate nostr)}
    (h : checkRoutes policy authorPubkey capabilities ordinal routes state = (.ok allowed, state')) :
    allowed.Pairwise (fun a b => a.ordinal < b.ordinal) ∧ ∀ c ∈ allowed, ordinal ≤ c.ordinal := by
  induction routes generalizing ordinal state state' allowed with
  | nil =>
    cases h
    simp
  | cons source rest ih =>
    rw [checkRoutes] at h
    rcases hpolicy : policy (sourcePolicyContext authorPubkey capabilities source.route) state with
      ⟨_ | decision, state₁⟩
    · simp [hpolicy] at h
    · simp only [hpolicy] at h
      rcases hrest : checkRoutes policy authorPubkey capabilities (ordinal + 1) rest state₁ with
        ⟨_ | candidates, state₂⟩
      · simp [hrest] at h
      · simp only [hrest, Prod.mk.injEq, Except.ok.injEq] at h
        obtain ⟨hsorted, hfrom⟩ := ih hrest
        have hone : ∀ c ∈ (routeCandidate ordinal source decision).toList, c.ordinal = ordinal := by
          cases decision <;> simp [routeCandidate]
        rw [← h.1]
        constructor
        · refine List.pairwise_append.mpr ⟨?_, hsorted, fun a ha b hb => ?_⟩
          · cases decision <;> simp [routeCandidate]
          · have hb := hfrom b hb
            rw [hone a ha]
            omega
        · intro c hc
          rcases List.mem_append.mp hc with hc | hc
          · exact (hone c hc).ge
          · exact (Nat.le_succ ordinal).trans (hfrom c hc)

theorem eq_of_rank_eq {allowed : List (RouteCandidate nostr)}
    (hordinals : allowed.Pairwise fun a b => a.ordinal < b.ordinal) {a b : RouteCandidate nostr}
    (ha : a ∈ allowed) (hb : b ∈ allowed) (h : a.rank = b.rank) : a = b := by
  have hordinal : a.ordinal = b.ordinal := congrArg Prod.snd (toLex.injective h)
  have hnodup : (allowed.map RouteCandidate.ordinal).Nodup :=
    List.pairwise_map.mpr (hordinals.imp fun hlt => hlt.ne)
  exact List.inj_on_of_nodup_map hnodup ha hb hordinal

/-! ## The answer of each dataset -/

section Answers

variable {filters : List Filter} {options : QueryOptions} {allowed : List (RouteCandidate nostr)}

/-- The results of the datasets, in the order of their groups. -/
def datasetResults (filters : List Filter) (options : QueryOptions)
    (allowed : List (RouteCandidate nostr)) : List (DatasetResult nostr) :=
  (groupByDataset (sortByRank RouteCandidate.rank allowed)).map fun group =>
    queryDataset filters options group.1 group.2 []

theorem mem_replicas {datasetId : String} {replicas : List (RouteCandidate nostr)}
    (h : (datasetId, replicas) ∈ groupByDataset (sortByRank RouteCandidate.rank allowed))
    {candidate : RouteCandidate nostr} :
    candidate ∈ replicas ↔ candidate ∈ allowed ∧ candidate.datasetId = datasetId := by
  rw [(mem_groupByDataset.mp h).1, List.mem_filter, mem_sortByRank, decide_eq_true_eq]

theorem exists_group_of_mem {candidate : RouteCandidate nostr} (h : candidate ∈ allowed) :
    ∃ replicas, (candidate.datasetId, replicas)
      ∈ groupByDataset (sortByRank RouteCandidate.rank allowed) := by
  refine ⟨_, mem_groupByDataset.mpr ⟨rfl, List.ne_nil_of_mem (a := candidate) ?_⟩⟩
  exact List.mem_filter.mpr ⟨mem_sortByRank.mpr h, decide_eq_true rfl⟩

/-- What comes back from a dataset: the events of its first replica that answers, or nothing. -/
theorem queryDataset_of_group {datasetId : String} {replicas : List (RouteCandidate nostr)}
    (h : (datasetId, replicas) ∈ groupByDataset (sortByRank RouteCandidate.rank allowed)) :
    (∃ candidate report, FirstAnswering filters options allowed candidate
      ∧ candidate.datasetId = datasetId ∧ candidate.source.reader filters options = .ok report
      ∧ (queryDataset filters options datasetId replicas []).events
        = routedEvents report candidate datasetId
      ∧ (queryDataset filters options datasetId replicas []).report.complete = true)
    ∨ ((∀ other ∈ allowed, other.datasetId = datasetId → ¬ other.Answers filters options)
      ∧ (queryDataset filters options datasetId replicas []).events = []
      ∧ (queryDataset filters options datasetId replicas []).report.complete = false) := by
  rcases queryDataset_cases filters options datasetId replicas [] with
    ⟨before, candidate, after, report, hreplicas, hbefore, hreport, hevents, hcomplete⟩
      | ⟨hnone, hevents, hcomplete⟩
  · have hmem : candidate ∈ replicas := by simp [hreplicas]
    obtain ⟨hallowed, hdataset⟩ := (mem_replicas h).mp hmem
    have hsorted : replicas.Pairwise fun a b => a.rank ≤ b.rank := by
      rw [(mem_groupByDataset.mp h).1]
      exact (sorted_sortByRank allowed).sublist List.filter_sublist
    refine .inl ⟨candidate, report, ⟨hallowed, ⟨report, hreport⟩, ?_⟩, hdataset, hreport, hevents,
      hcomplete⟩
    intro other hother hsame hanswers
    have hplace : other ∈ before ++ candidate :: after := by
      rw [← hreplicas]
      exact (mem_replicas h).mpr ⟨hother, hsame.trans hdataset⟩
    rw [hreplicas, List.pairwise_append, List.pairwise_cons] at hsorted
    rcases List.mem_append.mp hplace with hearlier | hlater
    · exact absurd hanswers (hbefore other hearlier)
    · rcases List.mem_cons.mp hlater with rfl | hlater
      · exact le_refl _
      · exact hsorted.2.1.1 other hlater
  · refine .inr ⟨fun other hother hsame => ?_, hevents, hcomplete⟩
    exact hnone other ((mem_replicas h).mpr ⟨hother, hsame⟩)

/-- No dataset has two first replicas. -/
theorem FirstAnswering.unique (hordinals : allowed.Pairwise fun a b => a.ordinal < b.ordinal)
    {a b : RouteCandidate nostr} (ha : FirstAnswering filters options allowed a)
    (hb : FirstAnswering filters options allowed b) (h : a.datasetId = b.datasetId) : a = b :=
  eq_of_rank_eq hordinals ha.mem hb.mem
    (le_antisymm (ha.first b hb.mem h.symm hb.answers) (hb.first a ha.mem h ha.answers))

/-- The events of all datasets are those of their first replicas that answer. -/
theorem mem_datasetResults_events
    (hordinals : allowed.Pairwise fun a b => a.ordinal < b.ordinal)
    {event : RoutedQueryEvent nostr} :
    event ∈ (datasetResults filters options allowed).flatMap (·.events)
    ↔ ∃ candidate report, FirstAnswering filters options allowed candidate
      ∧ candidate.source.reader filters options = .ok report
      ∧ event ∈ routedEvents report candidate candidate.datasetId := by
  rw [datasetResults, List.flatMap_map, List.mem_flatMap]
  constructor
  · rintro ⟨⟨datasetId, replicas⟩, hgroup, hevent⟩
    rcases queryDataset_of_group hgroup with
      ⟨candidate, report, hfirst, rfl, hreport, hevents, -⟩ | ⟨-, hevents, -⟩
    · exact ⟨candidate, report, hfirst, hreport, hevents ▸ hevent⟩
    · rw [hevents] at hevent
      cases hevent
  · rintro ⟨candidate, report, hfirst, hreport, hevent⟩
    obtain ⟨replicas, hgroup⟩ := exists_group_of_mem hfirst.mem
    refine ⟨_, hgroup, ?_⟩
    rcases queryDataset_of_group hgroup with
      ⟨candidate', report', hfirst', hdataset, hreport', hevents, -⟩ | ⟨hnone, -, -⟩
    · obtain rfl := FirstAnswering.unique hordinals hfirst' hfirst hdataset
      rw [hreport, Except.ok.injEq] at hreport'
      rw [hevents, ← hreport']
      exact hevent
    · exact absurd hfirst.answers (hnone candidate hfirst.mem rfl)

/-- Every dataset is complete unless none of its replicas answers. -/
theorem all_datasetResults_complete :
    (datasetResults filters options allowed).all (·.report.complete) = true
    ↔ ∀ candidate ∈ allowed, ∃ other ∈ allowed,
      other.datasetId = candidate.datasetId ∧ other.Answers filters options := by
  rw [datasetResults, List.all_map, List.all_eq_true]
  constructor
  · intro hall candidate hcandidate
    obtain ⟨replicas, hgroup⟩ := exists_group_of_mem hcandidate
    rcases queryDataset_of_group hgroup with
      ⟨other, report, hfirst, hdataset, -⟩ | ⟨-, -, hincomplete⟩
    · exact ⟨other, hfirst.mem, hdataset, hfirst.answers⟩
    · have hcomplete := hall _ hgroup
      rw [Function.comp_apply, hincomplete] at hcomplete
      cases hcomplete
  · rintro hall ⟨datasetId, replicas⟩ hgroup
    rcases queryDataset_of_group hgroup with ⟨-, -, -, -, -, -, hcomplete⟩ | ⟨hnone, -, -⟩
    · exact hcomplete
    · obtain ⟨candidate, hcandidate⟩ := List.exists_mem_of_ne_nil _ (mem_groupByDataset.mp hgroup).2
      obtain ⟨hallowed, hdataset⟩ := (mem_replicas hgroup).mp hcandidate
      obtain ⟨other, hother, hsame, hanswers⟩ := hall candidate hallowed
      exact absurd hanswers (hnone other hother (hsame.trans hdataset))

end Answers

/-! ## Whole queries -/

/-- The id of a verified event is a hash of what contains its `created_at`: events with one id
have one time. -/
def NostrCrate.IdBindsTime (nostr : NostrCrate) : Prop :=
  ∀ a b : VerifiedEvent nostr, a.event.id = b.event.id → a.event.createdAt = b.event.createdAt

theorem rank_eq_of_id_eq (hbinds : nostr.IdBindsTime) {a b : VerifiedEvent nostr}
    (h : a.event.id = b.event.id) : a.event.rank = b.event.rank := by
  rw [Event.rank, Event.rank, h, hbinds a b h]

/-- The ranks of a list of events are kept by a merge. -/
theorem mem_ranks_mergeRoutedEvents (hbinds : nostr.IdBindsTime)
    {events : List (RoutedQueryEvent nostr)} {rank : ℕᵒᵈ ×ₗ List ℕ} :
    rank ∈ (mergeRoutedEvents events).map RoutedQueryEvent.rank
      ↔ rank ∈ events.map RoutedQueryEvent.rank := by
  simp only [List.mem_map]
  constructor
  · rintro ⟨event, hevent, rfl⟩
    obtain ⟨first, hfirst, hsame⟩ := exists_copy_of_mem_mergeRoutedEvents hevent
    exact ⟨first, hfirst, congrArg (·.event.rank) hsame⟩
  · rintro ⟨event, hevent, rfl⟩
    obtain ⟨merged, hmerged, hid⟩ := exists_mem_mergeRoutedEvents hevent
    exact ⟨merged, hmerged, rank_eq_of_id_eq hbinds hid⟩

/-- The ranks of what a candidate reads. -/
def RouteCandidate.readRanks (filters : List Filter) (options : QueryOptions)
    (candidate : RouteCandidate nostr) : List (ℕᵒᵈ ×ₗ List ℕ) :=
  match candidate.source.reader filters options with
  | .ok report => report.events.map (·.event.event.rank)
  | .error _ => []

theorem mem_ranks_routedEvents (hbinds : nostr.IdBindsTime) {filters : List Filter}
    {options : QueryOptions} {candidate : RouteCandidate nostr} {report : QueryReport nostr}
    (hreport : candidate.source.reader filters options = .ok report) (datasetId : String)
    {rank : ℕᵒᵈ ×ₗ List ℕ} :
    rank ∈ (routedEvents report candidate datasetId).map RoutedQueryEvent.rank
      ↔ rank ∈ candidate.readRanks filters options := by
  rw [routedEvents, mem_ranks_mergeRoutedEvents hbinds, List.map_map]
  simp only [RouteCandidate.readRanks, hreport]
  rfl

/-- The result of a query with a positive limit: the first events of the union of what the first
replicas that answer hold. -/
theorem queryCandidates_leading (hbinds : nostr.IdBindsTime) {filters : List Filter}
    {options : QueryOptions} {allowed : List (RouteCandidate nostr)}
    (hordinals : allowed.Pairwise fun a b => a.ordinal < b.ordinal)
    {holds : RouteCandidate nostr → Set (ℕᵒᵈ ×ₗ List ℕ)} {limit : ℕ}
    (hreads : ∀ candidate ∈ allowed, candidate.Answers filters options →
      IsLeading (fun rank => rank) limit (holds candidate)
        (candidate.readRanks filters options)) :
    IsLeading (fun rank => rank) limit
      {rank | ∃ candidate ∈ {c | FirstAnswering filters options allowed c}, rank ∈ holds candidate}
      (((mergeRoutedEvents ((datasetResults filters options allowed).flatMap (·.events))).take
        limit).map RoutedQueryEvent.rank) := by
  rw [List.map_take]
  refine IsLeading.of_union (fun candidate => candidate.readRanks filters options)
    (fun candidate hfirst => hreads candidate hfirst.mem hfirst.answers) ?_ fun rank => ?_
  · exact List.pairwise_map.mpr (sorted_mergeRoutedEvents _)
  · rw [mem_ranks_mergeRoutedEvents hbinds, List.mem_map]
    constructor
    · rintro ⟨event, hevent, rfl⟩
      obtain ⟨candidate, report, hfirst, hreport, hmem⟩ :=
        (mem_datasetResults_events hordinals).mp hevent
      exact ⟨candidate, hfirst, (mem_ranks_routedEvents hbinds hreport _).mp
        (List.mem_map_of_mem hmem)⟩
    · rintro ⟨candidate, hfirst, hrank⟩
      obtain ⟨report, hreport⟩ := hfirst.answers
      obtain ⟨event, hevent, rfl⟩ :=
        List.mem_map.mp ((mem_ranks_routedEvents hbinds hreport candidate.datasetId).mpr hrank)
      exact ⟨event, (mem_datasetResults_events hordinals).mpr
        ⟨candidate, report, hfirst, hreport, hevent⟩, rfl⟩

theorem queryCandidates_of_zero (filters : List Filter) {options : QueryOptions}
    (h : options.limit.getD u64Max = 0) (allowed : List (RouteCandidate nostr)) :
    queryCandidates filters options (sortByRank RouteCandidate.rank allowed)
      = { datasets := (groupByDataset (sortByRank RouteCandidate.rank allowed)).map fun group =>
            { datasetId := group.1, complete := true, eventCount := 0 }
          complete := true } := by
  simp [queryCandidates, h]

theorem queryCandidates_of_ne_zero (filters : List Filter) {options : QueryOptions}
    (h : options.limit.getD u64Max ≠ 0) (allowed : List (RouteCandidate nostr)) :
    queryCandidates filters options (sortByRank RouteCandidate.rank allowed)
      = { events := (mergeRoutedEvents ((datasetResults filters options allowed).flatMap
            (·.events))).take (options.limit.getD u64Max)
          attempts := (datasetResults filters options allowed).flatMap (·.attempts)
          datasets := (datasetResults filters options allowed).map (·.report)
          complete := (datasetResults filters options allowed).all (·.report.complete) } := by
  simp [queryCandidates, h, datasetResults]

variable (nostr) in
/-- Merging in two levels is merging once; a merge is idempotent, strictly sorted by time
descending and id ascending, has each id of its copies once, and carries the sorted set of the
provenance entries of all copies. A query whose readers return the first events of what they
hold, up to its limit, returns the first events of the union over the datasets of what the first
answering replica of each holds; with a positive limit it is complete iff every allowed dataset
has a replica that answers, and with limit 0 no reader is asked and the report is complete. -/
theorem mergeRoutedEvents_queryRoutesWithPolicy :
    (∀ parts : List (List (RoutedQueryEvent nostr)),
      mergeRoutedEvents (parts.map mergeRoutedEvents).flatten = mergeRoutedEvents parts.flatten)
    ∧ (∀ events : List (RoutedQueryEvent nostr),
      mergeRoutedEvents (mergeRoutedEvents events) = mergeRoutedEvents events
      ∧ (mergeRoutedEvents events).Pairwise (fun a b => a.rank < b.rank)
      ∧ ((mergeRoutedEvents events).map RoutedQueryEvent.id).Nodup
      ∧ (∀ event ∈ events, ∃ merged ∈ mergeRoutedEvents events, merged.id = event.id)
      ∧ ∀ event ∈ mergeRoutedEvents events,
        (∃ first ∈ events, first.event = event.event)
        ∧ event.provenance.Pairwise (fun a b => a.rank < b.rank)
        ∧ ∀ entry, entry ∈ event.provenance
          ↔ ∃ copy ∈ events, copy.id = event.id ∧ entry ∈ copy.provenance)
    ∧ (nostr.IdBindsTime → ∀ {σ : Type} (routes : List (RouteQuerySource nostr))
      (filters : List Filter) (options : QueryOptions) (authorPubkey : Option String)
      (policy : CheckSource σ) (capabilities : Option (List String)) (state state' : σ)
      (allowed : List (RouteCandidate nostr))
      (holds : RouteCandidate nostr → Set (ℕᵒᵈ ×ₗ List ℕ)),
      checkRoutes policy authorPubkey capabilities 0 routes state = (.ok allowed, state') →
      (∀ candidate ∈ allowed, candidate.Answers filters options →
        IsLeading (fun rank => rank) (options.limit.getD u64Max) (holds candidate)
          (candidate.readRanks filters options)) →
      ∃ report, queryRoutesWithPolicy routes filters options authorPubkey policy capabilities state
          = (.ok report, state')
        ∧ IsLeading (fun rank => rank) (options.limit.getD u64Max)
          {rank | ∃ candidate, FirstAnswering filters options allowed candidate
            ∧ rank ∈ holds candidate} (report.events.map RoutedQueryEvent.rank)
        ∧ (options.limit ≠ some 0 → (report.complete = true ↔ ∀ candidate ∈ allowed,
          ∃ other ∈ allowed, other.datasetId = candidate.datasetId
            ∧ other.Answers filters options))
        ∧ (options.limit = some 0 → report.attempts = [] ∧ report.complete = true)) := by
  refine ⟨mergeRoutedEvents_flatten, fun events => ⟨mergeRoutedEvents_idem events,
    sorted_mergeRoutedEvents events, nodup_mergeRoutedEvents events,
    fun event => exists_mem_mergeRoutedEvents, fun event hevent =>
      ⟨exists_copy_of_mem_mergeRoutedEvents hevent, provenance_of_mem_mergeRoutedEvents hevent⟩⟩, ?_⟩
  intro hbinds σ routes filters options authorPubkey policy capabilities state state' allowed holds
    hchecked hreads
  have hordinals := (checkRoutes_ordinals hchecked).1
  refine ⟨queryCandidates filters options (sortByRank RouteCandidate.rank allowed), ?_, ?_, ?_, ?_⟩
  · simp only [queryRoutesWithPolicy, allowedCandidates, hchecked]
    rfl
  · by_cases hzero : options.limit.getD u64Max = 0
    · rw [hzero, queryCandidates_of_zero filters hzero]
      exact IsLeading.zero _
    · rw [queryCandidates_of_ne_zero filters hzero]
      exact queryCandidates_leading hbinds hordinals hreads
  · intro hpositive
    have hne : options.limit.getD u64Max ≠ 0 := by
      cases hlimit : options.limit with
      | none => decide
      | some limit =>
        rintro rfl
        exact hpositive hlimit
    rw [queryCandidates_of_ne_zero filters hne]
    exact all_datasetResults_complete
  · intro hzero
    rw [queryCandidates_of_zero filters (by rw [hzero]; rfl)]
    exact ⟨rfl, rfl⟩

/-! ## Concrete routes -/

/-- A policy that allows every source. -/
def allowAll : CheckSource Unit := fun _ state => (.ok (.allow 0), state)

/-- A relay route of a dataset. -/
def relayRoute (url datasetId : String) : SourceRoute where
  id := url
  datasetId := datasetId
  source := { id := url, kind := .relay, url := some url }
  priority := -100
  reason := none
  capabilities := []

/-- A reader of the notes, newest first. -/
def noteSource (url datasetId : String) (notes : List (VerifiedEvent noteCrate)) :
    RouteQuerySource noteCrate where
  route := relayRoute url datasetId
  reader := fun _ options => .ok
    { events := (notes.take (options.limit.getD u64Max)).map fun event =>
        { event, source := (relayRoute url datasetId).source, priority := 0 } }

/-- A reader that fails. -/
def silentSource (url datasetId : String) : RouteQuerySource noteCrate where
  route := relayRoute url datasetId
  reader := fun _ _ => .error (.storage "connection refused")

/-- The candidate of a relay route that the policy allows. -/
def relayCandidate (ordinal : ℕ) (source : RouteQuerySource noteCrate) :
    RouteCandidate noteCrate where
  effectivePriority := -100
  ordinal := ordinal
  source := source
  decision := .allow 0

/-- With limit 0 a query of one route whose reader fails is complete although its dataset has no
replica that answers. -/
theorem not_complete_iff_answers_limit_zero :
    checkRoutes allowAll none none 0 [silentSource "wss://a" "a"] ()
      = (.ok [relayCandidate 0 (silentSource "wss://a" "a")], ())
    ∧ (∀ candidate ∈ [relayCandidate 0 (silentSource "wss://a" "a")],
      candidate.Answers [] ⟨some 0⟩ → IsLeading (fun rank => rank) 0 ∅
        (candidate.readRanks [] ⟨some 0⟩))
    ∧ ∃ report : RoutedQueryReport noteCrate,
      queryRoutesWithPolicy [silentSource "wss://a" "a"] [] ⟨some 0⟩ none allowAll none ()
        = (.ok report, ())
      ∧ ¬ (report.complete = true
        ↔ ∀ candidate ∈ [relayCandidate 0 (silentSource "wss://a" "a")],
          ∃ other ∈ [relayCandidate 0 (silentSource "wss://a" "a")],
            other.datasetId = candidate.datasetId ∧ other.Answers [] ⟨some 0⟩) := by
  have hsilent : ∀ candidate ∈ [relayCandidate 0 (silentSource "wss://a" "a")],
      ¬ candidate.Answers [] ⟨some 0⟩ := by
    intro candidate hcandidate
    rw [List.mem_singleton.mp hcandidate]
    rintro ⟨report, hreport⟩
    cases hreport
  refine ⟨rfl, fun candidate hcandidate hanswers => absurd hanswers (hsilent candidate hcandidate),
    _, rfl, fun hiff => ?_⟩
  obtain ⟨other, hother, -, hanswers⟩ := hiff.mp rfl _ List.mem_cons_self
  exact hsilent other hother hanswers

theorem noteCrate_idBindsTime : noteCrate.IdBindsTime := by
  have hids : noteA.id ≠ noteB.id := by decide
  rintro ⟨a, ha⟩ ⟨b, hb⟩ h
  rcases noteCrate_verify ha with rfl | rfl <;> rcases noteCrate_verify hb with rfl | rfl
  · rfl
  · exact absurd h hids
  · exact absurd h.symm hids
  · rfl

/-- One dataset with a failing first replica, and a second dataset that overlaps with it. -/
def noteSources : List (RouteQuerySource noteCrate) :=
  [silentSource "wss://a" "a", noteSource "wss://b" "a" [verifiedB, verifiedA],
    noteSource "wss://c" "c" [verifiedA]]

/-- The candidates of these routes. -/
def noteCandidates : List (RouteCandidate noteCrate) :=
  [relayCandidate 0 (silentSource "wss://a" "a"),
    relayCandidate 1 (noteSource "wss://b" "a" [verifiedB, verifiedA]),
    relayCandidate 2 (noteSource "wss://c" "c" [verifiedA])]

/-- The readers of the notes return the newest of what they hold. -/
theorem readRanks_noteCandidates :
    ∀ candidate ∈ noteCandidates, candidate.Answers [] ⟨some 1⟩ →
      IsLeading (fun rank => rank) 1 {rank | rank ∈ candidate.readRanks [] ⟨some 2⟩}
        (candidate.readRanks [] ⟨some 1⟩) := by
  intro candidate hcandidate _
  have hsorted : (candidate.readRanks [] ⟨some 2⟩).Pairwise (fun a b => a < b)
      ∧ candidate.readRanks [] ⟨some 1⟩ = (candidate.readRanks [] ⟨some 2⟩).take 1 := by
    simp only [noteCandidates, List.mem_cons, List.not_mem_nil, or_false] at hcandidate
    rcases hcandidate with rfl | rfl | rfl <;> decide +kernel
  rw [hsorted.2]
  exact IsLeading.of_take hsorted.1 (fun _ => Iff.rfl) 1

/-- A query over both datasets returns their newest note and is complete. -/
theorem queryRoutesWithPolicy_noteSources :
    ∃ report : RoutedQueryReport noteCrate,
      queryRoutesWithPolicy noteSources [] ⟨some 1⟩ none allowAll none () = (.ok report, ())
      ∧ IsLeading (fun rank => rank) 1
        {rank | ∃ candidate, FirstAnswering [] ⟨some 1⟩ noteCandidates candidate
          ∧ rank ∈ candidate.readRanks [] ⟨some 2⟩} (report.events.map RoutedQueryEvent.rank)
      ∧ report.complete = true := by
  obtain ⟨report, hquery, hleading, hcomplete, -⟩ :=
    (mergeRoutedEvents_queryRoutesWithPolicy noteCrate).2.2 noteCrate_idBindsTime
      noteSources [] ⟨some 1⟩ none allowAll none () () noteCandidates
      (fun candidate => {rank | rank ∈ candidate.readRanks [] ⟨some 2⟩}) rfl
      readRanks_noteCandidates
  refine ⟨report, hquery, hleading, (hcomplete (by decide)).mpr fun candidate hcandidate => ?_⟩
  simp only [noteCandidates, List.mem_cons, List.not_mem_nil, or_false] at hcandidate
  rcases hcandidate with rfl | rfl | rfl
  · exact ⟨_, .tail _ (.head _), rfl, _, rfl⟩
  · exact ⟨_, .tail _ (.head _), rfl, _, rfl⟩
  · exact ⟨_, .tail _ (.tail _ (.head _)), rfl, _, rfl⟩

end NostrPubsub
