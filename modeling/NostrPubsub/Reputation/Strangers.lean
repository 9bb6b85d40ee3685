import NostrPubsub.Reputation.Retention

/-!
# Strangers cannot influence reputation

A stranger is a rater that is neither the local root nor trusted. Its ratings share the limit of all
entries, the prune deadline and the trigger of the projection with the others, but they rank below
them: what is retained of the authorized ratings is a selection of these alone
(`mem_select_authorized`, by `filter_select`).

Two runs that differ in the events of strangers therefore retain the same authorized ratings, and
project the same graph: a projection that only a stranger caused finds the ratings of the last one.
-/

namespace NostrPubsub.Reputation

open PeerReputation (authorizedRatings parse)

variable {π γ : Type}

/-- The event is signed by the local root or by a trusted rater. -/
def Config.trusts (config : Config) (event : Event) : Bool :=
  config.raterIsAuthorized (EventId.toHex event.pubkey)

/-- The retained ratings of authorized raters are the same. -/
def Config.Agree (config : Config) (latest latest' : Latest π) : Prop :=
  ∀ key, config.raterIsAuthorized key.rater = true → latest.lookup key = latest'.lookup key

namespace Config.Agree

variable {config : Config} {latest latest' latest'' : Latest π}

theorem refl (latest : Latest π) : config.Agree latest latest := fun _ _ => rfl

theorem symm (h : config.Agree latest latest') : config.Agree latest' latest :=
  fun key hauthorized => (h key hauthorized).symm

theorem trans (h : config.Agree latest latest') (h' : config.Agree latest' latest'') :
    config.Agree latest latest'' :=
  fun key hauthorized => (h key hauthorized).trans (h' key hauthorized)

theorem filter (h : config.Agree latest latest') (p : PeerRatingKey → StoredPeerRating π → Bool) :
    config.Agree (latest.filter p) (latest'.filter p) := by
  intro key hauthorized
  rw [Finmap.lookup_filter, Finmap.lookup_filter, h key hauthorized]

theorem insert (h : config.Agree latest latest') (key : PeerRatingKey)
    (stored : StoredPeerRating π) :
    config.Agree (latest.insert key stored) (latest'.insert key stored) := by
  intro key' hauthorized
  by_cases hkey : key' = key
  · subst hkey
    rw [Finmap.lookup_insert, Finmap.lookup_insert]
  · rw [Finmap.lookup_insert_of_ne _ hkey, Finmap.lookup_insert_of_ne _ hkey, h key' hauthorized]

/-- A rating of a stranger. -/
theorem insert_stranger (latest : Latest π) {key : PeerRatingKey} (stored : StoredPeerRating π)
    (hstranger : config.raterIsAuthorized key.rater = false) :
    config.Agree latest (latest.insert key stored) := by
  intro key' hauthorized
  refine (Finmap.lookup_insert_of_ne _ fun hkey => ?_).symm
  rw [hkey, hstranger] at hauthorized
  cases hauthorized

end Config.Agree

/-! ## The limits -/

section Limits

variable {config : Config} {latest latest' : Latest π}

/-- The rank is that of an authorized rating. -/
def Rank.IsAuthorized (rank : Rank) : Prop := (ofLex rank).1 = true

instance : DecidablePred Rank.IsAuthorized := fun rank =>
  inferInstanceAs (Decidable ((ofLex rank).1 = true))

/-- What ranks above an authorized rating is one. -/
theorem Rank.IsAuthorized.mono (rank rank' : Rank) (hle : rank ≤ rank') (h : rank.IsAuthorized) :
    rank'.IsAuthorized := by
  rcases Prod.Lex.le_iff.mp hle with hlt | ⟨heq, -⟩
  · rw [show (ofLex rank).1 = true from h] at hlt
    exact absurd hlt (by cases (ofLex rank').1 <;> decide)
  · exact heq.symm.trans h

theorem Config.Agree.filter_ranksOf (h : config.Agree latest latest') :
    (config.ranksOf latest).filter Rank.IsAuthorized
      = (config.ranksOf latest').filter Rank.IsAuthorized := by
  ext rank
  rw [Finset.mem_filter, Finset.mem_filter, mem_valuesOf, mem_valuesOf]
  refine and_congr_left fun hauthorized => exists_congr fun key => exists_congr fun stored => ?_
  refine and_congr_left ?_
  rintro rfl
  rw [h key hauthorized]

/-- Whether an authorized rating is within the limits depends on the authorized ratings only. -/
theorem mem_select_authorized (h : config.Agree latest latest') {key : PeerRatingKey}
    {stored : StoredPeerRating π} (hauthorized : config.raterIsAuthorized key.rater = true) :
    config.rank key stored ∈ select Rank.key PeerRatingKey.rater peerRatingMaxEntriesPerRater
        peerRatingMaxEntries (config.ranksOf latest) ↔
      config.rank key stored ∈ select Rank.key PeerRatingKey.rater peerRatingMaxEntriesPerRater
        peerRatingMaxEntries (config.ranksOf latest') := by
  have hrank : (config.rank key stored).IsAuthorized := hauthorized
  have hfilter : ∀ ranks : Finset Rank,
      config.rank key stored ∈ select Rank.key PeerRatingKey.rater peerRatingMaxEntriesPerRater
          peerRatingMaxEntries ranks ↔
        config.rank key stored ∈ select Rank.key PeerRatingKey.rater peerRatingMaxEntriesPerRater
          peerRatingMaxEntries (ranks.filter Rank.IsAuthorized) := by
    intro ranks
    rw [← filter_select Rank.IsAuthorized.mono, Finset.mem_filter]
    exact ⟨fun hmem => ⟨hmem, hrank⟩, fun hmem => hmem.1⟩
  rw [hfilter, h.filter_ranksOf, ← hfilter]

end Limits

/-! ## One event -/

section Event

variable {config : Config} {s t s' t' : PeerReputation π γ} {key : PeerRatingKey}
  {stored : StoredPeerRating π} {mayChange mayChange' : Bool}

/-- A rating is rejected, or newer than the one there. -/
theorem Inserted.rejected_or_above (h : Inserted s key stored mayChange s') :
    (s' = s ∧ ∃ existing, s.latest.lookup key = some existing ∧
      s.config.rank key stored ≤ s.config.rank key existing) ∨
    ∀ existing, s.latest.lookup key = some existing →
      s.config.rank key existing < s.config.rank key stored := by
  cases h with
  | rejected hlookup hle => exact .inl ⟨rfl, _, hlookup, hle⟩
  | kept habove => exact .inr habove
  | limited habove => exact .inr habove

/-- The rating of a stranger changes no authorized one. -/
theorem Inserted.agree_stranger (h : Inserted s key stored mayChange s')
    (hnot : ¬ Config.Overflows (s.config.ranksOf s.latest))
    (hstranger : s.config.raterIsAuthorized key.rater = false) :
    s.config.Agree s.latest s'.latest := by
  rcases h.rejected_or_above with ⟨rfl, -⟩ | habove
  · exact .refl _
  intro key' hauthorized
  refine Option.ext fun stored' => ?_
  have hagree := @Config.Agree.insert_stranger π s.config s.latest key stored hstranger
  rw [h.lookup_iff hnot habove, ← mem_select_authorized hagree hauthorized,
    ← hagree key' hauthorized, select_eq_best hnot, best_eq_self (injOn_ranksOf _ _)]
  exact ⟨fun hlookup => ⟨hlookup, rank_mem_ranksOf hlookup⟩, fun hlookup => hlookup.1⟩

/-- An authorized rating does the same to authorized ratings that are the same. -/
theorem Inserted.agree (h : Inserted s key stored mayChange s')
    (h' : Inserted t key stored mayChange' t') (hconfig : t.config = s.config)
    (hnot : ¬ Config.Overflows (s.config.ranksOf s.latest))
    (hnot' : ¬ Config.Overflows (t.config.ranksOf t.latest))
    (hagree : s.config.Agree s.latest t.latest)
    (hkey : s.config.raterIsAuthorized key.rater = true) :
    s.config.Agree s'.latest t'.latest := by
  have hlookup := hagree key hkey
  rcases h.rejected_or_above, h'.rejected_or_above with
    ⟨⟨rfl, existing, hin, hle⟩ | habove, ⟨rfl, existing', hin', hle'⟩ | habove'⟩
  · exact hagree
  · rw [hlookup] at hin
    rw [hconfig] at habove'
    exact absurd hle (not_le.mpr (habove' existing hin))
  · rw [← hlookup] at hin'
    rw [hconfig] at hle'
    exact absurd hle' (not_le.mpr (habove existing' hin'))
  · intro key' hauthorized
    refine Option.ext fun stored' => ?_
    have hinsert := hagree.insert key stored
    rw [h.lookup_iff hnot habove, h'.lookup_iff hnot' habove', hconfig,
      ← mem_select_authorized hinsert hauthorized, ← hinsert key' hauthorized]

variable (crates : SocialCrates π γ) {nowSecs : ℕ} {event : Event}

theorem Retained.agree_stranger (h : Retained config nowSecs s)
    (hstranger : config.trusts event = false) :
    config.Agree s.latest (s.considerEvent crates event nowSecs).2.latest := by
  unfold PeerReputation.considerEvent
  cases hparse : parse crates s.config event nowSecs with
  | none => exact .refl _
  | some entry =>
    obtain ⟨key, stored⟩ := entry
    obtain ⟨hinserted, -⟩ := insert_inserted h.counted key stored
    obtain rfl := h.config_eq
    refine hinserted.agree_stranger h.within ?_
    rw [rater_of_parse hparse]
    exact hstranger

theorem Retained.agree_trusted (h : Retained config nowSecs s) (h' : Retained config nowSecs t)
    (hagree : config.Agree s.latest t.latest) (htrusted : config.trusts event = true) :
    config.Agree (s.considerEvent crates event nowSecs).2.latest
      (t.considerEvent crates event nowSecs).2.latest := by
  unfold PeerReputation.considerEvent
  rw [h.config_eq, h'.config_eq]
  cases hparse : parse crates config event nowSecs with
  | none => exact hagree
  | some entry =>
    obtain ⟨key, stored⟩ := entry
    obtain ⟨hinserted, -⟩ := insert_inserted h.counted key stored
    obtain ⟨hinserted', -⟩ := insert_inserted h'.counted key stored
    have hkey : config.raterIsAuthorized key.rater = true := by
      rw [rater_of_parse hparse]
      exact htrusted
    have hwithin := h'.within
    rw [← h'.config_eq] at hwithin
    obtain rfl := h.config_eq
    exact hinserted.agree hinserted' h'.config_eq h.within hwithin hagree hkey

/-- Considering events is, for the authorized ratings, considering those of authorized raters. -/
theorem Retained.agree_considerAll (h : Retained config nowSecs s) (h' : Retained config nowSecs t)
    (hagree : config.Agree s.latest t.latest) (events : List Event) :
    config.Agree (s.considerAll crates events nowSecs).2.latest
      (t.considerAll crates (events.filter config.trusts) nowSecs).2.latest := by
  induction events using List.reverseRecOn with
  | nil => exact hagree
  | append_singleton events event ih =>
    have hs := (h.considerAll crates events).retained
    have ht := (h'.considerAll crates (events.filter config.trusts)).retained
    rw [considerAll_concat, List.filter_append]
    cases htrusts : config.trusts event with
    | true =>
      rw [List.filter_cons_of_pos htrusts, List.filter_nil, considerAll_concat]
      exact hs.agree_trusted crates ht ih htrusts
    | false =>
      rw [List.filter_cons_of_neg (by rw [htrusts]; exact Bool.false_ne_true), List.filter_nil,
        List.append_nil]
      exact (hs.agree_stranger crates htrusts).symm.trans ih

end Event

/-! ## Runs -/

/-- Two states that agree on what matters: the authorized ratings and the graph. -/
structure Alike (crates : SocialCrates π γ) (config : Config) (nowSecs : ℕ)
    (s t : PeerReputation π γ) : Prop where
  left : Retained config nowSecs s
  right : Retained config nowSecs t
  agree : config.Agree s.latest t.latest
  graph_eq : s.graph = t.graph
  current : CurrentIfApplied crates s

section Runs

variable {crates : SocialCrates π γ} {config : Config} {before nowSecs : ℕ}
  {s t : PeerReputation π γ}

theorem Alike.ratings_eq (h : Alike crates config nowSecs s t) :
    authorizedRatings config s.latest = authorizedRatings config t.latest :=
  authorizedRatings_congr h.left.rater_eq h.right.rater_eq h.agree

theorem Alike.symm (h : Alike crates config nowSecs s t) : Alike crates config nowSecs t s where
  left := h.right
  right := h.left
  agree := h.agree.symm
  graph_eq := h.graph_eq.symm
  current graph happly := by
    rw [h.right.config_eq, ← h.ratings_eq, ← h.left.config_eq] at happly
    exact h.graph_eq.symm.trans (h.current graph happly)

/-- States whose graphs are current, and which agree on the rest, are alike. Ratings that cannot be
applied determine no graph, so that the graphs have to be the same in that case. -/
theorem Alike.of_current (hs : Retained config nowSecs s) (ht : Retained config nowSecs t)
    (hagree : config.Agree s.latest t.latest) (hcurrent : CurrentIfApplied crates s)
    (hcurrent' : CurrentIfApplied crates t)
    (herror : ∀ error, crates.applyRatings (authorizedRatings config s.latest) = .error error →
      crates.applyRatings (authorizedRatings config t.latest) = .error error → s.graph = t.graph) :
    Alike crates config nowSecs s t := by
  refine ⟨hs, ht, hagree, ?_, hcurrent⟩
  have hratings := authorizedRatings_congr hs.rater_eq ht.rater_eq hagree
  cases happly : crates.applyRatings (authorizedRatings config s.latest) with
  | ok graph =>
    rw [hcurrent graph (by rw [hs.config_eq]; exact happly),
      hcurrent' graph (by rw [ht.config_eq, ← hratings]; exact happly)]
  | error error => exact herror error happly (by rw [← hratings]; exact happly)

theorem latest_refresh (events : List Event) :
    (refresh crates events nowSecs s).2.latest
      = ((s.pruneMemory nowSecs).2.considerAll crates events nowSecs).2.latest := by
  unfold refresh
  simp only
  split
  · rw [rebuild_fields]
  · rfl

/-- A call keeps the graph when the ratings cannot be applied after it. -/
theorem Retained.graph_refresh_of_error (h : Retained config before s) (hle : before ≤ nowSecs)
    {events : List Event} {error : String}
    (herror : crates.applyRatings
      (authorizedRatings config (Reputation.refresh crates events nowSecs s).2.latest)
        = .error error) :
    (Reputation.refresh crates events nowSecs s).2.graph = s.graph := by
  have hconsidered := (h.pruneMemory hle).considerAll crates events
  have hgraph := hconsidered.graph_eq.trans (graph_pruneMemory nowSecs s)
  rw [latest_refresh] at herror
  unfold Reputation.refresh
  simp only
  split
  · rw [PeerReputation.rebuild, hconsidered.retained.config_eq, herror]
    exact hgraph
  · exact hgraph

/-- Two calls at one time, with the same events of authorized raters. -/
theorem Alike.refresh (h : Alike crates config before s t) (hle : before ≤ nowSecs)
    {events events' : List Event}
    (hevents : events.filter config.trusts = events'.filter config.trusts) :
    Alike crates config nowSecs (Reputation.refresh crates events nowSecs s).2
      (Reputation.refresh crates events' nowSecs t).2 := by
  have hpruned : config.Agree (s.pruneMemory nowSecs).2.latest (t.pruneMemory nowSecs).2.latest := by
    rw [h.left.latest_pruneMemory hle, h.right.latest_pruneMemory hle]
    exact h.agree.filter _
  have hs := h.left.pruneMemory hle
  have ht := h.right.pruneMemory hle
  refine .of_current (h.left.refresh crates hle events) (h.right.refresh crates hle events') ?_
    (h.current.refresh h.left hle events) (h.symm.current.refresh h.right hle events') ?_
  · -- Both agree with the run that considers the events of authorized raters only.
    rw [latest_refresh, latest_refresh]
    have hleft := hs.agree_considerAll crates ht hpruned events
    have hright := ht.agree_considerAll crates ht (.refl _) events'
    rw [← hevents] at hright
    exact hleft.trans hright.symm
  · intro error hleft hright
    rw [h.left.graph_refresh_of_error hle hleft, h.right.graph_refresh_of_error hle hright]
    exact h.graph_eq

/-- A call of one run alone, at the time of the last one, with events of strangers. -/
theorem Alike.refresh_left (h : Alike crates config nowSecs s t) {events : List Event}
    (hevents : events.filter config.trusts = []) :
    Alike crates config nowSecs (Reputation.refresh crates events nowSecs s).2 t := by
  have hs := h.left.pruneMemory (le_refl nowSecs)
  have hpruned : (s.pruneMemory nowSecs).2.latest = s.latest := by
    rw [h.left.latest_pruneMemory (le_refl nowSecs)]
    exact Finmap.filter_eq_self fun key stored hlookup => h.left.time_valid key stored hlookup
  refine .of_current (h.left.refresh crates (le_refl nowSecs) events) h.right ?_
    (h.current.refresh h.left (le_refl nowSecs) events) h.symm.current ?_
  · rw [latest_refresh]
    have hleft := hs.agree_considerAll crates h.right
      (by rw [hpruned]; exact h.agree) events
    rw [hevents] at hleft
    exact hleft
  · intro error hleft _
    rw [h.left.graph_refresh_of_error (le_refl nowSecs) hleft]
    exact h.graph_eq

/-- Two runs at the same times, up to `nowSecs`, that differ in the events of strangers only. A call
of one run has a call of the other at its time, with the same events of authorized raters in the
same order, or it is one more call for strangers at the time of the last common one. -/
inductive SameButStrangers (config : Config) : ℕ → List Call → List Call → Prop
  | nil (nowSecs : ℕ) : SameButStrangers config nowSecs [] []
  | both {before : ℕ} {calls calls' : List Call} {call call' : Call}
    (h : SameButStrangers config before calls calls') (hle : before ≤ call.nowSecs)
    (htime : call'.nowSecs = call.nowSecs)
    (hevents : call.events.filter config.trusts = call'.events.filter config.trusts) :
    SameButStrangers config call.nowSecs (calls ++ [call]) (calls' ++ [call'])
  | left {calls calls' : List Call} {call : Call}
    (h : SameButStrangers config call.nowSecs calls calls')
    (hevents : call.events.filter config.trusts = []) :
    SameButStrangers config call.nowSecs (calls ++ [call]) calls'
  | right {calls calls' : List Call} {call : Call}
    (h : SameButStrangers config call.nowSecs calls calls')
    (hevents : call.events.filter config.trusts = []) :
    SameButStrangers config call.nowSecs calls (calls' ++ [call])

/-- The states of two such runs are alike. -/
theorem SameButStrangers.alike (hnone : crates.applyRatings [] = .ok crates.seededGraph)
    {calls calls' : List Call} (h : SameButStrangers config nowSecs calls calls') :
    Alike crates config nowSecs (reputationAfter crates config calls)
      (reputationAfter crates config calls') := by
  induction h with
  | nil nowSecs =>
    refine ⟨retained_new crates config nowSecs, retained_new crates config nowSecs, .refl _, rfl, ?_⟩
    intro graph happly
    exact Except.ok.inj (hnone.symm.trans happly)
  | both _ hle htime hevents ih =>
    rw [reputationAfter_concat, reputationAfter_concat, htime]
    exact ih.refresh hle hevents
  | left _ hevents ih =>
    rw [reputationAfter_concat]
    exact ih.refresh_left hevents
  | right _ hevents ih =>
    rw [reputationAfter_concat]
    exact (ih.symm.refresh_left hevents).symm

/-- Strangers cannot influence reputation. In two runs at the same times that differ in the events
of strangers only, the retained ratings of authorized raters and the graph are the same; every
front of such runs is such a pair of runs, so that this holds after every call. -/
theorem strangers_without_influence (crates : SocialCrates π γ)
    (hnone : crates.applyRatings [] = .ok crates.seededGraph) (config : Config) (nowSecs : ℕ)
    (calls calls' : List Call) (h : SameButStrangers config nowSecs calls calls') :
    (∀ key, config.raterIsAuthorized key.rater = true →
      (reputationAfter crates config calls).latest.lookup key
        = (reputationAfter crates config calls').latest.lookup key) ∧
    (reputationAfter crates config calls).graph = (reputationAfter crates config calls').graph :=
  ⟨(h.alike hnone).agree, (h.alike hnone).graph_eq⟩

end Runs

/-! ## A stranger's rating -/

/-- The public key of the secret key 7. -/
def stranger : List.Vector UInt8 32 :=
  ⟨[92, 189, 240, 100, 110, 93, 180, 234, 163, 152, 243, 101, 242, 234, 122, 14, 61, 65, 155, 126,
    3, 48, 227, 156, 233, 43, 221, 237, 202, 196, 249, 188], rfl⟩

/-- A rating of the same peer by a stranger, with its real id and signature. -/
def ratingC : Event where
  id :=
    ⟨[60, 105, 112, 188, 196, 4, 111, 2, 118, 151, 243, 228, 219, 157, 21, 132, 46, 54, 75, 204, 231,
      245, 13, 248, 191, 85, 223, 206, 114, 36, 41, 26], rfl⟩
  pubkey := stranger
  createdAt := 1
  kind := 7368
  tags := [["p", EventId.toHex ratedPeer], ["i", "fips.peer"], ["rating", "1"]]
  content := ""
  sig :=
    ⟨[39, 246, 233, 104, 117, 152, 19, 2, 19, 150, 10, 156, 40, 4, 61, 200, 225, 195, 29, 216, 89,
      196, 160, 199, 190, 38, 121, 124, 12, 28, 40, 222, 166, 132, 207, 184, 204, 170, 17, 37, 31,
      235, 216, 103, 175, 33, 33, 106, 61, 240, 171, 187, 64, 115, 76, 174, 206, 94, 123, 74, 80,
      45, 180, 250], rfl⟩

/-- The crates as they behave on the three ratings. -/
def threeRatingCrates : SocialCrates ℤ (List (Rating ℤ)) where
  ratingKind := 7368
  ratingFromEvent event :=
    if event = ratingC then some { ratingOf 1 1 with rater := EventId.toHex stranger }
    else ratingCrates.ratingFromEvent event
  parsePublicKey text :=
    if text = EventId.toHex stranger then some stranger else ratingCrates.parsePublicKey text
  seededGraph := []
  applyRatings ratings := .ok ratings

/-- A run with ratings of a stranger, and one without. -/
theorem strangers_without_influence_three :
    let calls := [Call.ingest ratingA 3, .replay [ratingC, ratingB] 4, .ingest ratingC 4]
    let calls' := [Call.ingest ratingA 3, .replay [ratingB] 4]
    (reputationAfter threeRatingCrates ownConfig calls).latest.size = 2 ∧
      (reputationAfter threeRatingCrates ownConfig calls).graph.map Rating.rest = [80] ∧
      (reputationAfter threeRatingCrates ownConfig calls).graph
        = (reputationAfter threeRatingCrates ownConfig calls').graph := by
  have hrated : (reputationAfter threeRatingCrates ownConfig
        [.ingest ratingA 3, .replay [ratingC, ratingB] 4, .ingest ratingC 4]).latest.size = 2 ∧
      (reputationAfter threeRatingCrates ownConfig
        [.ingest ratingA 3, .replay [ratingC, ratingB] 4, .ingest ratingC 4]).graph.map Rating.rest
          = [80] := by
    decide +kernel
  refine ⟨hrated.1, hrated.2, ?_⟩
  have hstart := @SameButStrangers.both ownConfig 0 [] [] (.ingest ratingA 3) (.ingest ratingA 3)
    (.nil 0) (Nat.zero_le 3) rfl rfl
  have hboth := @SameButStrangers.both ownConfig 3 _ _ (.replay [ratingC, ratingB] 4)
    (.replay [ratingB] 4) hstart (by decide) rfl (by decide +kernel)
  have hextra := @SameButStrangers.left ownConfig _ _ (.ingest ratingC 4) hboth (by decide +kernel)
  exact (strangers_without_influence threeRatingCrates rfl ownConfig 4 _ _ hextra).2

end NostrPubsub.Reputation
